import Mathlib.Data.List.DropRight
import SvgPress.Json.Decoder
import SvgPress.Proofs.Json.Numerals

/-!
The parts of a text that a value is read from. A run of the readers for arrays and objects is told
by the items and members that it comes upon, without its budget and what it has gathered so far;
each part is shorter than the text it stands in, so that the budget is never used up.
-/

namespace SvgPress.Json

variable {α β σ : Type} {cs rest : List Char} {first : Bool}

theorem skip_gap_skip_gap (cs : List Char) : skipGap (skipGap cs) = skipGap cs :=
  List.dropWhile_idempotent isGap cs

theorem length_skip_gap_le (cs : List Char) : (skipGap cs).length ≤ cs.length :=
  (List.dropWhile_suffix isGap).length_le

/-- What begins with a character that is no gap is what a reader goes on from. -/
theorem skip_gap_cons {c : Char} (h : isGap c = false) (cs : List Char) :
    skipGap (c :: cs) = c :: cs :=
  List.dropWhile_cons_of_neg (by simp [h])

/-! ### Runs of readers -/

/-- The items that are read from a text up to the end of an array. -/
inductive ItemsOf (read : List Char → Except Fault (α × List Char)) :
    Bool → List Char → List α → List Char → Prop
  | closed {first : Bool} {cs rest : List Char} :
      nextItem first cs = .ok (.closed rest) → ItemsOf read first cs [] rest
  | more {first : Bool} {cs behind after rest : List Char} {a : α} {as : List α} :
      nextItem first cs = .ok (.more behind) → read behind = .ok (a, after) →
        ItemsOf read false after as rest → ItemsOf read first cs (a :: as) rest

/-- The members that are read from a text up to the end of an object. -/
inductive MembersOf (read : List Char → Except Fault (α × List Char)) :
    Bool → List Char → List (String × α) → List Char → Prop
  | closed {first : Bool} {cs rest : List Char} :
      nextKey first cs = .ok (.closed rest) → MembersOf read first cs [] rest
  | more {first : Bool} {cs quoted behind value after rest : List Char} {key : String} {a : α}
      {ms : List (String × α)} :
      nextKey first cs = .ok (.more quoted) → stringBody [] quoted = .ok (key, behind) →
        colon behind = .ok value → read value = .ok (a, after) →
        MembersOf read false after ms rest → MembersOf read first cs ((key, a) :: ms) rest

/-- Where members lead to, each by a step of its own. -/
inductive Leads (step : σ → String × α → σ → Prop) : σ → List (String × α) → σ → Prop
  | nil {s : σ} : Leads step s [] s
  | cons {s t final : σ} {m : String × α} {ms : List (String × α)} :
      step s m t → Leads step t ms final → Leads step s (m :: ms) final

theorem leads_foldl (next : σ → String × α → σ) (s : σ) (ms : List (String × α)) :
    Leads (fun s m t => t = next s m) s ms (ms.foldl next s) := by
  induction ms generalizing s with
  | nil => exact .nil
  | cons m ms ih => exact .cons rfl (ih (next s m))

variable {read : List Char → Except Fault (α × List Char)}

theorem items_of_run {budget : Nat} {acc as : List α}
    (h : items read budget first acc cs = .ok (as, rest)) :
    ∃ new, as = acc.reverse ++ new ∧ ItemsOf read first cs new rest := by
  induction budget generalizing first acc cs with
  | zero => cases h
  | succ budget ih =>
      rw [items] at h
      obtain ⟨entry, hentry, h⟩ := bind_ok h
      cases entry with
      | closed behind =>
          cases h
          exact ⟨[], (List.append_nil _).symm, .closed hentry⟩
      | more behind =>
          obtain ⟨⟨a, after⟩, hread, h⟩ := bind_ok h
          obtain ⟨new, rfl, hnew⟩ := ih h
          exact ⟨a :: new, by simp, .more hentry hread hnew⟩

theorem ItemsOf.run {as : List α} (h : ItemsOf read first cs as rest) {budget : Nat}
    (hbudget : as.length < budget) (acc : List α) :
    items read budget first acc cs = .ok (acc.reverse ++ as, rest) := by
  induction h generalizing budget acc with
  | closed hentry =>
      obtain ⟨budget, rfl⟩ := Nat.exists_eq_succ_of_ne_zero (Nat.ne_of_gt hbudget)
      rw [items, hentry, List.append_nil]
      rfl
  | @more _ _ _ _ _ a _ hentry hread _ ih =>
      obtain ⟨budget, rfl⟩ :=
        Nat.exists_eq_succ_of_ne_zero (Nat.ne_of_gt (Nat.zero_lt_of_lt hbudget))
      rw [items, bind_of_ok hentry]
      refine (bind_of_ok hread _).trans ?_
      have hrun := ih (Nat.lt_of_succ_lt_succ hbudget) (a :: acc)
      rwa [List.reverse_cons, List.append_assoc, List.singleton_append] at hrun

/-- Items that another reader takes for something else each. -/
theorem ItemsOf.replace {other : List Char → Except Fault (β × List Char)}
    {as : List α} {bs : List β}
    (h : ItemsOf read first cs as rest)
    (hother : List.Forall₂ (fun a b => ∀ cs rest, read cs = .ok (a, rest) →
      other cs = .ok (b, rest))
      as bs) : ItemsOf other first cs bs rest := by
  induction h generalizing bs with
  | closed hentry =>
      cases hother
      exact .closed hentry
  | more hentry hread _ ih =>
      cases hother with
      | cons hfirst hother => exact .more hentry (hfirst _ _ hread) (ih hother)

/-- What the reader of a value of any kind does with a member. -/
def keepMember (read : List Char → Except Fault (α × List Char)) (key : String)
    (ms : List (String × α)) (cs : List Char) : Except Fault (List (String × α) × List Char) := do
  let cs ← colon cs
  let (v, cs) ← read cs
  .ok ((key, v) :: ms, cs)

theorem members_of_run {budget : Nat} {acc ms : List (String × α)}
    (h : members (keepMember read) budget first acc cs = .ok (ms, rest)) :
    ∃ new, ms = new.reverse ++ acc ∧ MembersOf read first cs new rest := by
  induction budget generalizing first acc cs with
  | zero => cases h
  | succ budget ih =>
      rw [members] at h
      obtain ⟨entry, hentry, h⟩ := bind_ok h
      cases entry with
      | closed behind =>
          cases h
          exact ⟨[], rfl, .closed hentry⟩
      | more quoted =>
          obtain ⟨⟨key, behind⟩, hkey, h⟩ := bind_ok h
          obtain ⟨⟨next, after⟩, hmember, h⟩ := bind_ok h
          obtain ⟨value, hcolon, hmember⟩ := bind_ok hmember
          obtain ⟨⟨a, after⟩, hread, hmember⟩ := bind_ok hmember
          cases hmember
          obtain ⟨new, rfl, hnew⟩ := ih h
          exact ⟨(key, a) :: new, by simp, .more hentry hkey hcolon hread hnew⟩

theorem MembersOf.run {member : String → σ → List Char → Except Fault (σ × List Char)}
    {step : σ → String × α → σ → Prop} {ms : List (String × α)} {s final : σ}
    (h : MembersOf read first cs ms rest) (hleads : Leads step s ms final)
    (hmember : ∀ s key a t cs value after, step s (key, a) t → colon cs = .ok value →
      read value = .ok (a, after) → member key s cs = .ok (t, after))
    {budget : Nat} (hbudget : ms.length < budget) :
    members member budget first s cs = .ok (final, rest) := by
  induction h generalizing budget s with
  | closed hentry =>
      obtain ⟨budget, rfl⟩ := Nat.exists_eq_succ_of_ne_zero (Nat.ne_of_gt hbudget)
      cases hleads
      rw [members, hentry]
      rfl
  | more hentry hkey hcolon hread _ ih =>
      obtain ⟨budget, rfl⟩ :=
        Nat.exists_eq_succ_of_ne_zero (Nat.ne_of_gt (Nat.zero_lt_of_lt hbudget))
      cases hleads with
      | cons hstep hleads =>
          rw [members, bind_of_ok hentry]
          refine (bind_of_ok hkey _).trans ?_
          refine (bind_of_ok (hmember _ _ _ _ _ _ _ hstep hcolon hread) _).trans ?_
          exact ih hleads (Nat.lt_of_succ_lt_succ hbudget)

/-! ### Progress -/

theorem rest_of_keyword {word : List Char} (h : keyword word cs = .ok ((), rest)) :
    cs = word ++ rest := by
  induction word generalizing cs with
  | nil =>
      cases h
      rfl
  | cons k word ih =>
      cases cs with
      | nil => cases h
      | cons c cs =>
          rw [keyword] at h
          split at h
          · rename_i hsame
            rw [hsame, ih h]
            rfl
          · cases h

theorem length_of_string_body {acc : List Char} {s : String}
    (h : stringBody acc cs = .ok (s, rest)) : rest.length < cs.length := by
  induction acc, cs using stringBody.induct with
  | case1 => simp [stringBody] at h
  | case2 acc cs =>
      rw [stringBody, if_pos rfl] at h
      cases h
      exact Nat.lt_succ_self _
  | case3 acc cs d n hescaped hquote ih =>
      rw [stringBody, if_neg hquote, if_pos rfl, hescaped] at h
      have hless := ih h
      rw [List.length_drop] at hless
      rw [List.length_cons]
      omega
  | case4 acc cs fault hescaped hquote =>
      rw [stringBody, if_neg hquote, if_pos rfl, hescaped] at h
      cases h
  | case5 acc c cs hquote hslash hcontrol =>
      rw [stringBody, if_neg hquote, if_neg hslash, if_pos hcontrol] at h
      cases h
  | case6 acc c cs hquote hslash hplain ih =>
      rw [stringBody, if_neg hquote, if_neg hslash, if_neg hplain] at h
      exact Nat.lt_succ_of_lt (ih h)

theorem rest_of_colon (h : colon cs = .ok rest) : skipGap cs = ':' :: rest := by
  rw [colon] at h
  split at h
  · cases h
  · rename_i behind hskip
    cases h
    exact hskip
  · cases h

/-- An array ends, or an item stands behind a comma or is the first one. -/
theorem next_item_cases {entry : Entry} (h : nextItem first cs = .ok entry) :
    (∃ rest, skipGap cs = ']' :: rest ∧ entry = .closed rest) ∨
      (∃ rest, skipGap cs = ',' :: rest ∧ entry = .more (skipGap rest)) ∨
      entry = .more (skipGap cs) := by
  rw [nextItem] at h
  split at h
  · cases h
  · rename_i behind hskip
    cases h
    exact .inl ⟨behind, hskip, rfl⟩
  · rename_i behind hskip
    split at h
    · cases h
    · split at h
      · cases h
      · cases h
      · cases h
        exact .inr (.inl ⟨behind, hskip, rfl⟩)
  · split at h
    · cases h
      exact .inr (.inr rfl)
    · cases h

/-- An object ends, or a key stands behind a comma or is the first one. -/
theorem next_key_cases {entry : Entry} (h : nextKey first cs = .ok entry) :
    (∃ rest, skipGap cs = '\x7d' :: rest ∧ entry = .closed rest) ∨
      (∃ rest quoted, skipGap cs = ',' :: rest ∧ skipGap rest = '"' :: quoted ∧
        entry = .more quoted) ∨
      ∃ quoted, skipGap cs = '"' :: quoted ∧ entry = .more quoted := by
  have hkey {ds : List Char} (h : nextKey.key ds = .ok entry) :
      ∃ quoted, ds = '"' :: quoted ∧ entry = .more quoted := by
    unfold nextKey.key at h
    split at h
    · cases h
    · rename_i quoted
      cases h
      exact ⟨quoted, rfl, rfl⟩
    · cases h
  rw [nextKey] at h
  split at h
  · cases h
  · rename_i behind hskip
    cases h
    exact .inl ⟨behind, hskip, rfl⟩
  · rename_i behind hskip
    split at h
    · cases h
    · obtain ⟨quoted, hquoted, hentry⟩ := hkey h
      exact .inr (.inl ⟨behind, quoted, hskip, hquoted, hentry⟩)
  · split at h
    · exact .inr (.inr (hkey h))
    · cases h

variable (hread : ∀ cs a rest, read cs = .ok (a, rest) → rest.length < cs.length)

include hread

theorem ItemsOf.length {as : List α} (h : ItemsOf read first cs as rest) :
    as.length + rest.length < cs.length := by
  induction h with
  | @closed first cs rest hentry =>
      have hgap := length_skip_gap_le cs
      rcases next_item_cases hentry with
        ⟨behind, hskip, hrest⟩ | ⟨_, _, hrest⟩ | hrest <;> cases hrest
      rw [hskip] at hgap
      simp only [List.length_cons, List.length_nil] at hgap ⊢
      omega
  | @more first cs behind after rest a as hentry hitem _ ih =>
      have hless := hread _ _ _ hitem
      have hbehind : behind.length ≤ cs.length := by
        have hgap := length_skip_gap_le cs
        rcases next_item_cases hentry with
          ⟨_, _, hmore⟩ | ⟨tail, hskip, hmore⟩ | hmore <;> cases hmore
        · have htail := length_skip_gap_le tail
          rw [hskip, List.length_cons] at hgap
          omega
        · exact hgap
      rw [List.length_cons]
      omega

theorem MembersOf.length {ms : List (String × α)} (h : MembersOf read first cs ms rest) :
    ms.length + rest.length < cs.length := by
  induction h with
  | @closed first cs rest hentry =>
      have hgap := length_skip_gap_le cs
      rcases next_key_cases hentry with
          ⟨behind, hskip, hrest⟩ | ⟨_, _, _, _, hrest⟩ | ⟨_, _, hrest⟩ <;>
        cases hrest
      rw [hskip] at hgap
      simp only [List.length_cons, List.length_nil] at hgap ⊢
      omega
  | @more first cs quoted behind value after rest key a ms hentry hkey hcolon hmember _ ih =>
      have hless := hread _ _ _ hmember
      have hstring := length_of_string_body hkey
      have hvalue := length_skip_gap_le behind
      rw [rest_of_colon hcolon, List.length_cons] at hvalue
      have hquoted : quoted.length ≤ cs.length := by
        have hgap := length_skip_gap_le cs
        rcases next_key_cases hentry with ⟨_, _, hmore⟩ | ⟨tail, _, hskip, htail, hmore⟩ |
          ⟨_, hskip, hmore⟩ <;> cases hmore
        · have htailgap := length_skip_gap_le tail
          rw [hskip, List.length_cons] at hgap
          rw [htail, List.length_cons] at htailgap
          omega
        · rw [hskip, List.length_cons] at hgap
          omega
      rw [List.length_cons]
      omega

omit hread

/-! ### Values of any kind -/

/-- What a reader of a value of any kind comes upon, where arrays and objects may nest `depth`
deep. -/
inductive Reading (depth : Nat) (cs : List Char) : Value → List Char → Prop
  | null {body rest : List Char} :
      skipGap cs = 'n' :: body → keyword "ull".toList body = .ok ((), rest) →
        Reading depth cs .null rest
  | yes {body rest : List Char} :
      skipGap cs = 't' :: body → keyword "rue".toList body = .ok ((), rest) →
        Reading depth cs (.bool true) rest
  | no {body rest : List Char} :
      skipGap cs = 'f' :: body → keyword "alse".toList body = .ok ((), rest) →
        Reading depth cs (.bool false) rest
  | string {body rest : List Char} {s : String} :
      skipGap cs = '"' :: body → stringBody [] body = .ok (s, rest) →
        Reading depth cs (.string s) rest
  | negative {body rest : List Char} {n : Number} :
      skipGap cs = '-' :: body → Number.read true body = .ok (n, rest) →
        Reading depth cs (.number n) rest
  | number {c : Char} {body rest : List Char} {n : Number} :
      skipGap cs = c :: body → c.isDigit → Number.read false (c :: body) = .ok (n, rest) →
        Reading depth cs (.number n) rest
  | array {body rest : List Char} {vs : List Value} :
      skipGap cs = '[' :: body → depth ≠ 0 → ItemsOf (Decoder.raw depth) true body vs rest →
        Reading depth cs (.array vs) rest
  | object {body rest : List Char} {ms : List (String × Value)} :
      skipGap cs = '\x7b' :: body → depth ≠ 0 → MembersOf (Decoder.raw depth) true body ms rest →
        Reading depth cs (.object ms) rest

theorem reading_of_raw {depth : Nat} {v : Value} (h : Decoder.raw (depth + 1) cs = .ok (v, rest)) :
    Reading depth cs v rest := by
  rw [Decoder.raw] at h
  split at h
  · cases h
  · rename_i hskip
    obtain ⟨⟨_, behind⟩, hword, hpair⟩ := map_ok h
    cases hpair
    exact .null hskip hword
  · rename_i hskip
    obtain ⟨⟨_, behind⟩, hword, hpair⟩ := map_ok h
    cases hpair
    exact .yes hskip hword
  · rename_i hskip
    obtain ⟨⟨_, behind⟩, hword, hpair⟩ := map_ok h
    cases hpair
    exact .no hskip hword
  · rename_i hskip
    obtain ⟨⟨s, behind⟩, hstring, hpair⟩ := map_ok h
    cases hpair
    exact .string hskip hstring
  · rename_i hskip
    obtain ⟨⟨n, behind⟩, hnumber, hpair⟩ := map_ok h
    cases hpair
    exact .negative hskip hnumber
  · rename_i hskip
    split at h
    · cases h
    · rename_i hdepth
      obtain ⟨⟨vs, behind⟩, hitems, hpair⟩ := map_ok h
      cases hpair
      obtain ⟨new, rfl, hnew⟩ := items_of_run hitems
      exact .array hskip hdepth hnew
  · rename_i hskip
    split at h
    · cases h
    · rename_i hdepth
      obtain ⟨⟨ms, behind⟩, hmembers, hpair⟩ := map_ok h
      cases hpair
      obtain ⟨new, rfl, hnew⟩ := members_of_run hmembers
      rw [List.append_nil, List.reverse_reverse]
      exact .object hskip hdepth hnew
  · rename_i hskip
    split at h
    · rename_i hdigit
      obtain ⟨⟨n, behind⟩, hnumber, hpair⟩ := map_ok h
      cases hpair
      exact .number hskip hdigit hnumber
    · cases h

/-- A value takes at least one character. -/
theorem length_of_raw {depth : Nat} {v : Value} (h : Decoder.raw depth cs = .ok (v, rest)) :
    rest.length < cs.length := by
  induction depth generalizing v cs rest with
  | zero => cases h
  | succ depth ih =>
      have hinner : ∀ ds w behind, Decoder.raw depth ds = .ok (w, behind) →
          behind.length < ds.length :=
        fun _ _ _ => ih
      have hbehind {c : Char} {body : List Char} (hskip : skipGap cs = c :: body)
          (hle : rest.length ≤ body.length) : rest.length < cs.length := by
        have hgap := length_skip_gap_le cs
        rw [hskip, List.length_cons] at hgap
        omega
      have hword {word body : List Char} (hword : keyword word body = .ok ((), rest)) :
          rest.length ≤ body.length := by
        rw [rest_of_keyword hword, List.length_append]
        exact Nat.le_add_left _ _
      have hnumeral {negative : Bool} {n : Number} {ds : List Char}
          (hnumber : Number.read negative ds = .ok (n, rest)) : rest.length < ds.length := by
        obtain ⟨_, rfl, ⟨d, numeral, rfl, -⟩, -⟩ := Number.numeral_of_read hnumber
        rw [List.length_append, List.length_cons]
        omega
      cases reading_of_raw h with
      | null hskip hread => exact hbehind hskip (hword hread)
      | yes hskip hread => exact hbehind hskip (hword hread)
      | no hskip hread => exact hbehind hskip (hword hread)
      | string hskip hread => exact hbehind hskip (Nat.le_of_lt (length_of_string_body hread))
      | negative hskip hread => exact hbehind hskip (Nat.le_of_lt (hnumeral hread))
      | number hskip _ hread => exact hbehind hskip (Nat.le_of_lt_succ (hnumeral hread))
      | array hskip _ hread =>
          have hlength := hread.length hinner
          exact hbehind hskip (by omega)
      | object hskip _ hread =>
          have hlength := hread.length hinner
          exact hbehind hskip (by omega)

/-- The budget of a reader of an array or object is as large as the text, so it is not used up. -/
theorem lt_of_skip_gap {c : Char} {body : List Char} {count : Nat} (hskip : skipGap cs = c :: body)
    (h : count + rest.length < body.length) : count < cs.length := by
  have hgap := length_skip_gap_le cs
  rw [hskip, List.length_cons] at hgap
  omega

theorem raw_iff {depth : Nat} {v : Value} :
    Decoder.raw (depth + 1) cs = .ok (v, rest) ↔ Reading depth cs v rest := by
  refine ⟨reading_of_raw, fun h => ?_⟩
  have hinner : ∀ ds w behind, Decoder.raw depth ds = .ok (w, behind) → behind.length < ds.length :=
    fun _ _ _ => length_of_raw
  cases h with
  | null hskip hread => simp only [Decoder.raw, hskip, hread, Except.map]
  | yes hskip hread => simp only [Decoder.raw, hskip, hread, Except.map]
  | no hskip hread => simp only [Decoder.raw, hskip, hread, Except.map]
  | string hskip hread => simp only [Decoder.raw, hskip, hread, Except.map]
  | negative hskip hread => simp only [Decoder.raw, hskip, hread, Except.map]
  | number hskip hdigit hread =>
      rw [Decoder.raw, hskip]
      split <;> rename_i heq <;> cases heq
      case h_9 =>
        rw [if_pos hdigit, hread]
        rfl
      -- no other value begins with a digit
      all_goals cases hdigit
  | array hskip hdepth hread =>
      have hrun := hread.run (lt_of_skip_gap hskip (hread.length hinner)) []
      simp only [Decoder.raw, hskip, if_neg hdepth, hrun]
      rfl
  | @object body _ ms hskip hdepth hread =>
      have hreverse : ms.foldl (fun acc m => m :: acc) [] = ms.reverse := by simp
      have hrun : members (keepMember (Decoder.raw depth)) cs.length true [] body =
          .ok (ms.reverse, rest) := by
        rw [← hreverse]
        refine hread.run (leads_foldl _ [] ms)
            (fun acc key a t ds value after hstep hcolon hread => ?_)
          (lt_of_skip_gap hskip (hread.length hinner))
        rw [keepMember, bind_of_ok hcolon, bind_of_ok hread, hstep]
      simp only [Decoder.raw, hskip, if_neg hdepth]
      show (members (keepMember (Decoder.raw depth)) cs.length true [] body).map _ = _
      rw [hrun]
      simp only [Except.map, List.reverse_reverse]

/-- A value is read without regard to the gap before it. -/
theorem raw_skip_gap {depth : Nat} {v : Value} (h : Decoder.raw depth cs = .ok (v, rest)) :
    Decoder.raw depth (skipGap cs) = .ok (v, rest) := by
  cases depth with
  | zero => cases h
  | succ depth =>
      rw [raw_iff] at h ⊢
      have hgap := skip_gap_skip_gap cs
      cases h with
      | null hskip hread => exact .null (hgap.trans hskip) hread
      | yes hskip hread => exact .yes (hgap.trans hskip) hread
      | no hskip hread => exact .no (hgap.trans hskip) hread
      | string hskip hread => exact .string (hgap.trans hskip) hread
      | negative hskip hread => exact .negative (hgap.trans hskip) hread
      | number hskip hdigit hread => exact .number (hgap.trans hskip) hdigit hread
      | array hskip hdepth hread => exact .array (hgap.trans hskip) hdepth hread
      | object hskip hdepth hread => exact .object (hgap.trans hskip) hdepth hread

end SvgPress.Json
