import SvgPress.Proofs.Json.Canonical
import SvgPress.Proofs.Json.Parts
import SvgPress.Proofs.Json.Quoting
import SvgPress.Proofs.Json.Reading

/-!
Which values have a text. Not every floating point number has a numeral that is read as it, and
arrays and objects may only nest so deep; a value that was read once has a text, and so has its
canonical form. The texts that are put together here have no gaps.
-/

namespace SvgPress.Json

open Number (IsEnd)

variable {α : Type} {depth : Nat} {v : Value} {cs rest : List Char} {first : Bool}
  {read : List Char → Except Fault (α × List Char)} {P : α → Prop}

theorem ItemsOf.all {as : List α} (h : ItemsOf read first cs as rest)
    (hread : ∀ cs a rest, read cs = .ok (a, rest) → P a) : ∀ a ∈ as, P a := by
  induction h with
  | closed => simp
  | more _ hitem _ ih => exact List.forall_mem_cons.mpr ⟨hread _ _ _ hitem, ih⟩

theorem MembersOf.all {ms : List (String × α)} (h : MembersOf read first cs ms rest)
    (hread : ∀ cs a rest, read cs = .ok (a, rest) → P a) : ∀ m ∈ ms, P m.2 := by
  induction h with
  | closed => simp
  | more _ _ _ hmember _ ih => exact List.forall_mem_cons.mpr ⟨hread _ _ _ hmember, ih⟩

/-- Whether there is a numeral for a number. -/
def Number.IsWritable (n : Number) : Prop :=
  ∃ negative numeral, IsNumeralOf negative n numeral

/-- Whether a value has a text where arrays and objects may nest fewer than `depth` deep. -/
inductive Writable : Nat → Value → Prop
  | null {depth : Nat} : Writable (depth + 1) .null
  | bool {depth : Nat} (b : Bool) : Writable (depth + 1) (.bool b)
  | number {depth : Nat} {n : Number} : n.IsWritable → Writable (depth + 1) (.number n)
  | string {depth : Nat} (s : String) : Writable (depth + 1) (.string s)
  | array {depth : Nat} {vs : List Value} :
      (∀ v ∈ vs, Writable (depth + 1) v) → Writable (depth + 2) (.array vs)
  | object {depth : Nat} {ms : List (String × Value)} :
      (∀ m ∈ ms, Writable (depth + 1) m.2) → Writable (depth + 2) (.object ms)

/-- What was read can be written. -/
theorem writable_of_raw (h : Decoder.raw depth cs = .ok (v, rest)) : Writable depth v := by
  induction depth generalizing v cs rest with
  | zero => cases h
  | succ depth ih =>
      have hinner : ∀ ds w behind, Decoder.raw depth ds = .ok (w, behind) → Writable depth w :=
        fun _ _ _ => ih
      cases reading_of_raw h with
      | null => exact .null
      | yes => exact .bool true
      | no => exact .bool false
      | string => exact .string _
      | negative _ hread =>
          obtain ⟨numeral, -, hnumeral⟩ := Number.numeral_of_read hread
          exact .number ⟨true, numeral, hnumeral⟩
      | number _ _ hread =>
          obtain ⟨numeral, -, hnumeral⟩ := Number.numeral_of_read hread
          exact .number ⟨false, numeral, hnumeral⟩
      | array _ hdepth hread =>
          obtain ⟨depth, rfl⟩ := Nat.exists_eq_succ_of_ne_zero hdepth
          exact .array (hread.all hinner)
      | object _ hdepth hread =>
          obtain ⟨depth, rfl⟩ := Nat.exists_eq_succ_of_ne_zero hdepth
          exact .object (hread.all hinner)

/-- A canonical form says nothing new. -/
theorem Writable.canonical (h : Writable depth v) : Writable depth v.canonical := by
  induction h with
  | null => exact .null
  | bool b => exact .bool b
  | number hn => exact .number hn
  | string s => exact .string s
  | array _ ih =>
      rw [Value.canonical, Value.canonical_items_eq_map]
      refine .array fun w hw => ?_
      obtain ⟨v, hv, rfl⟩ := List.mem_map.mp hw
      exact ih v hv
  | object _ ih =>
      rw [Value.canonical]
      refine .object fun m hm => ?_
      obtain ⟨n, hn, hvalue⟩ := Value.mem_canonical_members hm
      rw [hvalue]
      exact ih n hn

theorem writable_option {f : α → Value} {o : Option α}
    (h : ∀ a ∈ o, Writable (depth + 1) (f a)) : Writable (depth + 1) (.ofOption f o) := by
  cases o with
  | none => exact .null
  | some a => exact h a rfl

theorem Decoder.natural_ok {n : Nat} (h : Decoder.natural depth cs = .ok (n, rest)) :
    (Number.integer n).IsWritable := by
  rw [Decoder.natural] at h
  split at h
  · cases h
  · split at h
    · obtain ⟨⟨number, behind⟩, hread, h⟩ := bind_ok h
      obtain ⟨numeral, -, hnumeral⟩ := Number.numeral_of_read hread
      simp only at h
      split at h
      · rename_i m hm
        cases h
        cases number with
        | float x => cases hm
        | integer i =>
            cases i with
            | ofNat k =>
                cases hm
                exact ⟨false, numeral, hnumeral⟩
            | negSucc k => cases hm
      · cases h
    · cases h

/-- Whether the values of an object can be written. -/
def Object.IsWritable (depth : Nat) (o : Object) : Prop :=
  o.IsCanonical ∧ ∀ m ∈ o, Writable depth m.2

theorem Decoder.object_ok {o : Object} (h : Decoder.object depth cs = .ok (o, rest)) :
    o.IsWritable (depth - 1) := by
  rw [Decoder.object] at h
  split at h
  · cases h
  · split at h
    · cases h
    · refine invariant_of_members (fun key o cs next rest ho hmember => ?_)
        (⟨Object.canonical_nil, by simp⟩ : Object.IsWritable (depth - 1) []) h
      obtain ⟨value, -, hmember⟩ := bind_ok hmember
      obtain ⟨⟨v, behind⟩, hread, hmember⟩ := bind_ok hmember
      obtain ⟨⟨w, behind⟩, hraw, hpair⟩ := map_ok hread
      cases hpair
      cases hmember
      refine ⟨ho.1.put key (Value.canonical_canonical w), fun m hm => ?_⟩
      rcases Object.mem_put hm with rfl | hm
      · exact (writable_of_raw hraw).canonical
      · exact ho.2 m hm
  · cases h

/-! ### Texts -/

/-- Whether some text is read as a value wherever it has an end. -/
def HasText (depth : Nat) (v : Value) : Prop :=
  ∃ text, ∀ other, IsEnd other → Decoder.raw depth (text ++ other) = .ok (v, other)

theorem end_of_mark {mark : Char} (h : mark ∈ [',', ']', '\x7d']) (cs : List Char) :
    IsEnd (mark :: cs) := by
  have hall : ∀ c ∈ [',', ']', '\x7d'], c.isDigit = false ∧ c ≠ '.' ∧ c ≠ 'e' ∧ c ≠ 'E' := by decide
  intro c hc
  obtain rfl : mark = c := Option.some.inj hc
  exact hall mark h

/-- A value begins with no mark that stands between items. -/
theorem next_item_of_raw (h : Decoder.raw depth cs = .ok (v, rest)) :
    nextItem true cs = .ok (.more (skipGap cs)) ∧
      nextItem false (',' :: cs) = .ok (.more (skipGap cs)) := by
  have hhead : ∃ c body, skipGap cs = c :: body ∧ c ≠ ']' ∧ c ≠ ',' := by
    cases depth with
    | zero => cases h
    | succ depth =>
        cases reading_of_raw h with
        | number hskip hdigit =>
            refine ⟨_, _, hskip, ?_, ?_⟩ <;> (rintro rfl; cases hdigit)
        | null hskip | yes hskip | no hskip | string hskip | negative hskip | array hskip
        | object hskip => exact ⟨_, _, hskip, by decide, by decide⟩
  obtain ⟨c, body, hskip, hclose, hcomma⟩ := hhead
  have hmark : skipGap (',' :: cs) = ',' :: cs := skip_gap_cons rfl cs
  constructor
  · rw [nextItem, hskip]
    split
    · rename_i heq
      cases heq
    · rename_i heq
      exact absurd (List.cons_eq_cons.mp heq).1 hclose
    · rename_i heq
      exact absurd (List.cons_eq_cons.mp heq).1 hcomma
    · rfl
  · simp only [nextItem, hmark, Bool.false_eq_true, if_false, hskip]
    split
    · rename_i heq
      cases heq
    · rename_i heq
      exact absurd (List.cons_eq_cons.mp heq).1 hclose
    · rfl

/-- Items behind a first one, with a comma before each. -/
theorem items_text {vs : List Value} (h : ∀ v ∈ vs, HasText depth v) :
    ∃ text, ∀ other, IsEnd (text ++ ']' :: other) ∧
      ItemsOf (Decoder.raw depth) false (text ++ ']' :: other) vs other := by
  induction vs with
  | nil => exact ⟨[], fun other => ⟨end_of_mark (by decide) other, .closed rfl⟩⟩
  | cons v vs ih =>
      rw [List.forall_mem_cons] at h
      obtain ⟨first, hfirst⟩ := h.1
      obtain ⟨more, hmore⟩ := ih h.2
      refine ⟨',' :: (first ++ more), fun other => ?_⟩
      obtain ⟨hend, hitems⟩ := hmore other
      have hread := hfirst _ hend
      rw [List.cons_append, List.append_assoc]
      exact ⟨end_of_mark (by decide) _,
        .more (next_item_of_raw hread).2 (raw_skip_gap hread) hitems⟩

/-- A key and its value, and the members behind them. -/
theorem member_text {text other : List Char} {ms : List (String × Value)} (key : String)
    (hread : Decoder.raw depth (text ++ other) = .ok (v, other))
    (hrest : MembersOf (Decoder.raw depth) false other ms rest) (hentry : nextKey first cs =
      .ok (.more (key.toList.flatMap escapeChar ++ '"' :: ':' :: (text ++ other)))) :
    MembersOf (Decoder.raw depth) first cs ((key, v) :: ms) rest := by
  have hkey : stringBody [] (key.toList.flatMap escapeChar ++ '"' :: ':' :: (text ++ other)) =
      .ok (key, ':' :: (text ++ other)) := by
    rw [string_body_quote, List.reverse_nil, List.nil_append, String.ofList_toList]
  exact .more hentry hkey rfl hread hrest

theorem members_text {ms : List (String × Value)} (h : ∀ m ∈ ms, HasText depth m.2) :
    ∃ text, ∀ other, IsEnd (text ++ '\x7d' :: other) ∧
      MembersOf (Decoder.raw depth) false (text ++ '\x7d' :: other) ms other := by
  induction ms with
  | nil => exact ⟨[], fun other => ⟨end_of_mark (by decide) other, .closed rfl⟩⟩
  | cons m ms ih =>
      obtain ⟨key, v⟩ := m
      rw [List.forall_mem_cons] at h
      obtain ⟨first, hfirst⟩ := h.1
      obtain ⟨more, hmore⟩ := ih h.2
      refine ⟨',' :: '"' :: (key.toList.flatMap escapeChar ++ '"' :: ':' :: (first ++ more)),
        fun other => ?_⟩
      obtain ⟨hend, hmembers⟩ := hmore other
      refine ⟨end_of_mark (by decide) _, member_text key (hfirst _ hend) hmembers ?_⟩
      simp only [List.cons_append, List.append_assoc]
      rfl

theorem bool_has_text (b : Bool) : HasText (depth + 1) (.bool b) := by
  cases b with
  | true => exact ⟨"true".toList, fun other _ => raw_iff.mpr (.yes (skip_gap_cons rfl _) rfl)⟩
  | false => exact ⟨"false".toList, fun other _ => raw_iff.mpr (.no (skip_gap_cons rfl _) rfl)⟩

theorem number_has_text {n : Number} (hn : n.IsWritable) : HasText (depth + 1) (.number n) := by
  obtain ⟨negative, numeral, ⟨d, ds, rfl, hdigit⟩, hread⟩ := hn
  cases negative with
  | true =>
      exact ⟨'-' :: d :: ds, fun other hother =>
        raw_iff.mpr (.negative (skip_gap_cons rfl _) (hread other hother))⟩
  | false =>
      have hgap : isGap d = false := by
        rw [Bool.eq_false_iff]
        intro hd
        simp only [isGap, Bool.or_eq_true, beq_iff_eq] at hd
        rcases hd with ((rfl | rfl) | rfl) | rfl <;> cases hdigit
      exact ⟨d :: ds, fun other hother =>
        raw_iff.mpr (.number (skip_gap_cons hgap _) hdigit (hread other hother))⟩

theorem string_has_text (s : String) : HasText (depth + 1) (.string s) := by
  refine ⟨quoteChars s.toList, fun other _ => ?_⟩
  have htext : quoteChars s.toList ++ other =
      '"' :: (s.toList.flatMap escapeChar ++ '"' :: other) := by
    simp [quoteChars]
  have hread := string_body_quote s.toList [] other
  rw [List.reverse_nil, List.nil_append, String.ofList_toList] at hread
  rw [htext, raw_iff]
  exact .string (skip_gap_cons rfl _) hread

theorem array_has_text {vs : List Value} (h : ∀ v ∈ vs, HasText (depth + 1) v) :
    HasText (depth + 2) (.array vs) := by
  cases vs with
  | nil =>
      exact ⟨['[', ']'], fun other _ =>
        raw_iff.mpr (.array (skip_gap_cons rfl _) (Nat.succ_ne_zero _) (.closed rfl))⟩
  | cons v vs =>
      rw [List.forall_mem_cons] at h
      obtain ⟨first, hfirst⟩ := h.1
      obtain ⟨more, hmore⟩ := items_text h.2
      refine ⟨'[' :: (first ++ (more ++ [']'])), fun other _ => ?_⟩
      obtain ⟨hend, hitems⟩ := hmore other
      have hread := hfirst _ hend
      have htext : '[' :: (first ++ (more ++ [']'])) ++ other =
          '[' :: (first ++ (more ++ ']' :: other)) := by simp
      rw [htext, raw_iff]
      exact .array (skip_gap_cons rfl _) (Nat.succ_ne_zero _)
        (.more (next_item_of_raw hread).1 (raw_skip_gap hread) hitems)

theorem object_has_text {ms : List (String × Value)} (h : ∀ m ∈ ms, HasText (depth + 1) m.2) :
    HasText (depth + 2) (.object ms) := by
  cases ms with
  | nil =>
      exact ⟨['\x7b', '\x7d'], fun other _ =>
        raw_iff.mpr (.object (skip_gap_cons rfl _) (Nat.succ_ne_zero _) (.closed rfl))⟩
  | cons m ms =>
      obtain ⟨key, v⟩ := m
      rw [List.forall_mem_cons] at h
      obtain ⟨first, hfirst⟩ := h.1
      obtain ⟨more, hmore⟩ := members_text h.2
      refine ⟨'\x7b' :: '"' ::
        (key.toList.flatMap escapeChar ++ '"' :: ':' :: (first ++ (more ++ ['\x7d']))),
        fun other _ => ?_⟩
      obtain ⟨hend, hmembers⟩ := hmore other
      have htext : '\x7b' :: '"' ::
          (key.toList.flatMap escapeChar ++ '"' :: ':' :: (first ++ (more ++ ['\x7d']))) ++ other =
          '\x7b' :: '"' ::
            (key.toList.flatMap escapeChar ++
              '"' :: ':' :: (first ++ (more ++ '\x7d' :: other))) := by
        simp
      rw [htext, raw_iff]
      exact .object (skip_gap_cons rfl _) (Nat.succ_ne_zero _)
        (member_text key (hfirst _ hend) hmembers rfl)

/-- What can be written has a text. -/
theorem Writable.has_text (h : Writable depth v) : HasText depth v := by
  induction h with
  | null => exact ⟨"null".toList, fun other _ => raw_iff.mpr (.null (skip_gap_cons rfl _) rfl)⟩
  | bool b => exact bool_has_text b
  | number hn => exact number_has_text hn
  | string s => exact string_has_text s
  | array _ ih => exact array_has_text ih
  | object _ ih => exact object_has_text ih

/-- What can be written is the value of a whole text. -/
theorem Writable.decodes (h : Writable 128 v) : ∃ text, decode Decoder.raw text = .ok v := by
  obtain ⟨text, hread⟩ := h.has_text
  refine ⟨String.ofList text, ?_⟩
  have hend := hread [] (by simp [IsEnd])
  rw [List.append_nil] at hend
  rw [decode, String.toList_ofList, hend]
  rfl

end SvgPress.Json
