import SvgPress.Pass.PathData
import SvgPress.Proofs.Number.Numeral

/-!
Path data written and read again. Separators are dropped between numbers wherever the second one
marks itself off, by its sign or by its point. What is written is read back as the same commands
and, in the place of every number, the text that was written for it.
-/

namespace SvgPress.PathData

open Decimal Numerals

/-- A token before and after its data was written in a style. -/
inductive Token.Rewritten (style : Style) : Token → Token → Prop
  | command (letter : Char) : Rewritten style (.command letter) (.command letter)
  | number {written : List Char} {x : Binary64} :
      Decimal.read? written = some x → Rewritten style (.number written) (.number (style.write x))

/-- Whether a command is one of those that path data can hold. -/
def Token.IsKnown : Token → Prop
  | .command letter => letter ∈ commands
  | .number _ => True

/-- Whether a token that is a number is a finite one. -/
def Token.isFinite : Token → Bool
  | .command _ => true
  | .number written => (Decimal.read? written).all Binary64.isFinite

theorem Token.finite_of_read {written : List Char} (h : (Token.number written).isFinite)
    {x : Binary64} (hread : Decimal.read? written = some x) : x.isFinite := by
  simpa [Token.isFinite, hread] using h

theorem known_token {cs rest : List Char} {t : Token} (h : token? cs = some (t, rest)) :
    t.IsKnown := by
  unfold token? at h
  split at h
  · cases h
  · split at h
    · rename_i hletter
      cases h
      exact List.contains_iff_mem.mp hletter
    · obtain ⟨_, -, heq⟩ := Option.map_eq_some_iff.mp h
      cases heq
      trivial

theorem known_scan {budget : Nat} {cs : List Char} {ts : List Token}
    (h : scan budget cs = some ts) : ∀ t ∈ ts, t.IsKnown := by
  induction budget generalizing cs ts with
  | zero =>
      rw [scan] at h
      split at h <;> cases h
      simp
  | succ budget ih =>
      rw [scan] at h
      split at h
      · cases h
        simp
      · obtain ⟨⟨t, rest⟩, htoken, hmore⟩ := Option.bind_eq_some_iff.mp h
        obtain ⟨more, hscan, heq⟩ := Option.bind_eq_some_iff.mp hmore
        cases heq
        exact List.forall_mem_cons.mpr ⟨known_token htoken, ih hscan⟩

theorem known_tokens {data : List Char} {ts : List Token} (h : tokens? data = some ts) :
    ∀ t ∈ ts, t.IsKnown := by
  unfold tokens? at h
  split at h
  · cases h
  · exact known_scan h

/-! ### What is written -/

/-- The space before a number, if it could run into the number before it. -/
def gap (earlier : Option (List Char)) (number : List Char) : List Char :=
  if earlier.any fun e => !joins e number then [' '] else []

theorem write_number {style : Style} {earlier : Option (List Char)} {written : List Char}
    {rest : List Token} {out : List Char}
    (h : write style earlier (.number written :: rest) = some out) :
    ∃ x more, Decimal.read? written = some x ∧ write style (some (style.write x)) rest = some more ∧
      out = gap earlier (style.write x) ++ (style.write x ++ more) := by
  rw [write] at h
  obtain ⟨x, hread, h⟩ := Option.bind_eq_some_iff.mp h
  obtain ⟨more, hmore, heq⟩ := Option.bind_eq_some_iff.mp h
  cases heq
  exact ⟨x, more, hread, hmore, List.append_assoc _ _ _⟩

theorem write_command {style : Style} {earlier : Option (List Char)} {letter : Char}
    {rest : List Token} {out : List Char}
    (h : write style earlier (.command letter :: rest) = some out) :
    ∃ more, write style none rest = some more ∧ out = letter :: more := by
  rw [write] at h
  obtain ⟨more, hmore, rfl⟩ := Option.map_eq_some_iff.mp h
  exact ⟨more, hmore, rfl⟩

/-- How commands and finite numbers are written in a style, behind the number that stands directly
before them, if one does. -/
inductive Spelled (style : Style) : Option (List Char) → List Token → List Char → Prop
  | nil {earlier : Option (List Char)} : Spelled style earlier [] []
  | command {earlier : Option (List Char)} {letter : Char} {ts : List Token} {more : List Char} :
      letter ∈ commands → Spelled style none ts more →
        Spelled style earlier (.command letter :: ts) (letter :: more)
  | number {earlier : Option (List Char)} {written : List Char} {x : Binary64} {ts : List Token}
      {more : List Char} :
      Decimal.read? written = some x → IsNumeral (style.write x) →
        Spelled style (some (style.write x)) ts more →
        Spelled style earlier (.number written :: ts)
          (gap earlier (style.write x) ++ (style.write x ++ more))

theorem spelled_write {style : Style} {ts : List Token} (hknown : ∀ t ∈ ts, t.IsKnown)
    (hfinite : ∀ t ∈ ts, t.isFinite) {earlier : Option (List Char)} {out : List Char}
    (h : write style earlier ts = some out) : Spelled style earlier ts out := by
  induction ts generalizing earlier out with
  | nil =>
      cases h
      exact .nil
  | cons t ts ih =>
      obtain ⟨hfirst, hothers⟩ := List.forall_mem_cons.mp hknown
      obtain ⟨hnumber, hfiniteOthers⟩ := List.forall_mem_cons.mp hfinite
      cases t with
      | command letter =>
          obtain ⟨more, hmore, rfl⟩ := write_command h
          exact .command hfirst (ih hothers hfiniteOthers hmore)
      | number written =>
          obtain ⟨x, more, hread, hmore, rfl⟩ := write_number h
          have hnumeral := numeral_write_of_finite style (Token.finite_of_read hnumber hread)
          exact .number hread hnumeral (ih hothers hfiniteOthers hmore)

/-- Commands are letters, but not those of an exponent or of an arc. -/
theorem command_char {c : Char} (h : c ∈ commands) :
    c.isDigit = false ∧ c ≠ 'e' ∧ c ≠ 'E' ∧ c ≠ '.' ∧ c ≠ '-' ∧ c ≠ 'a' ∧ c ≠ 'A' ∧
      isSeparator c = false := by
  revert c
  decide

theorem numeral_char {number : List Char} (h : IsNumeral number) {c : Char} (hc : c ∈ number) :
    c ∉ commands ∧ c ≠ 'a' ∧ c ≠ 'A' ∧ isSeparator c = false := by
  rcases h.char c hc with hdigit | rfl | rfl
  · have hcommand : c ∉ commands := by
      intro hmem
      rw [(command_char hmem).1] at hdigit
      cases hdigit
    simp only [Char.isDigit, Bool.and_eq_true, decide_eq_true_eq] at hdigit
    have hrange : 48 ≤ c.toNat ∧ c.toNat ≤ 57 := hdigit
    have hne {d : Char} (hd : d.toNat < 48 ∨ 57 < d.toNat) : c ≠ d := by
      rintro rfl
      omega
    have hspace : c ≠ ' ' := hne (by decide)
    have hcomma : c ≠ ',' := hne (by decide)
    refine ⟨hcommand, hne (by decide), hne (by decide), ?_⟩
    simp only [isSeparator, Text.isBlank, Bool.or_eq_false_iff, beq_eq_false_iff_ne,
      Bool.and_eq_false_iff, decide_eq_false_iff_not]
    refine ⟨⟨⟨⟨⟨⟨⟨⟨⟨⟨⟨hspace, ?_⟩, ?_⟩, ?_⟩, ?_⟩, ?_⟩, ?_⟩, ?_⟩, ?_⟩, ?_⟩, ?_⟩, hcomma⟩ <;> omega
  · decide
  · decide

theorem mem_gap {earlier : Option (List Char)} {number : List Char} {c : Char}
    (h : c ∈ gap earlier number) : c = ' ' := by
  unfold gap at h
  split at h
  · exact List.mem_singleton.mp h
  · cases h

/-- Behind a number stands nothing that it could run into. -/
theorem Spelled.ends {style : Style} {number more : List Char} {ts : List Token}
    (h : Spelled style (some number) ts more) : Ends number more := by
  intro c hc
  cases h with
  | nil => cases hc
  | @command _ letter _ _ hletter _ =>
      obtain rfl : letter = c := by simpa using hc
      obtain ⟨hdigit, hsmall, hcapital, hpoint, -⟩ := command_char hletter
      exact ⟨hdigit, hsmall, hcapital, fun heq => absurd heq hpoint⟩
  | number _ hnumeral _ =>
      obtain ⟨first, next, hnext⟩ := List.exists_cons_of_ne_nil hnumeral.ne_nil
      rw [hnext] at hc
      by_cases hjoins : joins number (first :: next)
      · have hgap : gap (some number) (first :: next) = [] := by simp [gap, hjoins]
        obtain rfl : first = c := by simpa [hgap] using hc
        have hmark : first = '-' ∨ first = '.' ∧ '.' ∈ number := by simpa [joins] using hjoins
        rcases hmark with rfl | ⟨rfl, hpoint⟩
        · exact ⟨rfl, by decide, by decide, fun heq => by cases heq⟩
        · exact ⟨rfl, by decide, by decide, fun _ => hpoint⟩
      · have hgap : gap (some number) (first :: next) = [' '] := by simp [gap, hjoins]
        obtain rfl : ' ' = c := by simpa [hgap] using hc
        exact ⟨rfl, by decide, by decide, fun heq => by cases heq⟩

/-! ### What is read of it -/

/-- A numeral is one token. -/
theorem token_numeral {number rest : List Char} (h : IsNumeral number) (hends : Ends number rest) :
    token? (number ++ rest) = some (.number number, rest) := by
  obtain ⟨value, hvalue⟩ := take_signed_append h hends
  cases number with
  | nil => exact absurd rfl h.ne_nil
  | cons c number =>
      have hcommand : commands.contains c = false := by
        rw [Bool.eq_false_iff, Ne, List.contains_iff_mem]
        exact (numeral_char h List.mem_cons_self).1
      have hlength : (c :: number ++ rest).length - rest.length = (c :: number).length := by
        rw [List.length_append]
        omega
      rw [List.cons_append, token?, hcommand]
      rw [List.cons_append] at hvalue hlength
      simp only [Bool.false_eq_true, if_false, hvalue, Option.map_some, hlength]
      rw [← List.cons_append, List.take_left]

/-- One token behind separators, and what is scanned after it. -/
theorem scan_token {front cs rest : List Char} {t : Token} {ts : List Token} {budget : Nat}
    (hfront : ∀ c ∈ front, isSeparator c) (hhead : ∀ c ∈ cs.head?, isSeparator c = false)
    (htoken : token? cs = some (t, rest)) (hrest : scan budget rest = some ts) :
    scan (budget + 1) (front ++ cs) = some (t :: ts) := by
  have hdrop : (front ++ cs).dropWhile isSeparator = cs := by
    rw [List.dropWhile_append_of_pos hfront]
    cases cs with
    | nil => rfl
    | cons c cs => exact List.dropWhile_cons_of_neg (by simp [hhead c rfl])
  rw [scan, hdrop]
  split
  · cases htoken
  · simp [htoken, hrest]

theorem scan_command {letter : Char} (hletter : letter ∈ commands) {more : List Char}
    {ts : List Token} {budget : Nat} (h : scan budget more = some ts) :
    scan (budget + 1) (letter :: more) = some (.command letter :: ts) := by
  have htoken : token? (letter :: more) = some (.command letter, more) :=
    if_pos (List.contains_iff_mem.mpr hletter)
  have hnone : ∀ c ∈ ([] : List Char), isSeparator c := fun _ hc => absurd hc List.not_mem_nil
  refine scan_token hnone ?_ htoken h
  intro c hc
  obtain rfl : letter = c := by simpa using hc
  exact (command_char hletter).2.2.2.2.2.2.2

theorem scan_number {number more : List Char} (hnumeral : IsNumeral number)
    (hends : Ends number more) (earlier : Option (List Char)) {ts : List Token} {budget : Nat}
    (h : scan budget more = some ts) :
    scan (budget + 1) (gap earlier number ++ (number ++ more)) = some (.number number :: ts) := by
  refine scan_token ?_ ?_ (token_numeral hnumeral hends) h
  · intro c hc
    rw [mem_gap hc]
    rfl
  · intro c hc
    cases number with
    | nil => exact absurd rfl hnumeral.ne_nil
    | cons first number =>
        obtain rfl : first = c := by simpa using hc
        exact (numeral_char hnumeral List.mem_cons_self).2.2.2

/-- What is written for tokens is scanned as the tokens that it was written for. -/
theorem Spelled.scan {style : Style} {earlier : Option (List Char)} {ts : List Token}
    {out : List Char} (h : Spelled style earlier ts out) {budget : Nat}
    (hbudget : out.length ≤ budget) : ∃ after, PathData.scan budget out = some after ∧
      List.Forall₂ (Token.Rewritten style) ts after := by
  induction h generalizing budget with
  | nil =>
      refine ⟨[], ?_, .nil⟩
      cases budget <;> rfl
  | @command _ letter _ _ hletter _ ih =>
      rw [List.length_cons] at hbudget
      obtain ⟨budget, rfl⟩ := Nat.exists_eq_add_of_lt hbudget
      obtain ⟨after, hscan, hafter⟩ := ih (Nat.le_add_right _ budget)
      exact ⟨.command letter :: after, scan_command hletter hscan, .cons (.command letter) hafter⟩
  | @number earlier _ x _ more hread hnumeral hmore ih =>
      have hpos := List.length_pos_iff.mpr hnumeral.ne_nil
      rw [List.length_append, List.length_append] at hbudget
      obtain ⟨budget, rfl⟩ : ∃ left, budget = left + 1 := ⟨budget - 1, by omega⟩
      have hlength : more.length ≤ budget := by omega
      obtain ⟨after, hscan, hafter⟩ := ih hlength
      exact ⟨.number (style.write x) :: after, scan_number hnumeral hmore.ends earlier hscan,
        .cons (.number hread) hafter⟩

/-- No arc comes into path data that is written. -/
theorem Spelled.no_arc {style : Style} {earlier : Option (List Char)} {ts : List Token}
    {out : List Char} (h : Spelled style earlier ts out) : ∀ c ∈ out, c ≠ 'a' ∧ c ≠ 'A' := by
  induction h with
  | nil => simp
  | command hletter _ ih =>
      obtain ⟨-, -, -, -, -, hsmall, hcapital, -⟩ := command_char hletter
      exact List.forall_mem_cons.mpr ⟨⟨hsmall, hcapital⟩, ih⟩
  | number _ hnumeral _ ih =>
      intro c hc
      rcases List.mem_append.mp hc with hc | hc
      · rw [mem_gap hc]
        decide
      · rcases List.mem_append.mp hc with hc | hc
        · obtain ⟨-, hsmall, hcapital, -⟩ := numeral_char hnumeral hc
          exact ⟨hsmall, hcapital⟩
        · exact ih c hc

/-- Path data with finite numbers keeps its tokens when it is written short: the commands are the
same, in the same places, and every number is the text that was written for it. -/
theorem tokens_minify {style : Style} {data out : List Char}
    (h : minify? style data = some out)
    (hfinite : ∀ ts, tokens? data = some ts → ∀ t ∈ ts, t.isFinite) :
    ∃ before after, tokens? data = some before ∧ tokens? out = some after ∧
      List.Forall₂ (Token.Rewritten style) before after := by
  obtain ⟨before, hbefore, hwrite⟩ := Option.bind_eq_some_iff.mp h
  have hspelled := spelled_write (known_tokens hbefore) (hfinite before hbefore) hwrite
  obtain ⟨after, hscan, hafter⟩ := hspelled.scan (Nat.le_refl out.length)
  have harcs := hspelled.no_arc
  refine ⟨before, after, hbefore, ?_, hafter⟩
  have hsmall : out.contains 'a' = false := by
    rw [Bool.eq_false_iff, Ne, List.contains_iff_mem]
    exact fun hmem => (harcs 'a' hmem).1 rfl
  have hcapital : out.contains 'A' = false := by
    rw [Bool.eq_false_iff, Ne, List.contains_iff_mem]
    exact fun hmem => (harcs 'A' hmem).2 rfl
  rw [tokens?, hsmall, hcapital]
  exact hscan

/-- A comma goes, and so does the space before a minus sign and before a point that follows a
number with a point. -/
theorem tokens_minify_curve :
    let style : Style := ⟨2, true⟩
    let data := "M 10,20 l1.504 -0.25 0.5,.125z".toList
    minify? style data = some "M10 20l1.5-.25.5.12z".toList ∧
      ∃ before after, tokens? data = some before ∧
        tokens? "M10 20l1.5-.25.5.12z".toList = some after ∧
        List.Forall₂ (Token.Rewritten style) before after := by
  intro style data
  have hminify : minify? style data = some "M10 20l1.5-.25.5.12z".toList := by decide +kernel
  refine ⟨hminify, tokens_minify hminify ?_⟩
  have hall : (tokens? data).all (·.all Token.isFinite) := by decide +kernel
  intro ts hts t ht
  rw [hts, Option.all_some, List.all_eq_true] at hall
  exact hall t ht

end SvgPress.PathData
