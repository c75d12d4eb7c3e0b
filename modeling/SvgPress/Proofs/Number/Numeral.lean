import Mathlib.Algebra.Ring.Nat
import Mathlib.Data.List.TakeDrop
import SvgPress.Pass.Numerals
import SvgPress.Proofs.Text.Trim

/-!
The numerals that numbers are written as. A finite number becomes digits, possibly with a sign and a
point, however few decimals are kept and whether or not the zero before the point goes; anything
else becomes a word. A numeral that is followed by something it cannot run into is read back as far
as it was written.
-/

namespace SvgPress

open Decimal Numerals Text

/-- A decimal numeral without sign: digits, or a point with digits behind it. -/
inductive IsUnsigned : List Char → Prop
  | whole {digits : List Char} :
      digits ≠ [] → (∀ c ∈ digits, c.isDigit) → IsUnsigned digits
  | decimal {whole fraction : List Char} :
      (∀ c ∈ whole, c.isDigit) → fraction ≠ [] → (∀ c ∈ fraction, c.isDigit) →
        IsUnsigned (whole ++ '.' :: fraction)

/-- A decimal numeral, with a minus sign or without sign. -/
inductive IsNumeral : List Char → Prop
  | positive {cs : List Char} : IsUnsigned cs → IsNumeral cs
  | negative {cs : List Char} : IsUnsigned cs → IsNumeral ('-' :: cs)

theorem IsUnsigned.signed {cs : List Char} (h : IsUnsigned cs) (negative : Bool) :
    IsNumeral (Decimal.signed negative cs) := by
  cases negative with
  | true => exact .negative h
  | false => exact .positive h

theorem IsUnsigned.char {cs : List Char} (h : IsUnsigned cs) : ∀ c ∈ cs, c.isDigit ∨ c = '.' := by
  intro c hc
  cases h with
  | whole _ hdigits => exact .inl (hdigits c hc)
  | decimal hwhole _ hfraction =>
      rcases List.mem_append.mp hc with hc | hc
      · exact .inl (hwhole c hc)
      · rcases List.mem_cons.mp hc with rfl | hc
        · exact .inr rfl
        · exact .inl (hfraction c hc)

theorem IsUnsigned.ne_nil {cs : List Char} (h : IsUnsigned cs) : cs ≠ [] := by
  cases h with
  | whole hne => exact hne
  | decimal => simp

/-- A numeral holds digits, a point and a minus sign at most. -/
theorem IsNumeral.char {cs : List Char} (h : IsNumeral cs) :
    ∀ c ∈ cs, c.isDigit ∨ c = '.' ∨ c = '-' := by
  intro c hc
  cases h with
  | positive h => exact (h.char c hc).imp_right .inl
  | negative h =>
      rcases List.mem_cons.mp hc with rfl | hc
      · exact .inr (.inr rfl)
      · exact (h.char c hc).imp_right .inl

theorem IsNumeral.ne_nil {cs : List Char} (h : IsNumeral cs) : cs ≠ [] := by
  cases h with
  | positive h => exact h.ne_nil
  | negative => simp

/-! ### Writing -/

theorem digits_ne_nil (n : Nat) : digits n ≠ [] :=
  Nat.toDigits_ne_nil

theorem digits_digit (n : Nat) : ∀ c ∈ digits n, c.isDigit :=
  fun _ hc => Nat.isDigit_of_mem_toDigits (by omega) (by omega) hc

/-- With decimals, there is at least one digit before the point and there are as many behind it as
asked for. All of them together are the digits of the number, with zeros in front if there are too
few. -/
theorem place_text_decimal (n places : Nat) (h : places ≠ 0) :
    ∃ whole fraction, placeText n places = whole ++ '.' :: fraction ∧ whole ≠ [] ∧
      (∀ c ∈ whole, c.isDigit) ∧ (∀ c ∈ fraction, c.isDigit) ∧ fraction.length = places ∧
      whole ++ fraction = List.replicate (places + 1 - (digits n).length) '0' ++ digits n := by
  have hzero : ('0' : Char).isDigit := rfl
  let padded := List.replicate (places + 1 - (digits n).length) '0' ++ digits n
  have hpadded : ∀ c ∈ padded, c.isDigit := by
    intro c hc
    rcases List.mem_append.mp hc with hc | hc
    · rw [(List.mem_replicate.mp hc).2]
      exact hzero
    · exact digits_digit n c hc
  have hlength : places < padded.length := by
    have hpos := List.length_pos_iff.mpr (digits_ne_nil n)
    simp only [padded, List.length_append, List.length_replicate]
    omega
  refine ⟨padded.take (padded.length - places), padded.drop (padded.length - places), ?_, ?_, ?_,
    ?_, ?_, List.take_append_drop _ _⟩
  · rw [placeText, if_neg h]
  · rw [Ne, ← List.length_eq_zero_iff, List.length_take]
    omega
  · exact fun c hc => hpadded c (List.mem_of_mem_take hc)
  · exact fun c hc => hpadded c (List.mem_of_mem_drop hc)
  · rw [List.length_drop]
    omega

theorem place_text_unsigned (n places : Nat) : IsUnsigned (placeText n places) := by
  by_cases hplaces : places = 0
  · rw [hplaces]
    exact .whole (digits_ne_nil n) (digits_digit n)
  · obtain ⟨whole, fraction, htext, -, hwhole, hfraction, hlength, -⟩ :=
      place_text_decimal n places hplaces
    rw [htext]
    refine .decimal hwhole ?_ hfraction
    rintro rfl
    exact hplaces hlength.symm

/-- Digits, with more digits behind a point if there are any. -/
def spell (whole kept : List Char) : List Char :=
  whole ++ (if kept = [] then [] else '.' :: kept)

theorem unsigned_spell {whole kept : List Char} (hne : whole ≠ [] ∨ kept ≠ [])
    (hwhole : ∀ c ∈ whole, c.isDigit) (hkept : ∀ c ∈ kept, c.isDigit) :
    IsUnsigned (spell whole kept) := by
  rw [spell]
  split
  · rename_i hnone
    rw [List.append_nil]
    exact .whole (hne.resolve_right (not_not_intro hnone)) hwhole
  · rename_i hsome
    exact .decimal hwhole hsome hkept

theorem digit_ne_point {c : Char} (h : c.isDigit) : (c == '.') = false := by
  rw [beq_eq_false_iff_ne]
  rintro rfl
  cases h

/-- Of the decimals, those up to the last one that is not zero stay, and the point with them. -/
theorem trim_decimals_point {whole fraction : List Char} (hne : whole ≠ [])
    (hwhole : ∀ c ∈ whole, c.isDigit) (hfraction : ∀ c ∈ fraction, c.isDigit) :
    ∃ kept zeros, fraction = kept ++ zeros ∧ (∀ c ∈ zeros, c = '0') ∧ kept.getLast? ≠ some '0' ∧
      ∀ front, trimDecimals (front ++ (whole ++ '.' :: fraction)) = front ++ spell whole kept := by
  obtain ⟨zeros, hsplit, hzeros, hkept⟩ := drop_back_split (p := (· == '0')) fraction
  refine ⟨dropBack (· == '0') fraction, zeros, hsplit, fun c hc => beq_iff_eq.mp (hzeros c hc),
    fun hlast => Bool.noConfusion (hkept '0' hlast), fun front => ?_⟩
  have hpoint : (front ++ (whole ++ '.' :: fraction)).contains '.' := by simp
  generalize dropBack (· == '0') fraction = kept at hsplit hkept ⊢
  subst hsplit
  have hassoc : front ++ (whole ++ '.' :: (kept ++ zeros)) =
      (front ++ (whole ++ '.' :: kept)) ++ zeros := by simp
  rw [trimDecimals, if_pos hpoint, hassoc, drop_back_append_of_all hzeros, spell]
  rcases List.eq_nil_or_concat kept with rfl | ⟨most, d, rfl⟩
  · -- all decimals were zeros, so the point goes as well
    rcases List.eq_nil_or_concat whole with rfl | ⟨digits, last, rfl⟩
    · exact absurd rfl hne
    · rw [List.concat_eq_append] at hwhole ⊢
      rw [if_pos rfl, List.append_nil, ← List.append_assoc, drop_back_concat_of_not rfl,
        drop_back_append_of_all (by simp), ← List.append_assoc]
      exact drop_back_concat_of_not (p := (· == '.')) (digit_ne_point (hwhole last (by simp)))
  · rw [List.concat_eq_append] at hkept hfraction ⊢
    have hend : front ++ (whole ++ '.' :: (most ++ [d])) =
        (front ++ (whole ++ '.' :: most)) ++ [d] := by
      simp
    rw [if_neg (by simp), hend,
      drop_back_concat_of_not (p := (· == '0')) (hkept d (by simp))]
    exact drop_back_concat_of_not (p := (· == '.')) (digit_ne_point (hfraction d (by simp)))

/-- How a whole number of some decimal place is spelled once its decimals are trimmed: the zeros
that are left out make up for the places that are. -/
structure IsSpelled (n places : Nat) (whole kept : List Char) : Prop where
  ne_nil : whole ≠ []
  whole_digit : ∀ c ∈ whole, c.isDigit
  kept_digit : ∀ c ∈ kept, c.isDigit
  last : kept.getLast? ≠ some '0'
  value : ∃ left, kept.length + left = places ∧ digitsValue (whole ++ kept) * 10 ^ left = n
  zero : n = 0 → whole = ['0']

theorem digits_value_append (cs ds : List Char) :
    digitsValue (cs ++ ds) = digitsValue cs * 10 ^ ds.length + digitsValue ds := by
  have hds : Nat.ofDigitChars 10 ds (digitsValue cs) =
      10 ^ ds.length * digitsValue cs + digitsValue ds :=
    Nat.ofDigitChars_eq_ofDigitChars_zero
  rw [Nat.mul_comm] at hds
  exact (Nat.ofDigitChars_append 0).trans hds

theorem digits_value_digits (n : Nat) : digitsValue (digits n) = n :=
  Nat.ofDigitChars_ten_toDigits

theorem digits_value_zeros {zeros : List Char} (h : ∀ c ∈ zeros, c = '0') :
    digitsValue zeros = 0 := by
  have hvalue : digitsValue (List.replicate zeros.length '0') = 10 ^ zeros.length * 0 :=
    Nat.ofDigitChars_replicate_zero
  rwa [← List.eq_replicate_of_mem h, Nat.mul_zero] at hvalue

/-- What is left once the decimals are trimmed spells the same number. -/
theorem trim_decimals_place_text (n places : Nat) :
    ∃ whole kept, IsSpelled n places whole kept ∧ ∀ negative,
      trimDecimals (signed negative (placeText n places)) = signed negative (spell whole kept) := by
  by_cases hplaces : places = 0
  · subst hplaces
    refine ⟨digits n, [], ⟨digits_ne_nil n, digits_digit n, by simp, by simp,
      ⟨0, rfl, by rw [List.append_nil, digits_value_digits, Nat.pow_zero, Nat.mul_one]⟩, ?_⟩,
      fun negative => ?_⟩
    · rintro rfl
      rfl
    · have hpoint : (signed negative (digits n)).contains '.' = false := by
        rw [Bool.eq_false_iff, Ne, List.contains_iff_mem]
        intro hmem
        have hdigits : '.' ∉ digits n := fun h => by cases digits_digit n '.' h
        cases negative with
        | true => exact hdigits (by simpa [signed] using hmem)
        | false => exact hdigits hmem
      rw [placeText, if_pos rfl, trimDecimals, hpoint, spell, if_pos rfl, List.append_nil]
      rfl
  · obtain ⟨whole, fraction, htext, hne, hwhole, hfraction, hlength, hall⟩ :=
      place_text_decimal n places hplaces
    obtain ⟨kept, zeros, rfl, hzeros, hlast, htrim⟩ :=
      trim_decimals_point hne hwhole hfraction
    rw [List.forall_mem_append] at hfraction
    rw [List.length_append] at hlength
    refine ⟨whole, kept, ⟨hne, hwhole, hfraction.1, hlast, ⟨zeros.length, hlength, ?_⟩, ?_⟩,
      fun negative => ?_⟩
    · have hvalue := congrArg digitsValue hall
      rw [← List.append_assoc, digits_value_append, digits_value_zeros hzeros, Nat.add_zero,
        digits_value_append (List.replicate _ _), digits_value_digits,
        digits_value_zeros fun c hc => (List.mem_replicate.mp hc).2, Nat.zero_mul,
        Nat.zero_add] at hvalue
      exact hvalue
    · rintro rfl
      have hcount := congrArg List.length hall
      have hone : (digits 0).length = 1 := rfl
      rw [List.length_append, List.length_append, List.length_append, List.length_replicate, hone]
        at hcount
      obtain ⟨c, rfl⟩ := List.length_eq_one_iff.mp (show whole.length = 1 by omega)
      have hdigits : digits 0 = List.replicate 1 '0' := rfl
      rw [hdigits, List.replicate_append_replicate] at hall
      have hc : c ∈ List.replicate (places + 1 - (List.replicate 1 '0').length + 1) '0' :=
        hall ▸ List.mem_append_left _ List.mem_cons_self
      rw [(List.mem_replicate.mp hc).2]
    · have hsigned (cs : List Char) : signed negative cs = signed negative [] ++ cs := by
        cases negative <;> rfl
      rw [htext, hsigned, htrim, ← hsigned]

theorem unsigned_strip {rest : List Char} (h : IsUnsigned ('0' :: '.' :: rest)) :
    IsUnsigned ('.' :: rest) := by
  generalize hcs : '0' :: '.' :: rest = cs at h
  cases h with
  | whole _ hdigits =>
      have hpoint : ('.' : Char).isDigit := hdigits '.' (hcs ▸ by simp)
      cases hpoint
  | @decimal whole fraction hwhole hne hfraction =>
      cases whole with
      | nil => cases hcs
      | cons c whole =>
          cases whole with
          | nil =>
              obtain ⟨-, hrest⟩ := List.cons_eq_cons.mp hcs
              rw [hrest]
              exact .decimal (by simp) hne hfraction
          | cons d whole =>
              obtain ⟨-, hrest⟩ := List.cons_eq_cons.mp hcs
              obtain ⟨rfl, -⟩ := List.cons_eq_cons.mp hrest
              cases hwhole '.' (by simp)

theorem IsNumeral.strip_leading_zero {cs : List Char} (h : IsNumeral cs) :
    IsNumeral (stripLeadingZero cs) := by
  unfold stripLeadingZero
  split
  · cases h with
    | positive h => exact .positive (unsigned_strip h)
  · cases h with
    | positive h =>
        rcases h.char '-' List.mem_cons_self with hdigit | hpoint
        · cases hdigit
        · cases hpoint
    | negative h => exact .negative (unsigned_strip h)
  · exact h

/-- A finite number is written as a numeral. -/
theorem numeral_write_of_finite (style : Style) {x : Binary64} (h : x.isFinite) :
    IsNumeral (style.write x) := by
  cases x with
  | infinite | nan => cases h
  | finite negative s e =>
      obtain ⟨whole, kept, hspelled, htrim⟩ := trim_decimals_place_text
        (Binary64.roundHalfEven ((Binary64.magnitude s e).1 *
          Nat.pow 10 (min style.precision maxPrecision)) (Binary64.magnitude s e).2)
        (min style.precision maxPrecision)
      have hbody : IsUnsigned (spell whole kept) :=
        unsigned_spell (.inl hspelled.ne_nil) hspelled.whole_digit hspelled.kept_digit
      have hsign : IsNumeral (if signed negative (spell whole kept) = ['-', '0'] then ['0']
          else signed negative (spell whole kept)) := by
        split
        · exact .positive (.whole (by simp) (by simp))
        · exact hbody.signed negative
      rw [Style.write, fixed, htrim]
      split
      · exact hsign.strip_leading_zero
      · exact hsign

/-! ### Reading on -/

/-- What may stand behind a numeral without becoming part of it. -/
def Ends (cs rest : List Char) : Prop :=
  ∀ c ∈ rest.head?, c.isDigit = false ∧ c ≠ 'e' ∧ c ≠ 'E' ∧ (c = '.' → '.' ∈ cs)

/-- What is of a class is split off up to the first item that is not. -/
theorem span_append {p : Char → Bool} (front rest : List Char) (hfront : ∀ c ∈ front, p c)
    (hrest : ∀ c ∈ rest.head?, p c = false) : (front ++ rest).span p = (front, rest) := by
  have hstop : rest.takeWhile p = [] ∧ rest.dropWhile p = rest := by
    cases rest with
    | nil => exact ⟨rfl, rfl⟩
    | cons c rest => simp [hrest c rfl]
  rw [List.span_eq_takeWhile_dropWhile, List.takeWhile_append_of_pos hfront,
    List.dropWhile_append_of_pos hfront, hstop.1, hstop.2, List.append_nil]

theorem take_digits_append {ds rest : List Char} (h : ∀ d ∈ ds, d.isDigit)
    (hrest : ∀ c ∈ rest.head?, c.isDigit = false) : takeDigits (ds ++ rest) = (ds, rest) :=
  span_append ds rest h hrest

theorem take_exponent_of_ends {cs rest : List Char} (h : Ends cs rest) :
    takeNumeral?.takeExponent? rest = none := by
  cases rest with
  | nil => rfl
  | cons c rest =>
      obtain ⟨-, hsmall, hcapital, -⟩ := h c rfl
      rw [takeNumeral?.takeExponent?, if_neg (by simp [hsmall, hcapital])]

/-- A numeral is taken up to its end. -/
theorem take_numeral_append {body rest : List Char} (h : IsUnsigned body) (hends : Ends body rest) :
    ∃ value, takeNumeral? (body ++ rest) = some (value, rest) := by
  have hstop : ∀ c ∈ rest.head?, c.isDigit = false := fun c hc => (hends c hc).1
  have hexponent := take_exponent_of_ends hends
  cases h with
  | @whole _ hne hdigits =>
      have hpoint (more : List Char) : rest ≠ '.' :: more := by
        rintro rfl
        obtain ⟨-, -, -, hmem⟩ := hends '.' rfl
        cases hdigits '.' (hmem rfl)
      rw [takeNumeral?, take_digits_append hdigits hstop]
      dsimp only
      split
      · exact absurd rfl (hpoint _)
      · simp [hne, hexponent]
  | @decimal whole fraction hwhole hne hfraction =>
      have hsplit : whole ++ '.' :: fraction ++ rest = whole ++ '.' :: (fraction ++ rest) := by simp
      have hfront : takeDigits (whole ++ '.' :: (fraction ++ rest)) =
          (whole, '.' :: (fraction ++ rest)) := by
        refine take_digits_append hwhole fun c hc => ?_
        obtain rfl : '.' = c := by simpa using hc
        rfl
      rw [hsplit, takeNumeral?, hfront]
      simp [take_digits_append hfraction hstop, hne, hexponent]

/-- No sign is taken from an unsigned numeral. -/
theorem take_sign_unsigned {body : List Char} (h : IsUnsigned body) (rest : List Char) :
    takeSign (body ++ rest) = (false, body ++ rest) := by
  cases body with
  | nil => exact absurd rfl h.ne_nil
  | cons c body =>
      have hc := h.char c List.mem_cons_self
      rw [List.cons_append]
      unfold takeSign
      split
      · rename_i heq
        obtain ⟨rfl, -⟩ := List.cons_eq_cons.mp heq
        rcases hc with hdigit | hpoint
        · cases hdigit
        · cases hpoint
      · rename_i heq
        obtain ⟨rfl, -⟩ := List.cons_eq_cons.mp heq
        rcases hc with hdigit | hpoint
        · cases hdigit
        · cases hpoint
      · rfl

/-- A numeral with its sign is taken up to its end. -/
theorem take_signed_append {cs rest : List Char} (h : IsNumeral cs) (hends : Ends cs rest) :
    ∃ value, takeNumeral? (takeSign (cs ++ rest)).2 = some (value, rest) := by
  cases h with
  | positive h =>
      rw [take_sign_unsigned h]
      exact take_numeral_append h hends
  | negative h =>
      refine take_numeral_append h fun c hc => ?_
      obtain ⟨hdigit, hsmall, hcapital, hpoint⟩ := hends c hc
      exact ⟨hdigit, hsmall, hcapital, fun heq => by simpa using hpoint heq⟩

end SvgPress
