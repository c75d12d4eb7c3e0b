import SvgPress.Proofs.Number.Nearest

/-!
Numbers that were written and are read again. Two roundings stand one behind the other, to a decimal
place and to the nearest number of the format. The number that was written is itself a candidate for
the second, so the one that is read is no farther from the decimal, and the first rounding comes
back to the same decimal, also where it was a tie. The text depends on the decimal and on the sign
only.
-/

namespace SvgPress

open Decimal Numerals Text

/-! ### Exact values -/

/-- A magnitude with a sign. -/
def withSign (negative : Bool) (r : ℚ) : ℚ :=
  if negative then -r else r

/-- What a finite number stands for. -/
def Binary64.value : Binary64 → ℚ
  | .finite negative significand exponent => withSign negative (size significand exponent)
  | _ => 0

/-- What a numeral stands for before it is rounded to the format. -/
def Decimal.value (cs : List Char) : ℚ :=
  match takeNumeral? (takeSign cs).2 with
  | some ((n, e), _) => withSign (takeSign cs).1 (n * 10 ^ e)
  | none => 0

theorem with_sign_sub (negative : Bool) (r t : ℚ) :
    |withSign negative r - withSign negative t| = |r - t| := by
  cases negative with
  | true => rw [withSign, withSign, if_pos rfl, if_pos rfl, neg_sub_neg, abs_sub_comm]
  | false => rfl

/-! ### The text of a decimal -/

section Texts

variable {negative : Bool} {n places : Nat} {whole kept cs : List Char}

/-- How many units of the last decimal place a number has, rounded. -/
def Numerals.Style.count (style : Style) (significand : Nat) (exponent : Int) : Nat :=
  Binary64.roundHalfEven ((Binary64.magnitude significand exponent).1 *
    Nat.pow 10 (min style.precision maxPrecision)) (Binary64.magnitude significand exponent).2

/-- The text for so many units of the last decimal place. -/
def Numerals.Style.text (style : Style) (negative : Bool) (n : Nat) : List Char :=
  let cs := trimDecimals (signed negative (placeText n (min style.precision maxPrecision)))
  let cs := if cs = ['-', '0'] then ['0'] else cs
  if style.stripZero then stripLeadingZero cs else cs

theorem write_finite (style : Style) (negative : Bool) (significand : Nat) (exponent : Int) :
    style.write (.finite negative significand exponent) =
      style.text negative (style.count significand exponent) := rfl

/-- Decimals that are kept are not all zeros. -/
theorem IsSpelled.ne_zero (h : IsSpelled n places whole kept) (hkept : kept ≠ []) : n ≠ 0 := by
  obtain ⟨left, -, hvalue⟩ := h.value
  rcases List.eq_nil_or_concat kept with rfl | ⟨most, d, rfl⟩
  · exact absurd rfl hkept
  · rw [List.concat_eq_append] at h hvalue
    rintro rfl
    rw [← List.append_assoc, digits_value_append] at hvalue
    have hsum := (Nat.mul_eq_zero.mp hvalue).resolve_right (Nat.pow_pos (by omega)).ne'
    have hone : digitsValue [d] = d.toNat - '0'.toNat := by simp [digitsValue]
    have hdigit := (Char.isDigit_iff_toNat.mp (h.kept_digit d (by simp))).1
    have hd : d = '0' := Char.toNat_inj.mp (by omega)
    exact h.last (by simp [hd])

/-- A decimal is zero just if it is spelled with the one digit. -/
theorem IsSpelled.eq_zero_iff (h : IsSpelled n places whole kept) :
    spell whole kept = ['0'] ↔ n = 0 := by
  constructor
  · intro hspell
    have hnone : kept = [] := by
      by_contra hsome
      have hpoint : '.' ∈ spell whole kept := by simp [spell, hsome]
      rw [hspell] at hpoint
      exact absurd hpoint (by decide)
    obtain ⟨left, -, hvalue⟩ := h.value
    rw [spell, if_pos hnone, List.append_nil] at hspell
    rw [hspell, hnone] at hvalue
    exact hvalue.symm.trans (Nat.zero_mul _)
  · intro hzero
    have hnone : kept = [] := by
      by_contra hsome
      exact h.ne_zero hsome hzero
    rw [spell, if_pos hnone, List.append_nil, h.zero hzero]

/-- A text of digits begins with a zero and a point just if that zero is all that stands before the
point. -/
theorem zero_point_iff (hwhole : ∀ c ∈ whole, c.isDigit) :
    ['0', '.'] <+: spell whole kept ↔ whole = ['0'] ∧ kept ≠ [] := by
  constructor
  · intro h
    rcases whole with _ | ⟨c, _ | ⟨d, whole⟩⟩
    · rw [spell, List.nil_append] at h
      split at h
      · simp at h
      · simp [List.cons_prefix_cons] at h
    · rw [spell, List.singleton_append, List.cons_prefix_cons] at h
      obtain ⟨rfl, h⟩ := h
      refine ⟨rfl, ?_⟩
      rintro rfl
      simp at h
    · rw [spell, List.cons_append, List.cons_append, List.cons_prefix_cons,
        List.cons_prefix_cons] at h
      obtain ⟨-, rfl, -⟩ := h
      exact absurd (hwhole '.' (by simp)) (by decide)
  · rintro ⟨rfl, hkept⟩
    exact ⟨kept, by simp [spell, hkept]⟩

theorem head_spell (hne : whole ≠ [] ∨ kept ≠ []) (hwhole : ∀ c ∈ whole, c.isDigit)
    (hkept : ∀ c ∈ kept, c.isDigit) : (spell whole kept).head? ≠ some '-' := by
  intro h
  have hunsigned := unsigned_spell hne hwhole hkept
  rcases hunsigned.char '-' (List.mem_of_mem_head? h) with hdigit | hpoint
  · cases hdigit
  · cases hpoint

theorem strip_eq_self (h : ¬ ['0', '.'] <+: cs) (hsigned : ¬ ['-', '0', '.'] <+: cs) :
    stripLeadingZero cs = cs := by
  unfold stripLeadingZero
  split
  · exact absurd (List.prefix_append ['0', '.'] _) h
  · exact absurd (List.prefix_append ['-', '0', '.'] _) hsigned
  · rfl

/-- What stands before the point in a style. -/
def Numerals.Style.front (style : Style) (whole kept : List Char) : List Char :=
  if style.stripZero ∧ whole = ['0'] ∧ kept ≠ [] then [] else whole

theorem signed_zero_point_iff (hne : whole ≠ [] ∨ kept ≠ []) (hwhole : ∀ c ∈ whole, c.isDigit)
    (hkept : ∀ c ∈ kept, c.isDigit) :
    (['0', '.'] <+: signed negative (spell whole kept) ∨
      ['-', '0', '.'] <+: signed negative (spell whole kept)) ↔ whole = ['0'] ∧ kept ≠ [] := by
  have hhead := head_spell hne hwhole hkept
  have hpoint : ['0', '.'] <+: spell whole kept ↔ whole = ['0'] ∧ kept ≠ [] := zero_point_iff hwhole
  rw [← hpoint]
  cases negative with
  | true => simp [signed, List.cons_prefix_cons]
  | false =>
      refine or_iff_left fun hminus => hhead ?_
      obtain ⟨rest, hrest⟩ := hminus
      rw [show spell whole kept = signed false (spell whole kept) from rfl, ← hrest]
      rfl

theorem strip_signed_spell (hne : whole ≠ []) (hwhole : ∀ c ∈ whole, c.isDigit)
    (hkept : ∀ c ∈ kept, c.isDigit) :
    stripLeadingZero (signed negative (spell whole kept)) =
      signed negative (spell (if whole = ['0'] ∧ kept ≠ [] then [] else whole) kept) := by
  split
  · rename_i h
    obtain ⟨rfl, hsome⟩ := h
    cases negative <;> simp [signed, spell, hsome, stripLeadingZero]
  · rename_i h
    have hnone : ¬ (['0', '.'] <+: signed negative (spell whole kept) ∨
        ['-', '0', '.'] <+: signed negative (spell whole kept)) :=
      (signed_zero_point_iff (.inl hne) hwhole hkept).not.mpr h
    rw [not_or] at hnone
    exact strip_eq_self hnone.1 hnone.2

/-- The text for a decimal: its digits in the style, with a sign unless it is zero. -/
theorem text_spelled (style : Style) (n : Nat) : ∃ whole kept,
    IsSpelled n (min style.precision maxPrecision) whole kept ∧ ∀ negative,
      style.text negative n =
        signed (negative && n != 0) (spell (style.front whole kept) kept) := by
  obtain ⟨whole, kept, h, htrim⟩ := trim_decimals_place_text n (min style.precision maxPrecision)
  refine ⟨whole, kept, h, fun negative => ?_⟩
  have hhead := head_spell (.inl h.ne_nil) h.whole_digit h.kept_digit
  have hsign : (if signed negative (spell whole kept) = ['-', '0'] then ['0']
      else signed negative (spell whole kept)) =
        signed (negative && n != 0) (spell whole kept) := by
    by_cases hzero : n = 0
    · have hspell := h.eq_zero_iff.mpr hzero
      cases negative <;> simp [signed, hspell, hzero]
    · have hspell := h.eq_zero_iff.not.mpr hzero
      cases negative with
      | true => simp [signed, hspell, hzero]
      | false =>
          rw [if_neg, Bool.false_and]
          intro hminus
          rw [signed, if_neg Bool.false_ne_true] at hminus
          rw [hminus] at hhead
          exact hhead rfl
  rw [Style.text, htrim, hsign, Style.front]
  cases style.stripZero with
  | true => simp only [if_true, true_and, strip_signed_spell h.ne_nil h.whole_digit h.kept_digit]
  | false => simp

theorem front_cases (style : Style) (whole kept : List Char) :
    (style.stripZero ∧ whole = ['0'] ∧ kept ≠ []) ∧ style.front whole kept = [] ∨
      ¬ (style.stripZero ∧ whole = ['0'] ∧ kept ≠ []) ∧ style.front whole kept = whole := by
  rw [Style.front]
  split
  · rename_i h
    exact .inl ⟨h, rfl⟩
  · rename_i h
    exact .inr ⟨h, rfl⟩

/-- Before the point or behind it there is a digit. -/
theorem IsSpelled.front_ne_nil (h : IsSpelled n places whole kept) (style : Style) :
    style.front whole kept ≠ [] ∨ kept ≠ [] := by
  rcases front_cases style whole kept with ⟨⟨-, -, hkept⟩, -⟩ | ⟨-, hfront⟩
  · exact .inr hkept
  · exact .inl (by rw [hfront]; exact h.ne_nil)

theorem IsSpelled.front_digit (h : IsSpelled n places whole kept) (style : Style) :
    ∀ c ∈ style.front whole kept, c.isDigit := by
  rcases front_cases style whole kept with ⟨-, hfront⟩ | ⟨-, hfront⟩ <;> rw [hfront]
  · exact fun c hc => absurd hc List.not_mem_nil
  · exact h.whole_digit

theorem IsSpelled.front_value (h : IsSpelled n places whole kept) (style : Style) :
    ∃ left, kept.length + left = places ∧
      digitsValue (style.front whole kept ++ kept) * 10 ^ left = n := by
  obtain ⟨left, hplaces, hvalue⟩ := h.value
  refine ⟨left, hplaces, ?_⟩
  rcases front_cases style whole kept with ⟨⟨-, rfl, -⟩, hfront⟩ | ⟨-, hfront⟩ <;> rw [hfront]
  · exact hvalue
  · exact hvalue

/-! ### The form of a text -/

/-- Whether a text is a numeral, that is digits and a point at most with a minus sign at most, that
ends in no zero behind its point and is no negative zero; where the zero before a point goes, it has
gone. -/
structure IsShortNumeral (stripZero : Bool) (cs : List Char) : Prop where
  numeral : IsNumeral cs
  last : '.' ∈ cs → cs.getLast? ≠ some '0'
  sign : cs ≠ ['-', '0']
  stripped : stripZero → ¬ ['0', '.'] <+: cs ∧ ¬ ['-', '0', '.'] <+: cs

theorem last_signed_spell (hwhole : ∀ c ∈ whole, c.isDigit) (hlast : kept.getLast? ≠ some '0')
    (hpoint : '.' ∈ signed negative (spell whole kept)) :
    (signed negative (spell whole kept)).getLast? ≠ some '0' := by
  have hkept : kept ≠ [] := by
    rintro rfl
    rw [spell, if_pos rfl, List.append_nil] at hpoint
    have hmem : '.' ∈ whole := by
      cases negative with
      | true => simpa [signed] using hpoint
      | false => exact hpoint
    exact absurd (hwhole '.' hmem) (by decide)
  have hsplit : signed negative (spell whole kept) = (signed negative whole ++ ['.']) ++ kept := by
    rw [spell, if_neg hkept]
    cases negative <;> simp [signed]
  rw [hsplit, List.getLast?_append_of_ne_nil _ hkept]
  exact hlast

/-- Only what is not zero has a sign. -/
theorem IsSpelled.ne_negative_zero (h : IsSpelled n places whole kept) (style : Style) :
    signed (negative && n != 0) (spell (style.front whole kept) kept) ≠ ['-', '0'] := by
  intro hminus
  have hhead := head_spell (h.front_ne_nil style) (h.front_digit style) h.kept_digit
  cases hnegative : negative && n != 0 with
  | false =>
      rw [hnegative, signed, if_neg Bool.false_ne_true] at hminus
      rw [hminus] at hhead
      exact hhead rfl
  | true =>
      rw [hnegative, signed, if_pos rfl, List.cons_eq_cons] at hminus
      rcases front_cases style whole kept with ⟨⟨-, -, hkept⟩, hnone⟩ | ⟨-, hsame⟩
      · rw [hnone, spell, if_neg hkept] at hminus
        exact absurd hminus.2 (by simp)
      · rw [hsame, h.eq_zero_iff] at hminus
        simp [hminus.2] at hnegative

theorem short_numeral_text (style : Style) (negative : Bool) (n : Nat) :
    IsShortNumeral style.stripZero (style.text negative n) := by
  obtain ⟨whole, kept, h, htext⟩ := text_spelled style n
  have hne := h.front_ne_nil style
  have hfront := h.front_digit style
  have hunsigned : IsUnsigned (spell (style.front whole kept) kept) :=
    unsigned_spell hne hfront h.kept_digit
  rw [htext]
  refine ⟨hunsigned.signed _, last_signed_spell hfront h.last, h.ne_negative_zero style,
    fun hstrip => ?_⟩
  rw [← not_or, signed_zero_point_iff hne hfront h.kept_digit]
  rcases front_cases style whole kept with ⟨-, hnone⟩ | ⟨hnot, hsame⟩
  · rw [hnone]
    simp
  · rw [hsame]
    exact fun hzero => hnot ⟨hstrip, hzero⟩

/-! ### Reading -/

theorem take_numeral_spell (hne : whole ≠ [] ∨ kept ≠ []) (hwhole : ∀ c ∈ whole, c.isDigit)
    (hkept : ∀ c ∈ kept, c.isDigit) : takeNumeral? (spell whole kept) =
      some ((digitsValue (whole ++ kept), -(kept.length : Int)), []) := by
  have hexponent : takeNumeral?.takeExponent? [] = none := rfl
  by_cases hnone : kept = []
  · subst hnone
    have htake : takeDigits (whole ++ []) = (whole, []) := take_digits_append hwhole (by simp)
    have hwholeNe : whole ≠ [] := hne.resolve_right (not_not_intro rfl)
    rw [spell, if_pos rfl, takeNumeral?, htake]
    simp [hwholeNe, hexponent]
  · have hfront : takeDigits (whole ++ '.' :: kept) = (whole, '.' :: kept) := by
      refine take_digits_append hwhole fun c hc => ?_
      obtain rfl : '.' = c := by simpa using hc
      rfl
    have hback : takeDigits kept = (kept, []) := by
      have htake : takeDigits (kept ++ []) = (kept, []) := take_digits_append hkept (by simp)
      rwa [List.append_nil] at htake
    rw [spell, if_neg hnone, takeNumeral?, hfront]
    simp [hback, hnone, hexponent]

theorem take_sign_signed_spell (hne : whole ≠ [] ∨ kept ≠ []) (hwhole : ∀ c ∈ whole, c.isDigit)
    (hkept : ∀ c ∈ kept, c.isDigit) :
    takeSign (signed negative (spell whole kept)) = (negative, spell whole kept) := by
  cases negative with
  | true => rfl
  | false =>
      have htake := take_sign_unsigned (unsigned_spell hne hwhole hkept) []
      rwa [List.append_nil] at htake

theorem value_signed_spell (hne : whole ≠ [] ∨ kept ≠ []) (hwhole : ∀ c ∈ whole, c.isDigit)
    (hkept : ∀ c ∈ kept, c.isDigit) : Decimal.value (signed negative (spell whole kept)) =
      withSign negative ((digitsValue (whole ++ kept) : ℚ) / 10 ^ kept.length) := by
  rw [Decimal.value, take_sign_signed_spell hne hwhole hkept]
  dsimp only
  rw [take_numeral_spell hne hwhole hkept]
  dsimp only
  rw [zpow_neg, zpow_natCast, div_eq_mul_inv]

theorem read_signed_spell (hne : whole ≠ [] ∨ kept ≠ []) (hwhole : ∀ c ∈ whole, c.isDigit)
    (hkept : ∀ c ∈ kept, c.isDigit) : read? (signed negative (spell whole kept)) =
      some (ofScaled negative (digitsValue (whole ++ kept)) (-(kept.length : Int))) := by
  rw [read?, take_sign_signed_spell hne hwhole hkept]
  dsimp only
  rw [take_numeral_spell hne hwhole hkept]

theorem of_scaled_fits (negative : Bool) (n : Nat) (e : Int) : (ofScaled negative n e).Fits := by
  have hzero : (Binary64.zero negative).Fits := ⟨by omega, by omega, by omega⟩
  rw [ofScaled]
  split_ifs
  · exact hzero
  · trivial
  · exact hzero
  · exact Binary64.of_ratio_fits Nat.one_pos negative
  · exact Binary64.of_ratio_fits (Nat.pow_pos (by omega)) negative

/-- Every number that is read is one of the format. -/
theorem read_fits {x : Binary64} (h : read? cs = some x) : x.Fits := by
  rw [read?] at h
  split at h
  dsimp only at h
  split at h
  · rw [← Option.some.inj h]
    exact of_scaled_fits _ _ _
  · cases h
  · split_ifs at h <;> rw [← Option.some.inj h] <;> trivial

/-- A numeral within bounds is rounded as the ratio that it stands for. -/
theorem of_scaled_eq_of_ratio {m k : Nat} (hplaces : k ≤ 400)
    (hlength : (digits m).length ≤ 400 + k) :
    ofScaled negative m (-(k : Int)) = Binary64.ofRatio negative m (10 ^ k) := by
  by_cases hm : m = 0
  · rw [ofScaled, if_pos hm, Binary64.ofRatio, if_pos hm]
  · have hpos := List.length_pos_iff.mpr (digits_ne_nil m)
    rw [ofScaled, if_neg hm, digitCount, if_neg hm, if_neg (by omega), if_neg (by omega)]
    split
    · rename_i hnone
      obtain rfl : k = 0 := by omega
      simp
    · simp

end Texts

/-! ### There and back -/

section Back

variable {significand n : Nat} {exponent : Int}

open Binary64 (Holds size IsRounded magnitude magnitude_pos magnitude_eq_size)

/-- The count of units is the magnitude in units, rounded. -/
theorem count_eq_iff (style : Style) : style.count significand exponent = n ↔
    IsRounded (size significand exponent * 10 ^ min style.precision maxPrecision) n := by
  have hscaled :
      (((magnitude significand exponent).1 *
          Nat.pow 10 (min style.precision maxPrecision) : Nat) : ℚ) /
        (magnitude significand exponent).2 =
      size significand exponent * 10 ^ min style.precision maxPrecision := by
    rw [← magnitude_eq_size, Nat.cast_mul, mul_div_right_comm]
    congr 1
    exact Nat.cast_pow 10 _
  rw [Style.count, Binary64.round_half_even_eq_iff (magnitude_pos _ _), hscaled]

/-- A number of the format is no larger than one that is a whole number: it is one itself, or it
lies below the first power of two from which on there are no others. -/
theorem whole_above (h : Holds significand exponent) : ∃ s e m, Holds s e ∧ size s e = (m : Nat) ∧
    size significand exponent ≤ (m : Nat) := by
  rcases le_or_gt 0 exponent with hwhole | hfraction
  · have hsize : size significand exponent = (significand * 2 ^ exponent.toNat : Nat) := by
      rw [Binary64.size_eq_multiple hwhole, zpow_zero, mul_one, sub_zero]
    exact ⟨significand, exponent, _, h, hsize, hsize.le⟩
  · refine ⟨2 ^ 52, 1, 2 ^ 53, ⟨by omega, by omega, by omega⟩, ?_, ?_⟩
    · rw [size, zpow_one]
      norm_num
    · refine (Binary64.size_lt h.below).le.trans ?_
      rw [Nat.cast_pow, Nat.cast_ofNat, ← zpow_natCast]
      exact zpow_le_zpow_right₀ one_le_two (by omega)

/-- A decimal is no larger than some number of the format. -/
theorem decimal_le (style : Style) (h : Holds significand exponent) : ∃ s e, Holds s e ∧
    (style.count significand exponent : ℚ) / 10 ^ min style.precision maxPrecision ≤ size s e := by
  obtain ⟨s, e, m, hholds, hwhole, hle⟩ := whole_above h
  have hpow : (0 : ℚ) < 10 ^ min style.precision maxPrecision := by positivity
  have hrounded := (count_eq_iff style (n := style.count significand exponent)).mp rfl
  refine ⟨s, e, hholds, ?_⟩
  rw [hwhole, div_le_iff₀ hpow]
  have hcount := hrounded.le (m := m * 10 ^ min style.precision maxPrecision) (by
    push_cast
    exact mul_le_mul_of_nonneg_right hle hpow.le)
  exact_mod_cast hcount

/-- A decimal that is no larger than a number of the format has few digits before its point. -/
theorem digits_length_le {m k : Nat} (h : Holds significand exponent)
    (hle : (m : ℚ) / 10 ^ k ≤ size significand exponent) : (digits m).length ≤ 400 + k := by
  have hpow : (0 : ℚ) < 10 ^ k := by positivity
  have hpowers : (2 : ℚ) ^ (1024 : Int) ≤ 10 ^ (400 : Nat) := by
    calc
      (2 : ℚ) ^ (1024 : Int) ≤ 2 ^ (3 * 400 : Nat) := by
        rw [← zpow_natCast]
        exact zpow_le_zpow_right₀ one_le_two (by norm_num)
      _ = (2 ^ 3) ^ (400 : Nat) := pow_mul _ _ _
      _ ≤ 10 ^ (400 : Nat) := pow_le_pow_left₀ (by norm_num) (by norm_num) _
  have hless : (m : ℚ) < 10 ^ (400 + k) := by
    rw [pow_add, ← div_lt_iff₀ hpow]
    exact (hle.trans_lt (Binary64.size_lt_limit h)).trans_le hpowers
  rw [digits, Nat.length_toDigits_le_iff (by omega) (by omega)]
  exact_mod_cast hless

/-- Decimals that are left out at the end do not change the value. -/
theorem decimal_eq {m k left places : Nat} (hplaces : k + left = places)
    (hvalue : m * 10 ^ left = n) :
    (m : ℚ) / 10 ^ k = n / 10 ^ places := by
  rw [← hvalue, ← hplaces, pow_add]
  push_cast
  rw [mul_div_mul_right _ _ (by positivity)]

/-- What is written is half a unit of the last decimal place away at most. -/
theorem text_near (style : Style) (negative : Bool) (significand : Nat) (exponent : Int) :
    |Decimal.value (style.text negative (style.count significand exponent)) -
      withSign negative (size significand exponent)| ≤
        1 / 2 / 10 ^ min style.precision maxPrecision := by
  have hpow : (0 : ℚ) < 10 ^ min style.precision maxPrecision := by positivity
  have hnear := ((count_eq_iff style (n := style.count significand exponent)).mp rfl).near
  obtain ⟨whole, kept, h, htext⟩ := text_spelled style (style.count significand exponent)
  obtain ⟨left, hplaces, hvalue⟩ := h.front_value style
  generalize style.count significand exponent = n at *
  -- without its sign zero has the same value
  have hsign : withSign (negative && n != 0) ((n : ℚ) / 10 ^ min style.precision maxPrecision) =
      withSign negative (n / 10 ^ min style.precision maxPrecision) := by
    by_cases hzero : n = 0
    · rw [hzero, Nat.cast_zero, zero_div]
      cases negative <;> simp [withSign]
    · rw [bne_iff_ne.mpr hzero, Bool.and_true]
  rw [htext, value_signed_spell (h.front_ne_nil style) (h.front_digit style) h.kept_digit,
    decimal_eq hplaces hvalue, hsign, with_sign_sub, le_div_iff₀ hpow,
      ← Binary64.distance_scaled hpow,
    abs_sub_comm]
  exact hnear

/-- The number that is read for a decimal is rounded to the same decimal. -/
theorem count_read (style : Style) (negative : Bool) (h : Holds significand exponent)
    {m k left : Nat}
    (hplaces : k + left = min style.precision maxPrecision)
    (hvalue : m * 10 ^ left = style.count significand exponent) :
    ∃ s e, ofScaled negative m (-(k : Int)) = .finite negative s e ∧
      style.count s e = style.count significand exponent := by
  have hpow : (0 : ℚ) < 10 ^ min style.precision maxPrecision := by positivity
  have hdecimal : (m : ℚ) / (10 ^ k : Nat) =
      style.count significand exponent / 10 ^ min style.precision maxPrecision := by
    rw [Nat.cast_pow, Nat.cast_ofNat, decimal_eq hplaces hvalue]
  obtain ⟨s', e', hholds, hle⟩ := decimal_le style h
  rw [← hdecimal] at hle
  have hfew : k ≤ 400 := by
    have hmost : min style.precision maxPrecision ≤ 15 := min_le_right _ _
    omega
  rw [of_scaled_eq_of_ratio hfew (digits_length_le hholds (by exact_mod_cast hle))]
  obtain ⟨s, e, hratio, hnearest⟩ :=
    Binary64.of_ratio_nearest (Nat.pow_pos (by omega)) hholds hle negative
  refine ⟨s, e, hratio, (count_eq_iff style).mpr ?_⟩
  -- the number that was written is no closer to the decimal than the one that is read
  have hcloser := hnearest _ _ h
  refine ((count_eq_iff style).mp rfl).of_closer ?_
  rw [abs_sub_comm, Binary64.distance_scaled hpow, abs_sub_comm (size _ _ * _),
    Binary64.distance_scaled hpow, ← hdecimal]
  exact mul_le_mul_of_nonneg_right hcloser hpow.le

/-- What is written for a finite number is a short numeral, half a unit of the last decimal place
away at most. The number that is read for it may be another one, but the same is written for
both. -/
theorem written_number_stable (style : Style) {x : Binary64} (hfinite : x.isFinite)
    (hfits : x.Fits) : IsShortNumeral style.stripZero (style.write x) ∧
      |Decimal.value (style.write x) - x.value| ≤ 1 / 2 / 10 ^ min style.precision maxPrecision ∧
      ∃ y, read? (style.write x) = some y ∧ y.isFinite ∧ y.Fits ∧
        style.write y = style.write x := by
  cases x with
  | infinite | nan => cases hfinite
  | finite negative significand exponent =>
    refine ⟨short_numeral_text style negative _, text_near style negative _ _, ?_⟩
    rw [write_finite]
    obtain ⟨whole, kept, h, htext⟩ := text_spelled style (style.count significand exponent)
    obtain ⟨left, hplaces, hvalue⟩ := h.front_value style
    obtain ⟨s, e, hscaled, hcount⟩ :=
      count_read style (negative && style.count significand exponent != 0) hfits hplaces hvalue
    have hread : read? (style.text negative (style.count significand exponent)) =
        some (.finite (negative && style.count significand exponent != 0) s e) := by
      rw [htext,
        read_signed_spell (h.front_ne_nil style) (h.front_digit style) h.kept_digit, hscaled]
    refine ⟨_, hread, rfl, read_fits hread, ?_⟩
    -- a sign that goes with the last unit does not come back
    rw [write_finite, hcount, htext, htext, Bool.and_assoc, Bool.and_self]

theorem written_number_stable_quarter : Holds (2 ^ 52) (-54) ∧
    (Style.mk 1 true).write (.finite true (2 ^ 52) (-54)) = ['-', '.', '2'] ∧
    IsShortNumeral true ['-', '.', '2'] ∧
    |Decimal.value ['-', '.', '2'] - (Binary64.finite true (2 ^ 52) (-54)).value| ≤ 1 / 2 / 10 ^ 1 ∧
      ∃ y, read? ['-', '.', '2'] = some y ∧ y.isFinite ∧ y.Fits ∧
      (Style.mk 1 true).write y = ['-', '.', '2'] := by
  have hholds : Holds (2 ^ 52) (-54) := ⟨by decide, by decide, by decide⟩
  have hwrite : (Style.mk 1 true).write (.finite true (2 ^ 52) (-54)) = ['-', '.', '2'] := by
    decide +kernel
  have hstable :=
    written_number_stable (Style.mk 1 true) (x := .finite true (2 ^ 52) (-54)) rfl hholds
  rw [hwrite] at hstable
  exact ⟨hholds, hwrite, hstable⟩

end Back

end SvgPress
