import Mathlib.Tactic.Positivity
import Mathlib.Tactic.Ring
import SvgPress.Proofs.Number.Numeral

/-!
Whole numbers among the numbers of the binary64 format. Below `2 ^ 53` each has a form of its own,
so nothing is lost in going there and back. Larger ones may be rounded, but never below the power of
two that they reach, so clamping to a byte gives the same as clamping the whole number.
-/

namespace SvgPress

namespace Binary64

variable {n : Nat}

theorem floor_log2_whole (hn : n ≠ 0) : floorLog2 n 1 = n.log2 := by
  have hlog : Nat.log2 1 = 0 := by decide
  have hle : 2 ^ n.log2 ≤ n := Nat.log2_self_le hn
  simp [floorLog2, scaleDown, hlog, hle]

/-- The number nearest to a fraction, once the fraction has been brought to an exponent. A
significand that rounding filled up moves on to the next exponent. -/
theorem of_ratio_scaled {num den top bottom : Nat} {e : Int} (hnum : num ≠ 0)
    (he : max (-1074) (floorLog2 num den - 52) = e) (hscale : scaleDown num den e = (top, bottom))
    (negative : Bool) : ofRatio negative num den =
      if roundHalfEven top bottom = 2 ^ 53 then
        if 971 < e + 1 then .infinite negative else .finite negative (2 ^ 52) (e + 1)
      else if 971 < e then .infinite negative
      else .finite negative (roundHalfEven top bottom) e := by
  rw [ofRatio, if_neg hnum]
  dsimp only
  rw [he, hscale]
  dsimp only
  by_cases hfull : roundHalfEven top bottom = Nat.pow 2 53
  · rw [if_pos hfull]
    exact (if_pos hfull).symm
  · rw [if_neg hfull]
    exact (if_neg hfull).symm

/-- A whole number below `2 ^ 53` is shifted until its significand is full. -/
theorem of_ratio_whole (hn : n ≠ 0) (h : n < 2 ^ 53) (negative : Bool) :
    ofRatio negative n 1 =
      .finite negative (n * 2 ^ (52 - n.log2)) (-(52 - n.log2 : Nat)) := by
  have hlog : n.log2 ≤ 52 := by
    have hlt := (Nat.log2_lt hn).mpr h
    omega
  have hexponent : max (-1074) ((n.log2 : Int) - 52) = -(52 - n.log2 : Nat) := by omega
  have hscale : scaleDown n 1 (-(52 - n.log2 : Nat)) = (n * 2 ^ (52 - n.log2), 1) := by
    rw [scaleDown]
    split
    · rename_i hpositive
      have hfull : 52 - n.log2 = 0 := by omega
      simp [hfull]
    · simp
  have hround (m : Nat) : roundHalfEven m 1 = m := by simp [roundHalfEven, Nat.mod_one]
  have hbound : n * 2 ^ (52 - n.log2) < 2 ^ 53 := by
    calc
      n * 2 ^ (52 - n.log2) < 2 ^ (n.log2 + 1) * 2 ^ (52 - n.log2) :=
        Nat.mul_lt_mul_of_pos_right Nat.lt_log2_self (by positivity)
      _ = 2 ^ 53 := by rw [← Nat.pow_add]; congr 1; omega
  rw [of_ratio_scaled hn (by rw [floor_log2_whole hn, hexponent]) hscale, hround,
    if_neg (Nat.ne_of_lt hbound), if_neg (by omega)]

/-- The magnitude of a number with no digit before the point in its exponent. -/
theorem magnitude_neg (significand k : Nat) :
    magnitude significand (-(k : Int)) = (significand, 2 ^ k) := by
  rw [magnitude]
  split
  · rename_i hpositive
    obtain rfl : k = 0 := by omega
    simp
  · simp

theorem magnitude_zero : magnitude 0 (-1074) = (0, 2 ^ 1074) :=
  magnitude_neg 0 1074

/-- A whole number below `2 ^ 53` is found again. -/
theorem to_int_of_int (h : n < 2 ^ 53) : (ofInt n).toInt? = some (n : Int) := by
  have hsign : decide ((n : Int) < 0) = false := by simp
  by_cases hn : n = 0
  · rw [ofInt, hsign, Int.natAbs_natCast, ofRatio, if_pos hn, zero, toInt?, magnitude_zero, hn]
    simp only [Nat.zero_mod, Nat.zero_div, if_true]
    rfl
  · have hpow : 0 < 2 ^ (52 - n.log2) := by positivity
    rw [ofInt, hsign, Int.natAbs_natCast, of_ratio_whole hn h, toInt?, magnitude_neg]
    simp only [Nat.mul_mod_left, if_true, Nat.mul_div_cancel n hpow, Bool.false_eq_true, if_false]

theorem round_half_up_one (a : Nat) : roundHalfUp a 1 = a := by
  rw [roundHalfUp]
  omega

/-- What is rounded to a multiple of a power of two is no smaller than the powers of two below
it. -/
theorem le_round_half_even {num den bound : Nat} (hden : 0 < den) (h : bound * den ≤ num) :
    bound ≤ roundHalfEven num den := by
  have hquotient : bound ≤ num / den := (Nat.le_div_iff_mul_le hden).mpr h
  unfold roundHalfEven
  dsimp only
  split
  · exact hquotient
  · split
    · omega
    · omega

theorem to_byte_of_le {s : Nat} {e : Int} (hs : 2 ^ 52 ≤ s) (he : 0 ≤ e) :
    (finite false s e).toByte = 255 := by
  have hmagnitude : magnitude s e = (s * 2 ^ e.toNat, 1) := by
    rw [magnitude, if_pos he]
    rfl
  have hpow : 0 < 2 ^ e.toNat := by positivity
  have hlarge : 255 ≤ s * 2 ^ e.toNat := by
    calc
      255 ≤ s := by omega
      _ ≤ s * 2 ^ e.toNat := Nat.le_mul_of_pos_right s hpow
  rw [toByte, hmagnitude]
  dsimp only
  rw [round_half_up_one, Nat.min_eq_left hlarge]

/-- Clamping to a byte does not depend on rounding. -/
theorem to_byte_of_ratio (n : Nat) : (ofRatio false n 1).toByte = min 255 n := by
  by_cases hn : n = 0
  · rw [ofRatio, if_pos hn, zero, toByte, magnitude_zero, hn]
    dsimp only
    rw [roundHalfUp, Nat.mul_zero, Nat.zero_add, Nat.div_eq_of_lt (by omega)]
  by_cases hsmall : n < 2 ^ 53
  · have hpow : 0 < 2 ^ (52 - n.log2) := by positivity
    rw [of_ratio_whole hn hsmall, toByte, magnitude_neg]
    dsimp only
    congr 1
    rw [roundHalfUp, show 2 * (n * 2 ^ (52 - n.log2)) + 2 ^ (52 - n.log2) =
        2 ^ (52 - n.log2) + (2 * 2 ^ (52 - n.log2)) * n by ring,
      Nat.add_mul_div_left _ _ (by positivity), Nat.div_eq_of_lt (by omega), Nat.zero_add]
  · have hlog : 53 ≤ n.log2 := (Nat.le_log2 hn).mpr (by omega)
    have hexponent : max (-1074) ((n.log2 : Int) - 52) = (n.log2 - 52 : Nat) := by omega
    have hscale : scaleDown n 1 (n.log2 - 52 : Nat) = (n, 2 ^ (n.log2 - 52)) := by
      rw [scaleDown, if_pos (by omega)]
      simp
    have hreach : 2 ^ 52 * 2 ^ (n.log2 - 52) ≤ n := by
      rw [← Nat.pow_add, show 52 + (n.log2 - 52) = n.log2 by omega]
      exact Nat.log2_self_le hn
    have hround : 2 ^ 52 ≤ roundHalfEven n (2 ^ (n.log2 - 52)) :=
      le_round_half_even (by positivity) hreach
    rw [of_ratio_scaled hn (by rw [floor_log2_whole hn, hexponent]) hscale,
      Nat.min_eq_left (by omega)]
    split
    · split
      · rfl
      · exact to_byte_of_le (Nat.le_refl _) (by omega)
    · split
      · rfl
      · exact to_byte_of_le hround (by omega)

end Binary64

namespace Decimal

/-- Digits are read as the number that they spell. -/
theorem read_digits {ds : List Char} (hne : ds ≠ []) (hdigits : ∀ d ∈ ds, d.isDigit) :
    read? ds = some (ofScaled false (digitsValue ds) 0) := by
  have hsign : takeSign ds = (false, ds) := by
    have htake := take_sign_unsigned (.whole hne hdigits) []
    rwa [List.append_nil] at htake
  have htake : takeDigits ds = (ds, []) := by
    have hfront : takeDigits (ds ++ []) = (ds, []) := take_digits_append hdigits (by simp)
    rwa [List.append_nil] at hfront
  rw [read?, hsign]
  simp [takeNumeral?, htake, hne, takeNumeral?.takeExponent?]

/-- A channel that is a whole number ends at the top of its range. -/
theorem to_byte_of_scaled (n : Nat) : (ofScaled false n 0).toByte = min 255 n := by
  rw [ofScaled]
  split
  · rename_i hzero
    rw [← Binary64.to_byte_of_ratio, Binary64.ofRatio, if_pos hzero]
  · rename_i hn
    rw [digitCount, if_neg hn]
    split
    · rename_i hlong
      have hlarge : ¬ n < 10 ^ 3 := fun hsmall => by
        have hlength := (Nat.length_toDigits_le_iff (by omega) (by omega)).mpr hsmall
        rw [digits] at hlong
        omega
      rw [Nat.min_eq_left (by omega)]
      rfl
    · rw [if_neg (by omega), if_pos (Int.le_refl 0)]
      have hscaled : n * Nat.pow 10 (0 : Int).toNat = n := by simp
      rw [hscaled, Binary64.to_byte_of_ratio]

end Decimal

end SvgPress
