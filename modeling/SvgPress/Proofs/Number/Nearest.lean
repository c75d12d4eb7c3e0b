import Mathlib.Algebra.Order.Field.Power
import Mathlib.Algebra.Order.Ring.Rat
import Mathlib.Data.Rat.Cast.Order
import Mathlib.Tactic.FieldSimp
import Mathlib.Tactic.Linarith
import Mathlib.Tactic.NormNum
import SvgPress.Proofs.Number.Whole

/-!
Rounding is to the nearest. A quotient is rounded to a whole number at most a half away from it, and
to an even one where it is just a half; there is no other such number, and what is closer to it than
the quotient is rounded to it as well. A ratio is rounded to a number of the format that none is
closer to: those with a smaller exponent lie below the power of two that the ratio reaches, which is
itself a number of the format, so only multiples of one unit have to be compared.
-/

namespace SvgPress.Binary64

/-- The exact magnitude of a significand with an exponent. -/
def size (significand : Nat) (exponent : Int) : ℚ :=
  significand * 2 ^ exponent

/-- Whether the format holds a significand with an exponent. -/
structure Holds (significand : Nat) (exponent : Int) : Prop where
  below : significand < 2 ^ 53
  low : -1074 ≤ exponent
  high : exponent ≤ 971

/-- Whether a number is one of the format. -/
def Fits : Binary64 → Prop
  | .finite _ significand exponent => Holds significand exponent
  | _ => True

/-! ### Whole numbers -/

/-- Whether a quotient is rounded to a whole number: it is at most a half away, and even if it is
that far. -/
structure IsRounded (r : ℚ) (n : Nat) : Prop where
  near : |r - n| ≤ 1 / 2
  tie : |r - n| = 1 / 2 → n % 2 = 0

section Rounding

variable {r u w : ℚ} {m n num den : Nat}

theorem one_le_apart (h : m ≠ n) : (1 : ℚ) ≤ |r - m| + |r - n| := by
  have hapart : (1 : ℚ) ≤ |(m : ℚ) - n| := by
    rcases Nat.lt_or_gt_of_ne h with hlt | hgt
    · have hle : (m : ℚ) + 1 ≤ n := by exact_mod_cast hlt
      rw [abs_sub_comm]
      exact le_trans (by linarith) (le_abs_self _)
    · have hle : (n : ℚ) + 1 ≤ m := by exact_mod_cast hgt
      exact le_trans (by linarith) (le_abs_self _)
  calc
    (1 : ℚ) ≤ |(m : ℚ) - n| := hapart
    _ ≤ |(m : ℚ) - r| + |r - n| := abs_sub_le _ _ _
    _ = |r - m| + |r - n| := by rw [abs_sub_comm (m : ℚ)]

theorem IsRounded.nearest (h : IsRounded r n) (m : Nat) : |r - n| ≤ |r - m| := by
  by_cases hm : m = n
  · rw [hm]
  · have hapart : (1 : ℚ) ≤ |r - m| + |r - n| := one_le_apart hm
    have hnear := h.near
    linarith

theorem IsRounded.unique (h : IsRounded r n) (h' : IsRounded r m) : n = m := by
  by_contra hne
  have hapart : (1 : ℚ) ≤ |r - n| + |r - m| := one_le_apart hne
  have hnear := h.near
  have hnear' := h'.near
  have heven := h.tie (by linarith)
  have heven' := h'.tie (by linarith)
  -- both are a half away, so they are neighbours, and only one of them is even
  have hdistance : |(n : ℚ) - m| ≤ 1 := by
    calc
      |(n : ℚ) - m| ≤ |(n : ℚ) - r| + |r - m| := abs_sub_le _ _ _
      _ ≤ 1 := by rw [abs_sub_comm (n : ℚ)]; linarith
  have hclose : |(n : Int) - m| ≤ 1 := by exact_mod_cast hdistance
  rw [abs_le] at hclose
  omega

/-- What is no farther from the rounded number than the quotient is rounded to it, too. -/
theorem IsRounded.of_closer (h : IsRounded u n) (hcloser : |w - n| ≤ |u - n|) : IsRounded w n where
  near := hcloser.trans h.near
  tie htie := h.tie (le_antisymm h.near (htie ▸ hcloser))

theorem IsRounded.le (h : IsRounded r n) (hle : r ≤ m) : n ≤ m := by
  have hnear := (abs_le.mp h.near).1
  have hbound : (n : ℚ) < m + 1 := by linarith
  exact Nat.lt_succ_iff.mp (by exact_mod_cast hbound)

theorem rounded_round_half_even (hden : 0 < den) :
    IsRounded ((num : ℚ) / den) (roundHalfEven num den) := by
  have hdenominator : (0 : ℚ) < den := by exact_mod_cast hden
  have hdivide : (num : ℚ) = den * (num / den : Nat) + (num % den : Nat) := by
    exact_mod_cast (Nat.div_add_mod num den).symm
  have hremainder : num % den < den := Nat.mod_lt num hden
  generalize hq : num / den = q at hdivide
  generalize hr : num % den = r at hdivide hremainder
  have hfraction : (num : ℚ) / den = q + r / den := by
    rw [hdivide]
    field_simp
  have hpositive : (0 : ℚ) ≤ r / den := by positivity
  have hdown : |(q : ℚ) + r / den - q| = r / den := by
    rw [add_sub_cancel_left, abs_of_nonneg hpositive]
  rw [hfraction, roundHalfEven, hq, hr]
  split
  · rename_i hlow
    have hhalf : (r : ℚ) / den < 1 / 2 := by
      rw [div_lt_iff₀ hdenominator]
      have hlow' : (2 : ℚ) * r < den := by exact_mod_cast hlow
      linarith
    exact ⟨by rw [hdown]; exact hhalf.le, fun htie => absurd (hdown.symm.trans htie) hhalf.ne⟩
  · rename_i hlow
    split
    · rename_i hhigh
      have hhalf : 1 / 2 < (r : ℚ) / den := by
        rw [lt_div_iff₀ hdenominator]
        have hhigh' : (den : ℚ) < 2 * r := by exact_mod_cast hhigh
        linarith
      have hless : (r : ℚ) / den < 1 := by
        rw [div_lt_one hdenominator]
        exact_mod_cast hremainder
      have hup : |(q : ℚ) + r / den - (q + 1 : Nat)| = 1 - r / den := by
        rw [abs_sub_comm, abs_of_nonneg]
        · push_cast
          ring
        · push_cast
          linarith
      exact ⟨by rw [hup]; linarith, fun htie => by rw [hup] at htie; linarith⟩
    · rename_i hhigh
      have hhalf : (r : ℚ) / den = 1 / 2 := by
        rw [div_eq_iff hdenominator.ne']
        have hdouble : (2 : ℚ) * r = den := by
          exact_mod_cast Nat.le_antisymm (not_lt.mp hhigh) (not_lt.mp hlow)
        linarith
      refine ⟨?_, fun _ => by omega⟩
      rw [hhalf]
      rcases Nat.mod_two_eq_zero_or_one q with heven | hodd
      · rw [heven, Nat.add_zero, add_sub_cancel_left, abs_of_nonneg (by norm_num)]
      · rw [hodd]
        push_cast
        rw [add_sub_add_left_eq_sub]
        norm_num [abs_of_nonneg]

theorem round_half_even_eq_iff (hden : 0 < den) :
    roundHalfEven num den = n ↔ IsRounded ((num : ℚ) / den) n :=
  ⟨fun h => h ▸ rounded_round_half_even hden, fun h => (rounded_round_half_even hden).unique h⟩

end Rounding

/-! ### Scales -/

section Scales

variable {num den : Nat} {e : Int}

theorem pow_to_nat (h : 0 ≤ e) : ((Nat.pow 2 e.toNat : Nat) : ℚ) = 2 ^ e := by
  show ((2 ^ e.toNat : Nat) : ℚ) = 2 ^ e
  rw [Nat.cast_pow, Nat.cast_ofNat, ← zpow_natCast, Int.toNat_of_nonneg h]

theorem magnitude_pos (significand : Nat) (e : Int) : 0 < (magnitude significand e).2 := by
  rw [magnitude]
  split
  · exact Nat.one_pos
  · exact Nat.pow_pos (by omega)

theorem magnitude_eq_size (significand : Nat) (e : Int) :
    ((magnitude significand e).1 : ℚ) / (magnitude significand e).2 = size significand e := by
  rw [magnitude, size]
  split
  · rename_i h
    rw [Nat.cast_mul, pow_to_nat h, Nat.cast_one, div_one]
  · rename_i h
    rw [pow_to_nat (by omega), zpow_neg, div_inv_eq_mul]

theorem scale_down_pos (hden : 0 < den) (e : Int) : 0 < (scaleDown num den e).2 := by
  rw [scaleDown]
  split
  · exact Nat.mul_pos hden (Nat.pow_pos (by omega))
  · exact hden

theorem scale_down_eq (num den : Nat) (e : Int) :
    ((scaleDown num den e).1 : ℚ) / (scaleDown num den e).2 = num / den / 2 ^ e := by
  rw [scaleDown]
  split
  · rename_i h
    rw [Nat.cast_mul, pow_to_nat h, div_div]
  · rename_i h
    rw [Nat.cast_mul, pow_to_nat (by omega), zpow_neg, mul_div_right_comm,
      div_eq_mul_inv _ ((2 : ℚ) ^ e)]

/-- The exponent of the power of two that a positive ratio reaches. -/
theorem floor_log2_spec (hnum : num ≠ 0) (hden : 0 < den) :
    (2 : ℚ) ^ floorLog2 num den ≤ num / den ∧ (num : ℚ) / den < 2 ^ (floorLog2 num den + 1) := by
  have hdenominator : (0 : ℚ) < den := by exact_mod_cast hden
  have hlow : (2 : ℚ) ^ (num.log2 : Int) ≤ num := by
    rw [zpow_natCast]
    exact_mod_cast Nat.log2_self_le hnum
  have hhigh : (num : ℚ) < 2 ^ (num.log2 + 1 : Int) := by
    exact_mod_cast Nat.lt_log2_self (n := num)
  have hlow' : (2 : ℚ) ^ (den.log2 : Int) ≤ den := by
    rw [zpow_natCast]
    exact_mod_cast Nat.log2_self_le hden.ne'
  have hhigh' : (den : ℚ) < 2 ^ (den.log2 + 1 : Int) := by
    exact_mod_cast Nat.lt_log2_self (n := den)
  have hbelow : (num : ℚ) / den < 2 ^ ((num.log2 : Int) - den.log2 + 1) := by
    calc
      (num : ℚ) / den < 2 ^ (num.log2 + 1 : Int) / den := div_lt_div_of_pos_right hhigh hdenominator
      _ ≤ 2 ^ (num.log2 + 1 : Int) / 2 ^ (den.log2 : Int) :=
        div_le_div_of_nonneg_left (by positivity) (by positivity) hlow'
      _ = 2 ^ ((num.log2 : Int) - den.log2 + 1) := by
        rw [← zpow_sub₀ two_ne_zero]
        congr 1
        ring
  have habove : (2 : ℚ) ^ ((num.log2 : Int) - den.log2 - 1) ≤ num / den := by
    calc
      (2 : ℚ) ^ ((num.log2 : Int) - den.log2 - 1) =
          2 ^ (num.log2 : Int) / 2 ^ (den.log2 + 1 : Int) := by
        rw [← zpow_sub₀ two_ne_zero]
        congr 1
        ring
      _ ≤ num / 2 ^ (den.log2 + 1 : Int) := div_le_div_of_nonneg_right hlow (by positivity)
      _ ≤ num / den := div_le_div_of_nonneg_left (by positivity) hdenominator hhigh'.le
  -- the two lengths leave two exponents, and comparing once tells which it is
  have hscaled := scale_down_eq num den ((num.log2 : Int) - den.log2)
  have hpositive : (0 : ℚ) < (scaleDown num den ((num.log2 : Int) - den.log2)).2 := by
    exact_mod_cast scale_down_pos hden _
  have hpow : (0 : ℚ) < 2 ^ ((num.log2 : Int) - den.log2) := by positivity
  rw [floorLog2]
  dsimp only
  split
  · rename_i hreach
    refine ⟨?_, hbelow⟩
    rw [← one_le_div hpow, ← hscaled, one_le_div hpositive]
    exact_mod_cast hreach
  · rename_i hreach
    refine ⟨habove, ?_⟩
    rw [sub_add_cancel, ← div_lt_one hpow, ← hscaled, div_lt_one hpositive]
    exact_mod_cast not_le.mp hreach

end Scales

/-! ### Numbers of the format -/

section Format

variable {num den significand other : Nat} {e exponent : Int}

theorem size_lt (h : significand < 2 ^ 53) : size significand exponent < 2 ^ (exponent + 53) := by
  have hsignificand : (significand : ℚ) < 2 ^ 53 := by exact_mod_cast h
  have hpow : (0 : ℚ) < 2 ^ exponent := by positivity
  calc
    size significand exponent < 2 ^ 53 * 2 ^ exponent := mul_lt_mul_of_pos_right hsignificand hpow
    _ = 2 ^ (exponent + 53) := by
      rw [zpow_add₀ two_ne_zero, mul_comm]
      rfl

/-- A number of a larger exponent is a multiple of the smaller unit. -/
theorem size_eq_multiple (h : e ≤ exponent) :
    size significand exponent = (significand * 2 ^ (exponent - e).toNat : Nat) * 2 ^ e := by
  rw [size, Nat.cast_mul, Nat.cast_pow, Nat.cast_ofNat, ← zpow_natCast, mul_assoc,
    ← zpow_add₀ two_ne_zero, Int.toNat_of_nonneg (by omega), sub_add_cancel]

/-- A distance is as many units as the distance of what both are in units. -/
theorem distance_scaled {unit : ℚ} (hunit : 0 < unit) (r t : ℚ) :
    |r - t * unit| = |r / unit - t| * unit := by
  rw [← abs_of_pos hunit, ← abs_mul, abs_of_pos hunit, sub_mul, div_mul_cancel₀ _ hunit.ne']

/-- The exponent that a positive ratio is rounded at. -/
def unitOf (num den : Nat) : Int :=
  max (-1074) (floorLog2 num den - 52)

/-- The significand that a positive ratio is rounded to. -/
def significandOf (num den : Nat) : Nat :=
  roundHalfEven (scaleDown num den (unitOf num den)).1 (scaleDown num den (unitOf num den)).2

theorem of_ratio_eq (hnum : num ≠ 0) (negative : Bool) : ofRatio negative num den =
    if significandOf num den = 2 ^ 53 then
      if 971 < unitOf num den + 1 then .infinite negative
      else .finite negative (2 ^ 52) (unitOf num den + 1)
    else if 971 < unitOf num den then .infinite negative
    else .finite negative (significandOf num den) (unitOf num den) :=
  of_ratio_scaled hnum rfl rfl negative

theorem rounded_significand (hden : 0 < den) :
    IsRounded ((num : ℚ) / den / 2 ^ unitOf num den) (significandOf num den) := by
  rw [← scale_down_eq]
  exact rounded_round_half_even (scale_down_pos hden _)

/-- No number of the format is closer to a ratio than the one that it is rounded to. -/
theorem nearest_significand (hnum : num ≠ 0) (hden : 0 < den) (hbelow : other < 2 ^ 53)
    (hlow : -1074 ≤ exponent) :
    |(num : ℚ) / den - size (significandOf num den) (unitOf num den)| ≤
      |(num : ℚ) / den - size other exponent| := by
  have hpow : (0 : ℚ) < 2 ^ unitOf num den := by positivity
  have hrounded : IsRounded ((num : ℚ) / den / 2 ^ unitOf num den) (significandOf num den) :=
    rounded_significand hden
  have hmultiple (m : Nat) : |(num : ℚ) / den - size (significandOf num den) (unitOf num den)| ≤
      |(num : ℚ) / den - m * 2 ^ unitOf num den| := by
    rw [size, distance_scaled hpow, distance_scaled hpow]
    exact mul_le_mul_of_nonneg_right (hrounded.nearest m) hpow.le
  rcases le_or_gt (unitOf num den) exponent with hle | hgt
  · rw [size_eq_multiple hle]
    exact hmultiple _
  · -- the other number is below the power of two that the ratio reaches
    have hunit : unitOf num den = floorLog2 num den - 52 := by
      rw [unitOf] at hgt ⊢
      omega
    have hreach := (floor_log2_spec hnum hden).1
    have hbetween : size other exponent ≤ 2 ^ floorLog2 num den := by
      refine (size_lt hbelow).le.trans (zpow_le_zpow_right₀ one_le_two ?_)
      omega
    have hpower : ((2 ^ 52 : Nat) : ℚ) * 2 ^ unitOf num den = 2 ^ floorLog2 num den := by
      rw [hunit, Nat.cast_pow, Nat.cast_ofNat, ← zpow_natCast, ← zpow_add₀ two_ne_zero]
      congr 1
      push_cast
      ring
    calc
      |(num : ℚ) / den - size (significandOf num den) (unitOf num den)| ≤
          |(num : ℚ) / den - (2 ^ 52 : Nat) * 2 ^ unitOf num den| := hmultiple _
      _ = num / den - 2 ^ floorLog2 num den := by rw [hpower, abs_of_nonneg (by linarith)]
      _ ≤ num / den - size other exponent := by linarith
      _ ≤ |(num : ℚ) / den - size other exponent| := le_abs_self _

theorem significand_le (hnum : num ≠ 0) (hden : 0 < den) : significandOf num den ≤ 2 ^ 53 := by
  have hpow : (0 : ℚ) < 2 ^ unitOf num den := by positivity
  refine (rounded_significand hden).le ?_
  rw [div_le_iff₀ hpow, Nat.cast_pow, Nat.cast_ofNat]
  calc
    (num : ℚ) / den ≤ 2 ^ (floorLog2 num den + 1) := (floor_log2_spec hnum hden).2.le
    _ ≤ 2 ^ (53 + unitOf num den) := zpow_le_zpow_right₀ one_le_two (by rw [unitOf]; omega)
    _ = 2 ^ 53 * 2 ^ unitOf num den := zpow_add₀ two_ne_zero _ _

/-- Whatever a ratio is rounded to is a number of the format. -/
theorem of_ratio_fits (hden : 0 < den) (negative : Bool) : (ofRatio negative num den).Fits := by
  by_cases hnum : num = 0
  · rw [ofRatio, if_pos hnum]
    exact ⟨by omega, by omega, by omega⟩
  · have hlow : -1074 ≤ unitOf num den := le_max_left _ _
    have hle := significand_le hnum hden
    rw [of_ratio_eq hnum]
    split
    · split
      · trivial
      · exact ⟨by omega, by omega, by omega⟩
    · split
      · trivial
      · exact ⟨by omega, by omega, by omega⟩

theorem size_lt_limit (h : Holds significand exponent) :
    size significand exponent < 2 ^ (1024 : Int) :=
  (size_lt h.below).trans_le (zpow_le_zpow_right₀ one_le_two (by have := h.high; omega))

/-- A significand that rounding filled up is the smallest one of the next exponent. -/
theorem size_full (e : Int) : size (2 ^ 53) e = size (2 ^ 52) (e + 1) := by
  rw [size, size, zpow_add_one₀ two_ne_zero, Nat.cast_pow, Nat.cast_pow, Nat.cast_ofNat]
  ring

/-- A ratio that is no larger than some number of the format is rounded to a finite one, and none of
the format is closer to it. -/
theorem of_ratio_nearest (hden : 0 < den) (hholds : Holds other exponent)
    (hle : (num : ℚ) / den ≤ size other exponent) (negative : Bool) :
    ∃ s e, ofRatio negative num den = .finite negative s e ∧
      ∀ s' e', Holds s' e' → |(num : ℚ) / den - size s e| ≤ |(num : ℚ) / den - size s' e'| := by
  by_cases hnum : num = 0
  · refine ⟨0, -1074, by rw [ofRatio, if_pos hnum, zero], fun s' e' _ => ?_⟩
    rw [hnum, size, Nat.cast_zero, zero_div, zero_mul, sub_zero, abs_zero]
    exact abs_nonneg _
  · have hlimit : (num : ℚ) / den < 2 ^ (1024 : Int) := hle.trans_lt (size_lt_limit hholds)
    have hnearest {s' : Nat} {e' : Int} (h : Holds s' e') :=
      nearest_significand hnum hden h.below h.low
    by_cases hfull : significandOf num den = 2 ^ 53
    · have hhigh : unitOf num den + 1 ≤ 971 := by
        -- what is rounded to the limit or beyond has a closer number below it
        by_contra hbeyond
        have hclose := hnearest hholds
        have hreach : (2 : ℚ) ^ (1024 : Int) ≤ size (significandOf num den) (unitOf num den) := by
          rw [hfull, size_full, size, Nat.cast_pow, Nat.cast_ofNat, ← zpow_natCast,
            ← zpow_add₀ two_ne_zero]
          exact zpow_le_zpow_right₀ one_le_two (by omega)
        have hother := size_lt_limit hholds
        rw [abs_sub_comm, abs_of_nonneg (by linarith), abs_sub_comm, abs_of_nonneg (by linarith)]
          at hclose
        linarith
      refine ⟨2 ^ 52, unitOf num den + 1, ?_, fun s' e' h => ?_⟩
      · rw [of_ratio_eq hnum, if_pos hfull, if_neg (by omega)]
      · rw [← size_full, ← hfull]
        exact hnearest h
    · have hhigh : unitOf num den ≤ 971 := by
        by_contra hbeyond
        have hunit : unitOf num den = floorLog2 num den - 52 := by
          rw [unitOf] at hbeyond ⊢
          omega
        have hreach : (2 : ℚ) ^ (1024 : Int) ≤ num / den :=
          (zpow_le_zpow_right₀ one_le_two (by omega)).trans (floor_log2_spec hnum hden).1
        linarith
      refine ⟨significandOf num den, unitOf num den, ?_, fun s' e' h => ?_⟩
      · rw [of_ratio_eq hnum, if_neg hfull, if_neg (by omega)]
      · exact hnearest h

end Format

end SvgPress.Binary64
