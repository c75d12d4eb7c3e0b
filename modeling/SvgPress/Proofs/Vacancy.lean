import Mathlib.Data.List.Nodup
import Mathlib.Data.List.Perm.Subperm
import Mathlib.Data.List.Range

/-!
Searches through numbered items. A search passes over the items that are taken, as long as it has
tries left. Where items with different numbers differ, no list holds more of them than it is long,
so a search with one try for every item that is taken ends at the first one that is not.
-/

namespace SvgPress

variable {α : Type} {item : Nat → α} {taken : List α}

/-- A list that holds some numbered items is at least as long as there are such items. -/
theorem count_le_of_taken (hitem : Function.Injective item) {n count : Nat}
    (h : ∀ k, n ≤ k → k < n + count → item k ∈ taken) : count ≤ taken.length := by
  have hsubset : (List.range' n count).map item ⊆ taken := by
    intro a ha
    obtain ⟨k, hk, rfl⟩ := List.mem_map.mp ha
    rw [List.mem_range'_1] at hk
    exact h k hk.1 hk.2
  have hnumbers : (List.range' n count).Nodup := List.nodup_range'
  have hlength := ((hnumbers.map hitem).subperm hsubset).length_le
  rwa [List.length_map, List.length_range'] at hlength

variable [DecidableEq α]

/-- The number at which a search from `n` on ends. Without a try left it ends where it is. -/
def searchEnd (taken : List α) (item : Nat → α) : (tries n : Nat) → Nat
  | 0, n => n
  | tries + 1, n => if item n ∈ taken then searchEnd taken item tries (n + 1) else n

/-- A search only passes over items that are taken, and it ends at one only for want of tries. -/
theorem search_end_spec (taken : List α) (item : Nat → α) (tries n : Nat) :
    n ≤ searchEnd taken item tries n ∧
      (∀ k, n ≤ k → k < searchEnd taken item tries n → item k ∈ taken) ∧
      (item (searchEnd taken item tries n) ∈ taken → searchEnd taken item tries n = n + tries) := by
  induction tries generalizing n with
  | zero =>
      exact ⟨Nat.le_refl n, fun k hlow hhigh => absurd hhigh (Nat.not_lt.mpr hlow), fun _ => rfl⟩
  | succ tries ih =>
      rw [searchEnd]
      split
      case isTrue htaken =>
        obtain ⟨hle, hpassed, hlast⟩ := ih (n + 1)
        refine ⟨Nat.le_of_succ_le hle, fun k hlow hhigh => ?_, fun hmem => ?_⟩
        · rcases Nat.eq_or_lt_of_le hlow with rfl | hlow
          · exact htaken
          · exact hpassed k hlow hhigh
        · rw [hlast hmem]
          omega
      case isFalse hfree =>
        exact ⟨Nat.le_refl n, fun k hlow hhigh => absurd hhigh (Nat.not_lt.mpr hlow),
          fun hmem => absurd hmem hfree⟩

/-- A search with one try for every item that is taken ends at one that is not. -/
theorem search_end_free (hitem : Function.Injective item) (n : Nat) :
    item (searchEnd taken item taken.length n) ∉ taken := by
  obtain ⟨hle, hpassed, hlast⟩ := search_end_spec taken item taken.length n
  intro hmem
  have hend := hlast hmem
  have hall (k : Nat) (hlow : n ≤ k) (hhigh : k < n + (taken.length + 1)) : item k ∈ taken := by
    rcases Nat.eq_or_lt_of_le (show k ≤ searchEnd taken item taken.length n by omega) with rfl | hk
    · exact hmem
    · exact hpassed k hlow hk
  have hcount := count_le_of_taken hitem hall
  omega

end SvgPress
