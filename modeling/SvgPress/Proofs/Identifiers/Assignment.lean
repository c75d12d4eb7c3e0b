import SvgPress.Proofs.Identifiers.ShortNames

/-!
The names that are assigned. One identifier after another gets the next short name that is free, and
the numbers only grow, so no name is given twice and none is a name that has to stay.
-/

namespace SvgPress.Identifiers

/-- What holds of the new names once some identifiers have been seen and a number has been reached:
who has one, and that they are the free ones of a lower number, each given once. -/
structure IsAssigned (policy : Policy) (used seen : List String) (renames : Renaming) (n : Nat) :
    Prop where
  has_iff : ∀ id, renames.has id ↔ id ∈ seen ∧ id ∈ used ∧ policy.preserves id = false
  short : ∀ id new, renames.lookup id = some new →
    ∃ m, m < n ∧ new = policy.namePrefix ++ shortName m ∧ new ∉ policy.preserve
  distinct : ∀ id id' new, renames.lookup id = some new → renames.lookup id' = some new → id = id'
  dense : ∀ m, m < n → policy.namePrefix ++ shortName m ∉ policy.preserve →
    ∃ id, renames.lookup id = some (policy.namePrefix ++ shortName m)
  count : renames.length = policy.freeBelow n

theorem is_assigned_nil (policy : Policy) (used : List String) :
    IsAssigned policy used [] [] 0 where
  has_iff id := by simp [Renaming.has]
  short id new h := by cases h
  distinct id id' new h := by cases h
  dense m hm := absurd hm (Nat.not_lt_zero m)
  count := rfl

theorem lookup_add {renames : Renaming} {id new : String} (hnone : renames.lookup id = none)
    {other found : String} : List.lookup other (renames ++ [(id, new)]) = some found ↔
      (other = id ∧ found = new) ∨ renames.lookup other = some found := by
  rw [List.lookup_append]
  by_cases h : other = id
  · subst h
    simp [hnone, eq_comm]
  · have hother : List.lookup other [(id, new)] = none := by
      rw [List.lookup_cons, beq_false_of_ne h]
      rfl
    simp [hother, h]

theorem has_iff_lookup {renames : Renaming} {id : String} :
    renames.has id ↔ ∃ new, renames.lookup id = some new :=
  Option.isSome_iff_exists

theorem lookup_eq_none_iff {renames : Renaming} {id : String} :
    renames.lookup id = none ↔ ¬ renames.has id :=
  Option.not_isSome_iff_eq_none.symm

/-- An identifier that needs no new name, or has one. -/
theorem IsAssigned.skip {policy : Policy} {used seen : List String} {renames : Renaming} {n : Nat}
    (h : IsAssigned policy used seen renames n) {id : String}
    (hskip : renames.has id ∨ policy.preserves id ∨ id ∉ used) :
    IsAssigned policy used (seen ++ [id]) renames n where
  has_iff other := by
    rw [h.has_iff other, List.mem_append, List.mem_singleton]
    constructor
    · rintro ⟨hseen, hrest⟩
      exact ⟨.inl hseen, hrest⟩
    · rintro ⟨hseen | rfl, hused, hfree⟩
      · exact ⟨hseen, hused, hfree⟩
      · rcases hskip with hhas | hkept | hunused
        · exact (h.has_iff other).mp hhas
        · rw [hfree] at hkept
          cases hkept
        · exact absurd hused hunused
  short := h.short
  distinct := h.distinct
  dense := h.dense
  count := h.count

/-- An identifier that gets the next free name. -/
theorem IsAssigned.add {policy : Policy} {used seen : List String} {renames : Renaming} {n m : Nat}
    (h : IsAssigned policy used seen renames n) {id : String} (hnone : renames.lookup id = none)
    (hused : id ∈ used) (hfree : policy.preserves id = false) (hm : n ≤ m)
    (hname : policy.namePrefix ++ shortName m ∉ policy.preserve)
    (hpassed : ∀ k, n ≤ k → k < m → policy.namePrefix ++ shortName k ∈ policy.preserve) :
    IsAssigned policy used (seen ++ [id]) (renames ++ [(id, policy.namePrefix ++ shortName m)])
      (m + 1) where
  has_iff other := by
    simp only [has_iff_lookup, lookup_add hnone, exists_or, exists_and_left, exists_eq, and_true,
      List.mem_append, List.mem_singleton]
    rw [← has_iff_lookup, h.has_iff]
    constructor
    · rintro (rfl | ⟨hseen, hrest⟩)
      · exact ⟨.inr rfl, hused, hfree⟩
      · exact ⟨.inl hseen, hrest⟩
    · rintro ⟨hseen | rfl, hrest⟩
      · exact .inr ⟨hseen, hrest⟩
      · exact .inl rfl
  short other new hnew := by
    rcases (lookup_add hnone).mp hnew with ⟨-, rfl⟩ | hnew
    · exact ⟨m, by omega, rfl, hname⟩
    · obtain ⟨k, hk, hrest⟩ := h.short other new hnew
      exact ⟨k, by omega, hrest⟩
  distinct := by
    -- an older name has a lower number, so it is not the one that was added
    have hold (other : String) :
        renames.lookup other ≠ some (policy.namePrefix ++ shortName m) := by
      intro hother
      obtain ⟨k, hk, heq, -⟩ := h.short other _ hother
      have := short_name_inj ((String.append_right_inj _).mp heq)
      omega
    intro other other' new hnew hnew'
    rcases (lookup_add hnone).mp hnew with ⟨rfl, rfl⟩ | hnew
    · rcases (lookup_add hnone).mp hnew' with ⟨rfl, -⟩ | hnew'
      · rfl
      · exact absurd hnew' (hold other')
    · rcases (lookup_add hnone).mp hnew' with ⟨-, rfl⟩ | hnew'
      · exact absurd hnew (hold other)
      · exact h.distinct other other' new hnew hnew'
  dense k hk hkfree := by
    rcases Nat.lt_or_ge k n with hlow | hhigh
    · obtain ⟨other, hother⟩ := h.dense k hlow hkfree
      exact ⟨other, (lookup_add hnone).mpr (.inr hother)⟩
    · obtain rfl : k = m := by
        rcases Nat.lt_succ_iff_lt_or_eq.mp hk with hless | heq
        · exact absurd (hpassed k hhigh hless) hkfree
        · exact heq
      exact ⟨id, (lookup_add hnone).mpr (.inl ⟨rfl, rfl⟩)⟩
  count := by
    rw [List.length_append, List.length_singleton, h.count, free_below_succ,
      if_neg (by simpa using hname), free_below_of_passed policy hm hpassed]

/-- What the walk over the identifiers keeps up. -/
theorem IsAssigned.assign {policy : Policy} (hminify : policy.minify = true)
    {used seen : List String} {renames : Renaming} {n : Nat}
    (h : IsAssigned policy used seen renames n) (ids : List String) :
    ∃ m, IsAssigned policy used (seen ++ ids) (policy.assign used renames n ids) m := by
  induction ids generalizing seen renames n with
  | nil => exact ⟨n, by simpa [Policy.assign] using h⟩
  | cons id ids ih =>
      have hseen : seen ++ id :: ids = seen ++ [id] ++ ids := by simp
      rw [hseen, Policy.assign]
      split
      · rename_i hskip
        simp only [Bool.or_eq_true, Bool.not_eq_true', ← Bool.not_eq_true,
          List.contains_iff_mem] at hskip
        apply ih
        apply h.skip
        rcases hskip with (hhas | hkept) | hunused
        · exact .inl hhas
        · exact .inr (.inl hkept)
        · exact .inr (.inr hunused)
      · rename_i hadd
        simp only [Bool.or_eq_true, Bool.not_eq_true', ← Bool.not_eq_true, List.contains_iff_mem,
          not_or, Classical.not_not, Option.not_isSome_iff_eq_none] at hadd
        obtain ⟨⟨hnone, hfree⟩, hused⟩ := hadd
        obtain ⟨m, hm, hfresh, hname, hpassed⟩ := fresh_name_free policy n
        have hrename : policy.rename id n = (policy.namePrefix ++ shortName m, m + 1) := by
          rw [Policy.rename, if_pos hminify, hfresh]
        rw [hrename]
        exact ih (h.add hnone hused (Bool.eq_false_iff.mpr hfree) hm hname hpassed)

/-- The names that were given are the first free ones, as many as there are identifiers with a new
name. -/
theorem IsAssigned.given_iff {policy : Policy} {used seen : List String} {renames : Renaming}
    {n : Nat} (h : IsAssigned policy used seen renames n) (name : String) :
    (∃ id, renames.lookup id = some name) ↔ policy.IsGiven renames.length name := by
  rw [h.count]
  constructor
  · rintro ⟨id, hid⟩
    obtain ⟨m, hm, rfl, hfree⟩ := h.short id name hid
    exact ⟨m, rfl, hfree, (free_below_lt_iff hfree n).mpr hm⟩
  · rintro ⟨m, rfl, hfree, hcount⟩
    exact h.dense m ((free_below_lt_iff hfree n).mp hcount) hfree

/-- The new names for all identifiers of a document. -/
theorem assigned {policy : Policy} (hminify : policy.minify = true) (used ids : List String) :
    ∃ m, IsAssigned policy used ids (policy.assign used [] 0 ids) m :=
  (is_assigned_nil policy used).assign hminify ids

end SvgPress.Identifiers
