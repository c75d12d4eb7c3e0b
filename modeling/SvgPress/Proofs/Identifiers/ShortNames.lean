import Mathlib.Data.List.GetD
import Mathlib.Tactic.ByContra
import SvgPress.Proofs.Identifiers.Renaming
import SvgPress.Proofs.Vacancy

/-!
Short names. Different numbers have different short names, so among one candidate more than there
are preserved names one is free, and the search for it need not be bounded by anything else.
-/

namespace SvgPress.Identifiers

theorem letters_length : letters.length = 52 := by decide

theorem letters_nodup : letters.Nodup := by decide

theorem letter_mem {n : Nat} (h : n < 52) : letters.getD n 'a' ∈ letters := by
  have hn : n < letters.length := by rwa [letters_length]
  rw [List.getD_eq_getElem _ _ hn]
  exact List.getElem_mem hn

theorem letter_inj {m n : Nat} (hm : m < 52) (hn : n < 52)
    (h : letters.getD m 'a' = letters.getD n 'a') : m = n := by
  rw [← letters_length] at hm hn
  rw [List.getD_eq_getElem _ _ hm, List.getD_eq_getElem _ _ hn] at h
  exact letters_nodup.getElem_inj_iff.mp h

theorem short_name_reversed_small {n : Nat} (h : n < 52) :
    shortNameReversed n = [letters.getD n 'a'] := by
  rw [shortNameReversed, dif_pos h]

theorem short_name_reversed_carry {n : Nat} (h : ¬ n < 52) :
    shortNameReversed n = letters.getD (n % 52) 'a' :: shortNameReversed (n / 52 - 1) := by
  rw [shortNameReversed, dif_neg h]

theorem short_name_reversed_ne_nil (n : Nat) : shortNameReversed n ≠ [] := by
  by_cases h : n < 52
  · rw [short_name_reversed_small h]
    exact List.cons_ne_nil _ _
  · rw [short_name_reversed_carry h]
    exact List.cons_ne_nil _ _

theorem short_name_reversed_inj {m n : Nat} (h : shortNameReversed m = shortNameReversed n) :
    m = n := by
  induction m using Nat.strongRecOn generalizing n with
  | ind m ih =>
      by_cases hm : m < 52 <;> by_cases hn : n < 52
      · rw [short_name_reversed_small hm, short_name_reversed_small hn] at h
        exact letter_inj hm hn (List.cons.inj h).1
      · rw [short_name_reversed_small hm, short_name_reversed_carry hn] at h
        exact absurd (List.cons.inj h).2.symm (short_name_reversed_ne_nil _)
      · rw [short_name_reversed_carry hm, short_name_reversed_small hn] at h
        exact absurd (List.cons.inj h).2 (short_name_reversed_ne_nil _)
      · rw [short_name_reversed_carry hm, short_name_reversed_carry hn] at h
        obtain ⟨hletter, hcarry⟩ := List.cons.inj h
        have hlow : m % 52 = n % 52 :=
          letter_inj (Nat.mod_lt _ (by decide)) (Nat.mod_lt _ (by decide)) hletter
        have hhigh : m / 52 - 1 = n / 52 - 1 := ih _ (by omega) hcarry
        omega

theorem short_name_inj {m n : Nat} (h : shortName m = shortName n) : m = n := by
  apply short_name_reversed_inj
  exact List.reverse_injective (String.ofList_injective h)

theorem behind_prefix_injective (lead : String) : Function.Injective fun n => lead ++ shortName n :=
  fun _ _ heq => short_name_inj ((String.append_right_inj _).mp heq)

theorem short_name_letters (n : Nat) : ∀ c ∈ (shortName n).toList, c ∈ letters := by
  intro c hc
  rw [shortName, String.toList_ofList, List.mem_reverse] at hc
  induction n using Nat.strongRecOn with
  | ind n ih =>
      by_cases hn : n < 52
      · rw [short_name_reversed_small hn, List.mem_singleton] at hc
        rw [hc]
        exact letter_mem hn
      · rw [short_name_reversed_carry hn, List.mem_cons] at hc
        rcases hc with rfl | hc
        · exact letter_mem (Nat.mod_lt _ (by decide))
        · exact ih _ (by omega) hc

theorem letter_name_char : ∀ c ∈ letters, isNameChar c ∧ c ≠ '(' := by decide

theorem short_name_char {n : Nat} {c : Char} (h : c ∈ (shortName n).toList) :
    isNameChar c ∧ c ≠ '(' :=
  letter_name_char c (short_name_letters n c h)

theorem short_name_ne_nil (n : Nat) : (shortName n).toList ≠ [] := by
  rw [shortName, String.toList_ofList]
  exact fun h => short_name_reversed_ne_nil n (List.reverse_eq_nil_iff.mp h)

/-- Whatever the prefix is, as long as it holds no quotation mark and no parenthesis, a short name
behind it is one that the renaming of references can deal with. -/
theorem made_short_name {lead : String}
    (hlead : ∀ c ∈ lead.toList, c ≠ '\'' ∧ c ≠ '"' ∧ c ≠ ')' ∧ c ≠ '(') (n : Nat) :
    IsMade (lead ++ shortName n).toList := by
  have hne := short_name_ne_nil n
  refine ⟨lead.toList ++ (shortName n).toList.dropLast, (shortName n).toList.getLast hne, ?_,
    (short_name_char (List.getLast_mem hne)).1, (short_name_char (List.getLast_mem hne)).2,
    fun c hc => ?_⟩
  · rw [String.toList_append, List.append_assoc, List.dropLast_append_getLast]
  · rcases List.mem_append.mp hc with hc | hc
    · exact hlead c hc
    · obtain ⟨hname, hmark⟩ := short_name_char (List.dropLast_subset _ hc)
      obtain ⟨hsingle, hdouble, hclose⟩ := name_char_ne hname
      exact ⟨hsingle, hdouble, hclose, hmark⟩

/-- A short name behind a prefix can be read in a reference exactly if the prefix can. -/
theorem is_name_short_iff (lead : String) (n : Nat) :
    IsName (lead ++ shortName n).toList ↔ ∀ c ∈ lead.toList, isNameChar c := by
  rw [String.toList_append]
  constructor
  · exact fun h c hc => h.2 c (List.mem_append_left _ hc)
  · intro h
    refine ⟨List.append_ne_nil_of_right_ne_nil _ (short_name_ne_nil n), fun c hc => ?_⟩
    rcases List.mem_append.mp hc with hc | hc
    · exact h c hc
    · exact (short_name_char hc).1

/-- A short name adds no reference to its prefix. -/
theorem names_in_short (lead : String) (n : Nat) :
    namesIn (lead ++ shortName n) = namesIn lead := by
  rw [names_in_eq, String.toList_append]
  refine names_of_append_of_no_close _ fun hclose => ?_
  exact (name_char_ne (short_name_char hclose).1).2.2 rfl

theorem count_open_short (lead : String) (n : Nat) :
    (lead ++ shortName n).toList.count '(' = lead.toList.count '(' := by
  have hopen : '(' ∉ (shortName n).toList := fun hmem => (short_name_char hmem).2 rfl
  rw [String.toList_append, List.count_append, List.count_eq_zero_of_not_mem hopen, Nat.add_zero]

theorem fresh_name_eq (policy : Policy) (tries n : Nat) :
    freshName policy tries n =
      let last := searchEnd policy.preserve (fun k => policy.namePrefix ++ shortName k) tries n
      (policy.namePrefix ++ shortName last, last + 1) := by
  induction tries generalizing n with
  | zero => rfl
  | succ tries ih =>
      rw [freshName, searchEnd, ih]
      by_cases hkept : policy.namePrefix ++ shortName n ∈ policy.preserve
      · rw [if_pos (List.contains_iff_mem.mpr hkept), if_pos hkept]
      · rw [if_neg (mt List.contains_iff_mem.mp hkept), if_neg hkept]

/-- With one try for every preserved name the search ends at the first name that is not
preserved. -/
theorem fresh_name_free (policy : Policy) (n : Nat) :
    ∃ m, n ≤ m ∧
      freshName policy policy.preserve.length n = (policy.namePrefix ++ shortName m, m + 1) ∧
      policy.namePrefix ++ shortName m ∉ policy.preserve ∧
      ∀ k, n ≤ k → k < m → policy.namePrefix ++ shortName k ∈ policy.preserve := by
  obtain ⟨hle, hpassed, -⟩ := search_end_spec policy.preserve
    (fun k => policy.namePrefix ++ shortName k) policy.preserve.length n
  exact ⟨_, hle, fresh_name_eq policy _ n, search_end_free (behind_prefix_injective _) n, hpassed⟩

/-- How many of the first short names behind the prefix are not preserved. -/
def Policy.freeBelow (policy : Policy) (n : Nat) : Nat :=
  (List.range n).countP fun k => !policy.preserve.contains (policy.namePrefix ++ shortName k)

theorem free_below_succ (policy : Policy) (n : Nat) : policy.freeBelow (n + 1) =
    policy.freeBelow n +
      if policy.preserve.contains (policy.namePrefix ++ shortName n) then 0 else 1 := by
  rw [Policy.freeBelow, List.range_succ, List.countP_append, List.countP_singleton,
    ← Policy.freeBelow]
  cases policy.preserve.contains (policy.namePrefix ++ shortName n) <;> rfl

theorem free_below_mono (policy : Policy) {m n : Nat} (h : m ≤ n) :
    policy.freeBelow m ≤ policy.freeBelow n := by
  induction h with
  | refl => exact Nat.le_refl _
  | @step n _ ih =>
      rw [free_below_succ]
      exact Nat.le_add_right_of_le ih

/-- Names that are passed over do not count. -/
theorem free_below_of_passed (policy : Policy) {m n : Nat} (hle : n ≤ m)
    (hpassed : ∀ k, n ≤ k → k < m → policy.namePrefix ++ shortName k ∈ policy.preserve) :
    policy.freeBelow m = policy.freeBelow n := by
  induction hle with
  | refl => rfl
  | @step m hle ih =>
      have hlast : policy.preserve.contains (policy.namePrefix ++ shortName m) :=
        List.contains_iff_mem.mpr (hpassed m hle (Nat.lt_succ_self m))
      rw [free_below_succ, if_pos hlast, Nat.add_zero]
      exact ih fun k hlow hhigh => hpassed k hlow (Nat.lt_succ_of_lt hhigh)

/-- A free name comes before a number exactly if fewer free names come before it. -/
theorem free_below_lt_iff {policy : Policy} {m : Nat}
    (hfree : policy.namePrefix ++ shortName m ∉ policy.preserve) (n : Nat) :
    policy.freeBelow m < policy.freeBelow n ↔ m < n := by
  constructor
  · intro h
    by_contra hnot
    have := free_below_mono policy (Nat.le_of_not_lt hnot)
    omega
  · intro h
    have hnext : policy.freeBelow (m + 1) = policy.freeBelow m + 1 := by
      rw [free_below_succ, if_neg (by simpa using hfree)]
    have hmono : policy.freeBelow (m + 1) ≤ policy.freeBelow n := free_below_mono policy h
    omega

/-- Whether a name is one of the first free short names behind the prefix, as many as are asked
for. -/
def Policy.IsGiven (policy : Policy) (count : Nat) (name : String) : Prop :=
  ∃ m, name = policy.namePrefix ++ shortName m ∧ name ∉ policy.preserve ∧
    policy.freeBelow m < count

end SvgPress.Identifiers
