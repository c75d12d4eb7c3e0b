import Mathlib.Data.String.Basic
import SvgPress.Json.Value

/-!
What objects hold after members were set. Setting one changes its own value and no other, whether or
not the keys are in order, and of several with one key the last is what counts. Keys that are in
order stay so.
-/

namespace SvgPress.Json.Object

variable {o changes : Object} {key : String} {value : Value}

/-- The value of the last member with the given key. -/
def last? (o : Object) (key : String) : Option Value :=
  get? o.reverse key

theorem get_cons (k : String) (v : Value) (o : Object) (key : String) :
    get? ((k, v) :: o) key = if key = k then some v else o.get? key := by
  by_cases hkey : key = k
  · rw [if_pos hkey, hkey, get?, List.lookup_cons_self]
  · rw [if_neg hkey, get?, List.lookup_cons, beq_eq_false_iff_ne.mpr hkey]
    rfl

/-- A member that is set has its value, and all others keep theirs. -/
theorem get_put (o : Object) (k : String) (v : Value) (key : String) :
    (o.put k v).get? key = if key = k then some v else o.get? key := by
  induction o with
  | nil => exact get_cons k v [] key
  | cons member o ih =>
      rw [put]
      split
      · rename_i hsame
        rw [get_cons, get_cons, hsame]
        split <;> rfl
      · split
        · exact get_cons k v (member :: o) key
        · rename_i hother _
          rw [get_cons, get_cons, ih]
          by_cases hkey : key = k
          · rw [if_pos hkey, if_pos hkey, if_neg (hkey ▸ hother)]
          · rw [if_neg hkey, if_neg hkey]

/-- Of the members of both objects, the last of the changes counts. -/
theorem get_merge (o changes : Object) (key : String) :
    (o.merge changes).get? key = (changes.last? key).or (o.get? key) := by
  induction changes generalizing o with
  | nil => rfl
  | cons change changes ih =>
      obtain ⟨k, v⟩ := change
      have hmerge : o.merge ((k, v) :: changes) = (o.put k v).merge changes := rfl
      have hlast : last? ((k, v) :: changes) key = (last? changes key).or (get? [(k, v)] key) := by
        rw [last?, List.reverse_cons]
        exact List.lookup_append
      rw [hmerge, ih, hlast, get_put, get_cons, Option.or_assoc]
      by_cases hkey : key = k
      · rw [if_pos hkey, if_pos hkey, Option.some_or]
      · rw [if_neg hkey, if_neg hkey]
        rfl

/-- Whether the keys are in increasing order. -/
def IsOrdered (o : Object) : Prop :=
  (o.map Prod.fst).Pairwise (· < ·)

theorem mem_put {m : String × Value} (h : m ∈ o.put key value) : m = (key, value) ∨ m ∈ o := by
  induction o with
  | nil => exact .inl (List.mem_singleton.mp h)
  | cons member o ih =>
      rw [put] at h
      split at h
      · exact (List.mem_cons.mp h).imp_right (List.mem_cons_of_mem _)
      · split at h
        · exact List.mem_cons.mp h
        · rcases List.mem_cons.mp h with h | h
          · exact .inr (h ▸ List.mem_cons_self)
          · exact (ih h).imp_right (List.mem_cons_of_mem _)

theorem mem_keys_put {k : String} (h : k ∈ (o.put key value).map Prod.fst) :
    k = key ∨ k ∈ o.map Prod.fst := by
  obtain ⟨m, hm, rfl⟩ := List.mem_map.mp h
  rcases mem_put hm with rfl | hm
  · exact .inl rfl
  · exact .inr (List.mem_map_of_mem hm)

/-- A new member takes its place. -/
theorem ordered_put (h : o.IsOrdered) (key : String) (value : Value) :
    (o.put key value).IsOrdered := by
  induction o with
  | nil => exact List.pairwise_singleton _ _
  | cons member o ih =>
      obtain ⟨k, v⟩ := member
      obtain ⟨hfirst, hrest⟩ := List.pairwise_cons.mp h
      rw [put]
      split
      · rename_i hsame
        rw [hsame]
        exact h
      · rename_i hother
        split
        · rename_i hless
          refine List.pairwise_cons.mpr ⟨?_, h⟩
          intro other hmem
          rcases List.mem_cons.mp hmem with rfl | hmem
          · exact hless
          · exact lt_trans hless (hfirst other hmem)
        · rename_i hless
          refine List.pairwise_cons.mpr ⟨?_, ih hrest⟩
          intro other hmem
          rcases mem_keys_put hmem with rfl | hmem
          · exact lt_of_le_of_ne (not_lt.mp hless) (Ne.symm hother)
          · exact hfirst other hmem

theorem ordered_merge (h : o.IsOrdered) (changes : Object) : (o.merge changes).IsOrdered := by
  induction changes generalizing o with
  | nil => exact h
  | cons change changes ih => exact ih (ordered_put h change.1 change.2)

theorem has_iff : o.has key ↔ (o.get? key).isSome := by
  rw [has, List.any_eq_true, get?, List.lookup_isSome_iff]
  exact exists_congr fun member => and_congr_right fun _ => by rw [BEq.comm]

end SvgPress.Json.Object
