import Mathlib.Data.Prod.Lex
import Mathlib.Data.String.Basic
import SvgPress.Pass.AttributeOrder

/-!
Attributes in a canonical order. The order on names is linear, and attributes of one name stay as
they stood. So the sorted list follows from the attributes of each name alone, and what was sorted
in another order before makes no difference.
-/

namespace SvgPress.AttributeOrder

variable {order : List String}

/-- What a name is compared by. -/
def key (order : List String) (name : String) : ℕ ×ₗ ℕ ×ₗ String :=
  toLex ((rank order name).1, toLex ((rank order name).2, name))

theorem precedes_iff {a b : String} : precedes order a b ↔ key order a ≤ key order b := by
  simp only [precedes, key, Prod.Lex.toLex_le_toLex, Bool.or_eq_true, Bool.and_eq_true, beq_iff_eq,
    decide_eq_true_eq]

theorem key_injective {a b : String} (h : key order a = key order b) : a = b :=
  congrArg (fun k => (ofLex (ofLex k).2).2) h

theorem precedes_trans (a b c : Attribute) (hab : precedes order a.name b.name)
    (hbc : precedes order b.name c.name) : precedes order a.name c.name := by
  rw [precedes_iff] at hab hbc ⊢
  exact hab.trans hbc

theorem precedes_total (a b : Attribute) :
    precedes order a.name b.name || precedes order b.name a.name := by
  rw [Bool.or_eq_true, precedes_iff, precedes_iff]
  exact le_total _ _

/-- Whether attributes stand in order. -/
def IsSorted (order : List String) (attributes : Attributes) : Prop :=
  List.Pairwise (fun a b => precedes order a.name b.name) attributes

theorem sorted_sort (order : List String) (attributes : Attributes) :
    IsSorted order (sort order attributes) :=
  List.pairwise_mergeSort precedes_trans precedes_total attributes

theorem perm_sort (order : List String) (attributes : Attributes) :
    (sort order attributes).Perm attributes :=
  List.mergeSort_perm _ _

/-- Whether two lists have the same attributes of each name, in the same order. -/
def SameByName (as bs : Attributes) : Prop :=
  ∀ name, List.filter (·.name == name) as = List.filter (·.name == name) bs

namespace SameByName

variable {as bs cs : Attributes}

theorem symm (h : SameByName as bs) : SameByName bs as :=
  fun name => (h name).symm

theorem trans (h : SameByName as bs) (h' : SameByName bs cs) : SameByName as cs :=
  fun name => (h name).trans (h' name)

theorem mem {a : Attribute} (h : SameByName as bs) (ha : a ∈ as) : a ∈ bs := by
  have hself : a ∈ List.filter (·.name == a.name) as :=
    List.mem_filter.mpr ⟨ha, beq_self_eq_true _⟩
  rw [h] at hself
  exact (List.mem_filter.mp hself).1

theorem head_eq {a b : Attribute} (h : SameByName (a :: as) (b :: bs)) (hname : a.name = b.name) :
    a = b := by
  have hheads := h a.name
  rw [List.filter_cons, List.filter_cons, hname, beq_self_eq_true, if_pos rfl, if_pos rfl] at hheads
  exact (List.cons.inj hheads).1

theorem tail {a : Attribute} (h : SameByName (a :: as) (a :: bs)) : SameByName as bs := by
  intro name
  have htails := h name
  rw [List.filter_cons, List.filter_cons] at htails
  split at htails
  · exact (List.cons.inj htails).2
  · exact htails

end SameByName

/-- Attributes of one name are not put in another order. -/
theorem same_sort (order : List String) (attributes : Attributes) :
    SameByName (sort order attributes) attributes := by
  intro name
  have hsorted : IsSorted order (List.filter (·.name == name) attributes) := by
    refine List.pairwise_of_forall_mem_list fun a ha b hb => ?_
    rw [precedes_iff, beq_iff_eq.mp (List.mem_filter.mp ha).2,
      beq_iff_eq.mp (List.mem_filter.mp hb).2]
  have hsub := (List.sublist_mergeSort precedes_trans precedes_total hsorted
    List.filter_sublist).filter (·.name == name)
  rw [List.filter_filter] at hsub
  simp only [Bool.and_self] at hsub
  exact (hsub.eq_of_length ((perm_sort order attributes).filter _).length_eq.symm).symm

theorem IsSorted.head_le {a b : Attribute} {as : Attributes} (h : IsSorted order (a :: as))
    (hb : b ∈ a :: as) : key order a.name ≤ key order b.name := by
  rcases List.mem_cons.mp hb with rfl | hb
  · exact le_rfl
  · exact precedes_iff.mp ((List.pairwise_cons.mp h).1 b hb)

/-- A sorted list is known by its attributes of each name. -/
theorem IsSorted.eq_of_same {as bs : Attributes} (h : IsSorted order as) (h' : IsSorted order bs)
    (hsame : SameByName as bs) : as = bs := by
  induction as generalizing bs with
  | nil =>
      cases bs with
      | nil => rfl
      | cons b bs => cases hsame.symm.mem List.mem_cons_self
  | cons a as ih =>
      cases bs with
      | nil => cases hsame.mem List.mem_cons_self
      | cons b bs =>
          -- neither of the first attributes can stand behind the other
          have hname : a.name = b.name := key_injective (le_antisymm
            (h.head_le (hsame.symm.mem List.mem_cons_self))
            (h'.head_le (hsame.mem List.mem_cons_self)))
          obtain rfl : a = b := hsame.head_eq hname
          rw [ih h.of_cons h'.of_cons hsame.tail]

/-- Only the last of several orders counts. -/
theorem sort_sort (order before : List String) (attributes : Attributes) :
    sort order (sort before attributes) = sort order attributes :=
  (sorted_sort order _).eq_of_same (sorted_sort order _)
    (((same_sort order _).trans (same_sort before _)).trans (same_sort order _).symm)

end SvgPress.AttributeOrder
