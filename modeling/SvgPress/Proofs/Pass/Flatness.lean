import SvgPress.Proofs.Markup.Sites
import SvgPress.Proofs.Pass.Cuts
import SvgPress.Proofs.Pass.Dissolving

/-!
Groups that are left. Dissolving works from the inside out, and what it does around a group cannot
make that group one that could be dissolved: attributes that are handed to it come to those that it
has. So no such group is left after one run, and a second run finds nothing to do.
-/

namespace SvgPress.Groups

open Node (elementsOf elements elements_of_append)

/-- Whether an element can hand all its attributes to its only child. -/
def canHoist (tag : Tag) : List Node → Bool
  | [.element child _] => canHandDown tag.attributes child
  | _ => false

/-- Whether an element is no group that can be dissolved. -/
def StaysGroup (tag : Tag) (children : List Node) : Prop :=
  tag.name = "g" → tag.attributes ≠ [] ∧ canHoist tag children = false

/-- Whether no group in some nodes can be dissolved. -/
def IsFlat (ns : List Node) : Prop :=
  ∀ e ∈ elementsOf ns, StaysGroup e.1 e.2

theorem can_hoist_eq_false_iff {tag : Tag} {children : List Node} :
    canHoist tag children = false ↔
      ∀ child below, children = [.element child below] →
        canHandDown tag.attributes child = false := by
  unfold canHoist
  split
  · simp
  · rename_i hnot
    simp only [true_iff]
    intro child below h
    exact absurd h (hnot child below)

/-! ### What stops a group from being dissolved -/

/-- The names of a child's attributes are there still when others have been handed down to it. -/
theorem names_hand_down_all_subset (attributes : Attributes) (child : Tag) :
    child.attributes.map (·.name) ⊆
      (Tag.attributes (attributes.foldl handDown child)).map (·.name) := by
  induction attributes generalizing child with
  | nil => exact fun name hname => hname
  | cons a rest ih =>
      obtain ⟨value, hset, -⟩ := hand_down_eq child a
      intro name hname
      rw [List.foldl_cons, hset]
      apply ih
      show name ∈ (Attributes.set child.attributes a.name value).map (·.name)
      rw [Attributes.names_set]
      split
      · exact hname
      · exact List.mem_append_left _ hname

/-- More attributes cannot be handed down more easily. -/
theorem cannot_hand_down_more {group more : Attributes} {child : Tag}
    (hsub : group.map (·.name) ⊆ more.map (·.name)) (h : canHandDown group child = false) :
    canHandDown more child = false := by
  simp only [canHandDown, Bool.not_eq_false', List.any_eq_true] at h ⊢
  obtain ⟨a, ha, hstop⟩ := h
  obtain ⟨b, hb, hname⟩ := List.mem_map.mp (hsub (List.mem_map_of_mem ha))
  refine ⟨b, hb, ?_⟩
  rw [show b.name = a.name from hname]
  exact hstop

/-- A group that was not to be dissolved stays so when attributes are handed down to it. -/
theorem stays_handed_down {attributes : Attributes} {child : Tag} {below : List Node}
    (h : StaysGroup child below) : StaysGroup (attributes.foldl handDown child) below := by
  intro hname
  rw [hand_down_all_name] at hname
  obtain ⟨hsome, hcannot⟩ := h hname
  have hsub := names_hand_down_all_subset attributes child
  constructor
  · intro hnone
    apply hsome
    rw [hnone, List.map_nil] at hsub
    exact List.map_eq_nil_iff.mp (List.subset_nil.mp hsub)
  · rw [can_hoist_eq_false_iff] at hcannot ⊢
    intro inner deeper hbelow
    exact cannot_hand_down_more hsub (hcannot inner deeper hbelow)

/-! ### One run -/

theorem flat_element {tag : Tag} {children : List Node} :
    IsFlat [.element tag children] ↔ StaysGroup tag children ∧ IsFlat children := by
  rw [IsFlat, elementsOf, elementsOf, List.append_nil, elements, List.forall_mem_cons]
  rfl

theorem flat_append {ns ms : List Node} : IsFlat (ns ++ ms) ↔ IsFlat ns ∧ IsFlat ms := by
  rw [IsFlat, elements_of_append, List.forall_mem_append]
  rfl

/-- What stands in the place of an element is flat if its children are. -/
theorem flat_dissolve {tag : Tag} {children : List Node} (h : IsFlat children) :
    IsFlat (dissolve tag children) := by
  unfold dissolve
  split
  · rename_i hname
    rw [flat_element]
    refine ⟨fun hgroup => ?_, h⟩
    simp [hgroup] at hname
  · split
    · exact h
    · rename_i hsome
      have hattributes : tag.attributes ≠ [] := by simpa using hsome
      split
      · rename_i child below
        split
        · -- the child gets what the group says, and its own children stay as they are
          rw [flat_element] at h ⊢
          exact ⟨stays_handed_down h.1, h.2⟩
        · rename_i hcannot
          rw [flat_element]
          exact ⟨fun _ => ⟨hattributes, by simpa [canHoist] using hcannot⟩, h⟩
      · rename_i hnot
        rw [flat_element]
        refine ⟨fun _ => ⟨hattributes, ?_⟩, h⟩
        rw [can_hoist_eq_false_iff]
        intro child below hone
        exact absurd hone (hnot child below)

mutual

theorem flat_collapse : (n : Node) → IsFlat (collapse n)
  | .leaf kind s => by
      intro e he
      simp [collapse, elementsOf, elements] at he
  | .element tag children => by
      rw [collapse]
      exact flat_dissolve (flat_collapse_all children)

/-- After one run no group is left that could be dissolved. -/
theorem flat_collapse_all : (ns : List Node) → IsFlat (collapseAll ns)
  | [] => fun e he => absurd he List.not_mem_nil
  | n :: ns => by
      rw [collapseAll, flat_append]
      exact ⟨flat_collapse n, flat_collapse_all ns⟩

end

/-- Only nodes without such groups stay as they are. -/
theorem collapse_all_eq_self_iff (ns : List Node) : collapseAll ns = ns ↔ IsFlat ns := by
  rw [(shrinks_collapse_all ns false).eq_iff]
  apply Node.everywhere_in_iff_elements
  · intro kept kind s
    trivial
  · intro kept tag children
    rw [StaysGroup, can_hoist_eq_false_iff]
    rfl

/-- One run dissolves every group that can be dissolved, the ones that become so on the way
included: below the root there is no group without attributes and none that could hand its
attributes to an only child. A document stays as it is exactly if it has none of these, so a second
run changes nothing. -/
theorem collapse_groups_flat (params : Params) (doc : Document) :
    ∃ out, collapseGroups.apply params doc = .ok out ∧
      (∀ root ∈ out.root?, ∀ e ∈ elementsOf root.2, e.1.name = "g" →
        e.1.attributes ≠ [] ∧ canHoist e.1 e.2 = false) ∧
      (out = doc ↔ ∀ root ∈ doc.root?, IsFlat root.2) ∧
      ∀ again, collapseGroups.apply again out = .ok out := by
  refine ⟨_, rfl, ?_, ?_, ?_⟩
  · rw [Document.root_within]
    intro root hroot
    obtain ⟨old, -, rfl⟩ := Option.map_eq_some_iff.mp hroot
    exact flat_collapse_all old.2
  · rw [Document.within_eq_self_iff]
    simp only [collapse_all_eq_self_iff]
  · intro again
    have hself (ns : List Node) : collapseAll (collapseAll ns) = collapseAll ns :=
      (collapse_all_eq_self_iff _).mpr (flat_collapse_all ns)
    exact congrArg Except.ok (Document.within_again collapseAll hself doc)

end SvgPress.Groups
