import SvgPress.Proofs.Markup.Sites
import SvgPress.Proofs.Pass.Cuts
import SvgPress.Proofs.Pass.Hollowness

/-!
What is left when empty containers go. They go from the inside out, but in the end a node is gone
exactly if it was hollow from the start: a container with nothing in it but hollow nodes. So what is
left can be told from the document as it was, and all of it stays where it stood.
-/

namespace SvgPress.EmptyContainers

open Node (elementsOf elements elements_of_append sitesOf pruneAll)

/-- Whether an element goes when there is nothing in it: a container, but for a pattern that takes
its content from another one. -/
def MayGo (tag : Tag) : Prop :=
  tag.name ∈ containers ∧
    ¬ (tag.name = "pattern" ∧ (tag.hasAttribute "href" ∨ tag.hasAttribute "xlink:href"))

theorem may_go_iff {tag : Tag} : MayGo tag ↔ isUseless tag [] := by
  simp only [MayGo, isUseless, List.isEmpty_nil, Bool.and_true, Bool.and_eq_true,
    List.contains_iff_mem, Bool.not_eq_true', Bool.eq_false_iff, beq_iff_eq, Bool.or_eq_true, ne_eq]

/-! ### What is hollow -/

theorem all_hollow_iff (ns : List Node) : allHollow ns ↔ ∀ n ∈ ns, isHollow n := by
  induction ns with
  | nil => simp [allHollow]
  | cons n ns ih => rw [allHollow, Bool.and_eq_true, ih, List.forall_mem_cons]

/-- What is around something that is not hollow is not hollow either. -/
theorem not_hollow_around {tag : Tag} {children : List Node} {n : Node} (hn : n ∈ children)
    (h : !isHollow n) : !isHollow (.element tag children) := by
  rw [Bool.not_eq_true'] at h ⊢
  rw [Bool.eq_false_iff]
  intro hhollow
  rw [isHollow, Bool.and_eq_true, all_hollow_iff] at hhollow
  rw [hhollow.2 n hn] at h
  cases h

/-- A container is left exactly if something in it is, at any depth. -/
theorem container_left_iff {tag : Tag} (hgo : MayGo tag) (below : List Node) :
    isHollow (.element tag below) = false ↔
      ∃ site ∈ sitesOf [] below, isHollow site.node = false := by
  constructor
  · intro h
    rw [isHollow, may_go_iff.mp hgo, Bool.true_and, ← Bool.not_eq_true, all_hollow_iff] at h
    push Not at h
    obtain ⟨n, hn, hleft⟩ := h
    exact ⟨⟨[], n⟩, Node.site_of_mem hn [], Bool.eq_false_iff.mpr hleft⟩
  · rintro ⟨site, hsite, hleft⟩
    obtain ⟨⟨n, hn, hnleft⟩, -⟩ := Node.around_site_of (p := fun m => !isHollow m)
      not_hollow_around below [] site hsite (by rw [hleft]; rfl)
    simpa using not_hollow_around hn hnleft

/-! ### One run -/

mutual

theorem shrink_eq_prune : (n : Node) →
    shrink n = if isHollow n then [] else [n.prune fun m => !isHollow m]
  | .leaf .. => rfl
  | .element tag children => by
      have hgone : isUseless tag (shrinkAll children) = isHollow (.element tag children) := by
        rw [Bool.eq_iff_iff, is_useless_iff, shrink_all_eq_nil_iff, ← Bool.and_eq_true, isHollow]
      rw [shrink, hgone, Node.prune, shrink_all_eq_prune children]

/-- The containers that go are those that were hollow before. -/
theorem shrink_all_eq_prune : (ns : List Node) → shrinkAll ns = pruneAll (fun m => !isHollow m) ns
  | [] => rfl
  | n :: ns => by
      rw [shrinkAll, pruneAll, shrink_eq_prune n, shrink_all_eq_prune ns]
      cases isHollow n <;> rfl

end

mutual

theorem used_shrink : (n : Node) → ∀ e ∈ elementsOf (shrink n), isUseless e.1 e.2 = false
  | .leaf .. => fun e he => absurd he List.not_mem_nil
  | .element tag children => by
      rw [shrink]
      split
      · exact fun e he => absurd he List.not_mem_nil
      · rename_i hused
        rw [elementsOf, elementsOf, List.append_nil, elements, List.forall_mem_cons]
        exact ⟨Bool.eq_false_iff.mpr hused, used_shrink_all children⟩

/-- After one run no container is left that could go. -/
theorem used_shrink_all : (ns : List Node) →
    ∀ e ∈ elementsOf (shrinkAll ns), isUseless e.1 e.2 = false
  | [] => fun e he => absurd he List.not_mem_nil
  | n :: ns => by
      rw [shrinkAll, elements_of_append, List.forall_mem_append]
      exact ⟨used_shrink n, used_shrink_all ns⟩

end

theorem shrink_all_eq_self_iff (ns : List Node) :
    shrinkAll ns = ns ↔ ∀ e ∈ elementsOf ns, isUseless e.1 e.2 = false := by
  rw [(shrinks_shrink_all ns false).eq_iff]
  apply Node.everywhere_in_iff_elements (q := fun tag children => isUseless tag children = false)
  · intro kept kind s
    trivial
  · intro kept tag children
    rfl

/-- In the root element no container is left that is empty. What goes are the hollow nodes, and all
else stays in its order, in the same elements and with the same attributes: leaves, elements that do
not go when they are empty, and of the containers those that something is left in. The root and what
is outside of it stay, and a second run changes nothing. -/
theorem remove_empty_leaves (params : Params) {doc : Document} {tag : Tag} {children : List Node}
    (hroot : doc.root? = some (tag, children)) :
    ∃ out before kept after, removeEmpty.apply params doc = .ok out ∧
      (∀ n ∈ before, n.isElement = false) ∧
      doc.nodes = before ++ .element tag children :: after ∧
      out.nodes = before ++ .element tag kept :: after ∧
      (∀ e ∈ elementsOf kept, isUseless e.1 e.2 = false) ∧
      (sitesOf [] kept).map Site.outline =
        ((sitesOf [] children).filter fun site => !isHollow site.node).map Site.outline ∧
      (∀ kind s, isHollow (.leaf kind s) = false) ∧
      (∀ other below, ¬ MayGo other → isHollow (.element other below) = false) ∧
      (∀ other below, MayGo other → (isHollow (.element other below) = false ↔
        ∃ site ∈ sitesOf [] below, isHollow site.node = false)) ∧
      ∀ again, removeEmpty.apply again out = .ok out := by
  obtain ⟨before, after, hbefore, hnodes⟩ := Document.split_root hroot
  have hused := used_shrink_all children
  have hout : (thinned doc).nodes = before ++ .element tag (shrinkAll children) :: after := by
    show Document.mapRoot.go _ doc.nodes = _
    rw [hnodes]
    exact Document.map_root_split _ hbefore tag children after
  have hself (ns : List Node) : shrinkAll (shrinkAll ns) = shrinkAll ns :=
    (shrink_all_eq_self_iff _).mpr (used_shrink_all ns)
  refine ⟨thinned doc, before, shrinkAll children, after, rfl, hbefore, hnodes, hout, hused, ?_,
    fun _ _ => rfl, ?_, fun other below hgo => container_left_iff hgo below, ?_⟩
  · rw [shrink_all_eq_prune]
    exact Node.outlines_prune_all not_hollow_around children
  · intro other below hstays
    rw [may_go_iff, Bool.not_eq_true] at hstays
    rw [isHollow, hstays, Bool.false_and]
  · intro again
    exact congrArg Except.ok (Document.within_again shrinkAll hself doc)

/-- Groups around a comment and around nothing, a pattern that takes its content from another one,
and an empty one. -/
def sparse : Document :=
  ⟨[.leaf .declaration "xml", .element ⟨"svg", []⟩
    [.element ⟨"g", [⟨"id", "a"⟩]⟩ [.element ⟨"g", []⟩ [], .leaf .comment "b"],
      .element ⟨"g", []⟩ [.element ⟨"a", []⟩ [], .element ⟨"pattern", []⟩ []],
      .element ⟨"defs", []⟩ [.element ⟨"pattern", [⟨"href", "#c"⟩]⟩ []]]]⟩

theorem remove_empty_leaves_sparse :
    ∃ tag children, sparse.root? = some (tag, children) ∧
      ∃ out before kept after, removeEmpty.apply [] sparse = .ok out ∧
        out.nodes = before ++ .element tag kept :: after ∧
        (sitesOf [] kept).map (fun site => site.node.bare) =
          [.element ⟨"g", [⟨"id", "a"⟩]⟩ [], .leaf .comment "b", .element ⟨"defs", []⟩ [],
            .element ⟨"pattern", [⟨"href", "#c"⟩]⟩ []] := by
  have hroot : sparse.root? = some _ := rfl
  obtain ⟨out, before, kept, after, happly, -, -, hnodes, -, hsites, -⟩ :=
    remove_empty_leaves [] hroot
  refine ⟨_, _, hroot, out, before, kept, after, happly, hnodes, ?_⟩
  have hbare := congrArg (List.map Site.node) hsites
  rw [List.map_map, List.map_map] at hbare
  refine hbare.trans ?_
  decide +kernel

end SvgPress.EmptyContainers
