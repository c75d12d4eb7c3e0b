import SvgPress.Proofs.Markup.Sites
import SvgPress.Proofs.Pass.Cuts

/-!
What is left of definitions. In a `<defs>` a node stays if an element with an identifier or a style
sheet stands in it, so all of these stay, whatever they are nested in, and all that is around them.
Nothing else that goes could have been referred to.
-/

namespace SvgPress.Definitions

open Node (elementsOf elements tags tagsOf sift siftAll stays)

/-- Whether an element has to stay: one with an identifier, or a style sheet. -/
def isNeeded (tag : Tag) : Bool :=
  tag.hasAttribute "id" || tag.name == "style"

/-- Whether a node is of use where it stands: as a child of `<defs>` only if it can be referred
to. -/
def isUseful (outer : List Node) (n : Node) : Bool :=
  !outer.head?.any (·.isNamed "defs") || isReferable n

/-! ### What can be referred to -/

mutual

theorem referable_iff : (n : Node) → (isReferable n ↔ ∃ tag ∈ n.tags, isNeeded tag)
  | .leaf .. => by simp [isReferable, tags]
  | .element tag children => by
      rw [isReferable, Bool.or_eq_true, any_referable_iff children, tags]
      simp only [List.mem_cons, or_and_right, exists_or, exists_eq_left]
      rfl

theorem any_referable_iff : (ns : List Node) →
    (anyReferable ns ↔ ∃ tag ∈ tagsOf ns, isNeeded tag)
  | [] => by simp [anyReferable, tagsOf]
  | n :: ns => by
      rw [anyReferable, Bool.or_eq_true, referable_iff n, any_referable_iff ns, tagsOf]
      simp only [List.mem_append, or_and_right, exists_or]

end

theorem filter_tags_of_not_referable {n : Node} (h : isReferable n = false) :
    n.tags.filter isNeeded = [] := by
  rw [List.filter_eq_nil_iff]
  intro tag htag hneeded
  rw [(referable_iff n).mpr ⟨tag, htag, hneeded⟩] at h
  cases h

theorem referable_around {tag : Tag} {children : List Node} {n : Node} (hn : n ∈ children)
    (h : isReferable n) : isReferable (.element tag children) := by
  obtain ⟨needed, hmem, hneeded⟩ := (referable_iff n).mp h
  rw [referable_iff, tags]
  exact ⟨needed, List.mem_cons_of_mem _ (Node.mem_tags_of hn hmem), hneeded⟩

/-! ### One run -/

mutual

theorem tidy_eq_sift : (n : Node) → (outer : List Node) → tidy n = n.sift isUseful outer
  | .leaf .., _ => rfl
  | .element tag children, outer => by
      rw [tidy, sift, ← tidy_all_eq_sift children (.element tag children :: outer)]
      rfl

theorem tidy_all_eq_sift : (ns : List Node) → (outer : List Node) →
    tidyAll (outer.head?.any (·.isNamed "defs")) ns = siftAll isUseful outer ns
  | [], _ => rfl
  | n :: ns, outer => by
      rw [tidyAll, siftAll, tidy_eq_sift n outer, tidy_all_eq_sift ns outer, isUseful]
      cases outer.head?.any (·.isNamed "defs") <;> cases isReferable n <;> rfl

end

mutual

theorem needed_tidy : (n : Node) → (tidy n).tags.filter isNeeded = n.tags.filter isNeeded
  | .leaf .. => rfl
  | .element tag children => by
      rw [tidy, tags, tags, List.filter_cons, List.filter_cons, needed_tidy_all _ children]

/-- The elements that have to stay do, in their order. -/
theorem needed_tidy_all (inDefinitions : Bool) : (ns : List Node) →
    (tagsOf (tidyAll inDefinitions ns)).filter isNeeded = (tagsOf ns).filter isNeeded
  | [] => rfl
  | n :: ns => by
      have hrest := needed_tidy_all inDefinitions ns
      rw [tidyAll, tagsOf, List.filter_append]
      split
      · rename_i hgone
        have hnone : isReferable n = false := by
          rw [Bool.and_eq_true, Bool.not_eq_true'] at hgone
          exact hgone.2
        rw [filter_tags_of_not_referable hnone, List.nil_append, hrest]
      · rw [tagsOf, List.filter_append, needed_tidy n, hrest]

end

theorem referable_tidy (n : Node) : isReferable (tidy n) = isReferable n := by
  have hsame (m : Node) : isReferable m ↔ ∃ tag, tag ∈ m.tags.filter isNeeded := by
    simp only [referable_iff, List.mem_filter]
  rw [Bool.eq_iff_iff, hsame, hsame, needed_tidy]

theorem referable_of_mem_tidy_all (ns : List Node) : ∀ n ∈ tidyAll true ns, isReferable n := by
  induction ns with
  | nil => exact fun n hn => absurd hn List.not_mem_nil
  | cons n ns ih =>
      rw [tidyAll]
      cases hreferable : isReferable n with
      | false => exact ih
      | true =>
          rw [if_neg (by simp), List.forall_mem_cons, referable_tidy, hreferable]
          exact ⟨rfl, ih⟩

mutual

theorem tidied : (n : Node) → ∀ e ∈ (tidy n).elements, e.1.name = "defs" →
    ∀ m ∈ e.2, isReferable m
  | .leaf .. => fun e he => absurd he List.not_mem_nil
  | .element tag children => by
      rw [tidy, elements, List.forall_mem_cons]
      refine ⟨fun hname => ?_, tidied_all _ children⟩
      have hdefs : (tag.name == "defs") = true := beq_iff_eq.mpr hname
      rw [hdefs]
      exact referable_of_mem_tidy_all children

/-- After one run all that is left in definitions can be referred to. -/
theorem tidied_all (inDefinitions : Bool) : (ns : List Node) →
    ∀ e ∈ elementsOf (tidyAll inDefinitions ns), e.1.name = "defs" → ∀ m ∈ e.2, isReferable m
  | [] => fun e he => absurd he List.not_mem_nil
  | n :: ns => by
      rw [tidyAll]
      split
      · exact tidied_all inDefinitions ns
      · rw [elementsOf, List.forall_mem_append]
        exact ⟨tidied n, tidied_all inDefinitions ns⟩

end

theorem tidy_all_eq_self {ns : List Node}
    (h : ∀ e ∈ elementsOf ns, e.1.name = "defs" → ∀ m ∈ e.2, isReferable m) :
    tidyAll false ns = ns := by
  apply (shrinks_tidy_all false ns false).same
  constructor
  · intro hinside
    cases hinside
  · refine (Node.everywhere_in_iff_elements (q := fun tag children =>
      tag.name = "defs" → ∀ m ∈ children, isReferable m) ?_ ?_ ns false).mpr h
    · intro kept kind s
      trivial
    · intro kept tag children
      rfl

/-! ### What stays -/

/-- Around what can be referred to all can be. -/
theorem stays_of_referable {trail : List Node} (h : ∀ n ∈ trail, isReferable n) :
    stays isUseful trail := by
  induction trail with
  | nil => rfl
  | cons n outer ih =>
      rw [List.forall_mem_cons] at h
      rw [stays, isUseful, h.1, ih h.2, Bool.or_true]
      rfl

/-- What an element that has to stay stands in stays with it. -/
theorem stays_of_needed {doc : Document} {site : Site} (hsite : site ∈ doc.sites) {tag : Tag}
    (htag : tag ∈ site.node.tags) (hneeded : isNeeded tag) : stays isUseful site.trail := by
  have hreferable : isReferable site.node := (referable_iff site.node).mpr ⟨tag, htag, hneeded⟩
  obtain ⟨-, houter⟩ := Node.around_site_of (p := fun m => isReferable m) referable_around
    doc.nodes [] site hsite hreferable
  apply stays_of_referable
  rw [Site.trail, List.forall_mem_cons]
  exact ⟨hreferable, fun m hm => (houter m hm).resolve_left List.not_mem_nil⟩

theorem stays_of_no_defs {trail : List Node} (h : ∀ n ∈ trail.tail, n.isNamed "defs" = false) :
    stays isUseful trail := by
  induction trail with
  | nil => rfl
  | cons n outer ih =>
      have houter : outer.head?.any (·.isNamed "defs") = false := by
        cases outer with
        | nil => rfl
        | cons m rest => exact h m List.mem_cons_self
      rw [stays, isUseful, houter, ih fun m hm => h m (List.mem_of_mem_tail hm)]
      rfl

/-- What remains of a document are its nodes but for the children of definitions that cannot be
referred to and all that is in them, in their order and in the same elements. All elements with
identifiers and all style sheets are among what remains, and nothing outside of definitions goes.
What goes holds none of these, whereas each child that is left in definitions does, so a second run
changes nothing. -/
theorem remove_useless_sites (params : Params) (doc : Document) :
    ∃ out, removeUseless.apply params doc = .ok out ∧
      out.sites.map Site.outline =
        (doc.sites.filter fun site => stays isUseful site.trail).map Site.outline ∧
      out.tags.filter isNeeded = doc.tags.filter isNeeded ∧
      (∀ site ∈ doc.sites, (∀ n ∈ site.outer, n.isNamed "defs" = false) →
        stays isUseful site.trail) ∧
      (∀ site ∈ doc.sites, stays isUseful site.trail = false →
        ∀ tag ∈ site.node.tags, isNeeded tag = false) ∧
      (∀ e ∈ elementsOf out.nodes, e.1.name = "defs" →
        ∀ n ∈ e.2, n.isElement ∧ ∃ tag ∈ n.tags, isNeeded tag) ∧
      ∀ again, removeUseless.apply again out = .ok out := by
  have htidied := tidied_all false doc.nodes
  have hagain : tidyAll false (tidyAll false doc.nodes) = tidyAll false doc.nodes :=
    tidy_all_eq_self htidied
  refine ⟨⟨tidyAll false doc.nodes⟩, rfl, ?_, needed_tidy_all false doc.nodes, ?_, ?_, ?_, ?_⟩
  · have hsift : tidyAll false doc.nodes = siftAll isUseful [] doc.nodes :=
      tidy_all_eq_sift doc.nodes []
    rw [Document.sites, hsift]
    exact Node.outlines_sift_all doc.nodes rfl rfl
  · intro site _ houtside
    exact stays_of_no_defs houtside
  · intro site hsite hgone tag htag
    rw [Bool.eq_false_iff]
    intro hneeded
    rw [stays_of_needed hsite htag hneeded] at hgone
    cases hgone
  · intro e he hname n hn
    have hreferable := htidied e he hname n hn
    refine ⟨?_, (referable_iff n).mp hreferable⟩
    cases n with
    | element tag children => rfl
    | leaf kind s => cases hreferable
  · intro again
    exact congrArg (fun ns => Except.ok (Document.mk ns)) hagain

end SvgPress.Definitions
