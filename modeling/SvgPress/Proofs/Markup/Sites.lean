import SvgPress.Markup.Position
import SvgPress.Proofs.Markup.Reread

/-!
The nodes of a tree where they stand. A site is a node with the nodes around it, and a tree has its
sites in document order. Nodes may be taken away by a test that looks at a node and at what is
around it; what remains then are the sites that passed with everything around them, in their order,
and each of them looks as it did.
-/

namespace SvgPress

/-- A node with the nodes around it, innermost first. -/
structure Site where
  outer : List Node
  node : Node
  deriving DecidableEq, Repr

/-- A node without what stands in it. -/
def Node.bare : Node → Node
  | .element tag _ => .element tag []
  | .leaf kind s => .leaf kind s

namespace Site

/-- The nodes from a site outwards, its own first. -/
def trail (site : Site) : List Node :=
  site.node :: site.outer

/-- What is seen of a site without a look at what else stands in its nodes. -/
def outline (site : Site) : Site :=
  ⟨site.outer.map Node.bare, site.node.bare⟩

end Site

namespace Node

mutual

/-- The sites of a node and of all that stands in it, in document order. -/
def sites (outer : List Node) : Node → List Site
  | .element tag children =>
    ⟨outer, .element tag children⟩ :: sitesOf (.element tag children :: outer) children
  | .leaf kind s => [⟨outer, .leaf kind s⟩]
termination_by structural n => n

def sitesOf (outer : List Node) : List Node → List Site
  | [] => []
  | n :: rest => n.sites outer ++ sitesOf outer rest
termination_by structural ns => ns

end

mutual

/-- Take away from a node what fails a test where it stands, with all that is in it. -/
def sift (keep : List Node → Node → Bool) (outer : List Node) : Node → Node
  | .element tag children => .element tag (siftAll keep (.element tag children :: outer) children)
  | .leaf kind s => .leaf kind s
termination_by structural n => n

def siftAll (keep : List Node → Node → Bool) (outer : List Node) : List Node → List Node
  | [] => []
  | n :: rest =>
    if keep outer n then n.sift keep outer :: siftAll keep outer rest else siftAll keep outer rest
termination_by structural ns => ns

end

/-- Whether a node passes a test where it stands, and so does everything around it. -/
def stays (keep : List Node → Node → Bool) : List Node → Bool
  | [] => true
  | n :: outer => keep outer n && stays keep outer

end Node

/-- All sites of a document, in document order. -/
def Document.sites (doc : Document) : List Site :=
  Node.sitesOf [] doc.nodes

namespace Node

theorem bare_sift (keep : List Node → Node → Bool) (outer : List Node) (n : Node) :
    (n.sift keep outer).bare = n.bare := by
  cases n <;> rfl

theorem site_of_mem {n : Node} {ns : List Node} (hn : n ∈ ns) (outer : List Node) :
    ⟨outer, n⟩ ∈ sitesOf outer ns := by
  induction ns with
  | nil => cases hn
  | cons first ns ih =>
      rw [sitesOf, List.mem_append]
      rcases List.mem_cons.mp hn with rfl | hlater
      · left
        cases n with
        | element tag children => exact List.mem_cons_self
        | leaf kind s => exact List.mem_cons_self
      · exact .inr (ih hlater)

theorem mem_tags_of {n : Node} {ns : List Node} (hn : n ∈ ns) {tag : Tag} (htag : tag ∈ n.tags) :
    tag ∈ tagsOf ns := by
  induction ns with
  | nil => cases hn
  | cons first ns ih =>
      rw [tagsOf, List.mem_append]
      rcases List.mem_cons.mp hn with rfl | hlater
      · exact .inl htag
      · exact .inr (ih hlater)

/-! ### What is around a node -/

mutual

/-- What holds of a node if it holds of something right in it holds of all that is around a site at
which it holds. -/
theorem around_site {p : Node → Prop}
    (hup : ∀ {tag children n}, n ∈ children → p n → p (.element tag children)) : (n : Node) →
    (outer : List Node) → ∀ site ∈ n.sites outer, p site.node →
      p n ∧ ∀ m ∈ site.outer, m ∈ outer ∨ p m
  | .leaf kind s, outer => by
      intro site hsite hp
      obtain rfl := List.mem_singleton.mp hsite
      exact ⟨hp, fun m hm => .inl hm⟩
  | .element tag children, outer => by
      intro site hsite hp
      rcases List.mem_cons.mp hsite with rfl | hbelow
      · exact ⟨hp, fun m hm => .inl hm⟩
      · obtain ⟨⟨n, hn, hpn⟩, houter⟩ := around_site_of hup children _ site hbelow hp
        have hself : p (.element tag children) := hup hn hpn
        refine ⟨hself, fun m hm => ?_⟩
        rcases houter m hm with hmem | hpm
        · rcases List.mem_cons.mp hmem with rfl | hmem
          · exact .inr hself
          · exact .inl hmem
        · exact .inr hpm

theorem around_site_of {p : Node → Prop}
    (hup : ∀ {tag children n}, n ∈ children → p n → p (.element tag children)) : (ns : List Node) →
    (outer : List Node) → ∀ site ∈ sitesOf outer ns, p site.node →
      (∃ n ∈ ns, p n) ∧ ∀ m ∈ site.outer, m ∈ outer ∨ p m
  | [], _ => fun site hsite => absurd hsite List.not_mem_nil
  | n :: ns, outer => by
      intro site hsite hp
      rcases List.mem_append.mp hsite with hhere | hthere
      · obtain ⟨hpn, houter⟩ := around_site hup n outer site hhere hp
        exact ⟨⟨n, List.mem_cons_self, hpn⟩, houter⟩
      · obtain ⟨⟨m, hm, hpm⟩, houter⟩ := around_site_of hup ns outer site hthere hp
        exact ⟨⟨m, List.mem_cons_of_mem n hm, hpm⟩, houter⟩

end

/-! ### What remains -/

mutual

theorem stays_of_mem_sites {keep : List Node → Node → Bool} : (n : Node) → (outer : List Node) →
    ∀ site ∈ n.sites outer, stays keep site.trail → stays keep (n :: outer)
  | .leaf kind s, outer => by
      intro site hsite hstays
      obtain rfl := List.mem_singleton.mp hsite
      exact hstays
  | .element tag children, outer => by
      intro site hsite hstays
      rcases List.mem_cons.mp hsite with rfl | hbelow
      · exact hstays
      · exact stays_of_mem_sites_of children _ site hbelow hstays

theorem stays_of_mem_sites_of {keep : List Node → Node → Bool} : (ns : List Node) →
    (outer : List Node) → ∀ site ∈ sitesOf outer ns, stays keep site.trail → stays keep outer
  | [], _ => fun site hsite => absurd hsite List.not_mem_nil
  | n :: ns, outer => by
      intro site hsite hstays
      rcases List.mem_append.mp hsite with hhere | hthere
      · have hn := stays_of_mem_sites n outer site hhere hstays
        rw [stays, Bool.and_eq_true] at hn
        exact hn.2
      · exact stays_of_mem_sites_of ns outer site hthere hstays

end

mutual

theorem outlines_sift {keep : List Node → Node → Bool} : (n : Node) → {outer other : List Node} →
    other.map bare = outer.map bare → stays keep (n :: outer) →
    ((n.sift keep outer).sites other).map Site.outline =
      ((n.sites outer).filter fun site => stays keep site.trail).map Site.outline
  | .leaf kind s, outer, other, hsame, hstays => by
      have hkept : stays keep (Site.trail ⟨outer, .leaf kind s⟩) := hstays
      simp only [sift, sites, List.filter_cons, hkept, if_true, List.filter_nil, List.map_cons,
        List.map_nil, Site.outline, hsame]
  | .element tag children, outer, other, hsame, hstays => by
      have hkept : stays keep (Site.trail ⟨outer, .element tag children⟩) := hstays
      have houter : ((element tag children).sift keep outer :: other).map bare =
          (element tag children :: outer).map bare := by
        rw [List.map_cons, List.map_cons, bare_sift, hsame]
      have hbelow := outlines_sift_all children houter hstays
      rw [sift] at hbelow ⊢
      rw [sites, sites, List.filter_cons, if_pos hkept, List.map_cons, List.map_cons, hbelow]
      simp only [Site.outline, hsame, bare]

/-- What remains are the sites that pass with all that is around them, in their order. -/
theorem outlines_sift_all {keep : List Node → Node → Bool} : (ns : List Node) →
    {outer other : List Node} → other.map bare = outer.map bare → stays keep outer →
    (sitesOf other (siftAll keep outer ns)).map Site.outline =
      ((sitesOf outer ns).filter fun site => stays keep site.trail).map Site.outline
  | [], _, _, _, _ => rfl
  | n :: ns, outer, other, hsame, houter => by
      have hrest := outlines_sift_all ns hsame houter
      rw [siftAll, sitesOf, List.filter_append, List.map_append, ← hrest]
      split
      · rename_i hn
        have hstays : stays keep (n :: outer) := by rw [stays, hn, houter]; rfl
        rw [sitesOf, List.map_append, outlines_sift n hsame hstays]
      · rename_i hn
        have hgone : (n.sites outer).filter (fun site => stays keep site.trail) = [] := by
          rw [List.filter_eq_nil_iff]
          intro site hsite hstays
          have hself := stays_of_mem_sites n outer site hsite hstays
          rw [stays, Bool.and_eq_true] at hself
          exact hn hself.1
        rw [hgone, List.map_nil, List.nil_append]

end

/-! ### Tests of nodes alone -/

mutual

theorem prune_eq_sift (keep : Node → Bool) : (n : Node) → (outer : List Node) →
    n.prune keep = n.sift (fun _ m => keep m) outer
  | .leaf .., _ => rfl
  | .element tag children, outer => by
      rw [prune, sift, prune_all_eq_sift keep children]

theorem prune_all_eq_sift (keep : Node → Bool) : (ns : List Node) → (outer : List Node) →
    pruneAll keep ns = siftAll (fun _ m => keep m) outer ns
  | [], _ => rfl
  | n :: ns, outer => by
      rw [pruneAll, siftAll, ← prune_eq_sift keep n outer, ← prune_all_eq_sift keep ns outer]

end

theorem stays_alone (keep : Node → Bool) (trail : List Node) :
    stays (fun _ m => keep m) trail = trail.all keep := by
  induction trail with
  | nil => rfl
  | cons n outer ih => rw [stays, List.all_cons, ih]

/-- Where a node is kept if anything in it is, all depends on the node itself. -/
theorem outlines_prune_all {keep : Node → Bool}
    (hup : ∀ {tag children n}, n ∈ children → keep n → keep (.element tag children))
    (ns : List Node) : (sitesOf [] (pruneAll keep ns)).map Site.outline =
      ((sitesOf [] ns).filter fun site => keep site.node).map Site.outline := by
  rw [prune_all_eq_sift keep ns [], outlines_sift_all ns rfl rfl]
  congr 1
  apply List.filter_congr
  intro site hsite
  rw [stays_alone, Site.trail, List.all_cons]
  cases hkeep : keep site.node with
  | false => rfl
  | true =>
      obtain ⟨-, houter⟩ := around_site_of (p := fun m => keep m) hup ns [] site hsite hkeep
      rw [Bool.true_and, List.all_eq_true]
      intro m hm
      exact (houter m hm).resolve_left List.not_mem_nil

/-! ### Elements with their children -/

mutual

/-- What leaves do not matter for, nor what is around, holds everywhere if it holds of all
elements. -/
theorem everywhere_iff_elements {p : Bool → Node → Prop} {q : Tag → List Node → Prop}
    (hleaf : ∀ kept kind s, p kept (.leaf kind s))
    (helement : ∀ kept tag children, p kept (.element tag children) ↔ q tag children) :
    (n : Node) → (kept : Bool) → (n.Everywhere p kept ↔ ∀ e ∈ n.elements, q e.1 e.2)
  | .leaf kind s, kept => by simp [Everywhere, elements, hleaf]
  | .element tag children, kept => by
      rw [Everywhere, elements, List.forall_mem_cons, helement,
        everywhere_in_iff_elements hleaf helement children]

theorem everywhere_in_iff_elements {p : Bool → Node → Prop} {q : Tag → List Node → Prop}
    (hleaf : ∀ kept kind s, p kept (.leaf kind s))
    (helement : ∀ kept tag children, p kept (.element tag children) ↔ q tag children) :
    (ns : List Node) → (kept : Bool) → (EverywhereIn p kept ns ↔ ∀ e ∈ elementsOf ns, q e.1 e.2)
  | [], _ => by simp [EverywhereIn, elementsOf]
  | n :: ns, kept => by
      rw [EverywhereIn, elementsOf, List.forall_mem_append,
        everywhere_iff_elements hleaf helement n, everywhere_in_iff_elements hleaf helement ns]

end

theorem elements_of_append (ns ms : List Node) :
    elementsOf (ns ++ ms) = elementsOf ns ++ elementsOf ms := by
  induction ns with
  | nil => rfl
  | cons n ns ih => rw [List.cons_append, elementsOf, elementsOf, ih, List.append_assoc]

end Node

/-! ### The root element -/

namespace Document

/-- A document with a root is that element, with leaves before it and anything behind it. -/
theorem split_root {doc : Document} {tag : Tag} {children : List Node}
    (h : doc.root? = some (tag, children)) : ∃ before after,
      (∀ n ∈ before, n.isElement = false) ∧
        doc.nodes = before ++ .element tag children :: after := by
  obtain ⟨ns⟩ := doc
  induction ns with
  | nil => cases h
  | cons n ns ih =>
      cases n with
      | element first below =>
          obtain ⟨rfl, rfl⟩ := Prod.mk.inj (Option.some.inj h)
          exact ⟨[], ns, by simp, rfl⟩
      | leaf kind s =>
          obtain ⟨before, after, hbefore, hnodes⟩ := ih h
          refine ⟨.leaf kind s :: before, after, ?_, ?_⟩
          · rw [List.forall_mem_cons]
            exact ⟨rfl, hbefore⟩
          · exact congrArg (Node.leaf kind s :: ·) hnodes

theorem map_root_split (f : Tag → List Node → Node) {before : List Node}
    (hbefore : ∀ n ∈ before, n.isElement = false) (tag : Tag) (children after : List Node) :
    mapRoot.go f (before ++ .element tag children :: after) =
      before ++ f tag children :: after := by
  induction before with
  | nil => rfl
  | cons n before ih =>
      rw [List.forall_mem_cons] at hbefore
      cases n with
      | element first below => cases hbefore.1
      | leaf kind s =>
          rw [List.cons_append, mapRoot.go, ih hbefore.2]
          rfl

section Within

variable (cut : List Node → List Node)

theorem root_within (doc : Document) :
    (doc.mapRoot fun tag children => .element tag (cut children)).root? =
      doc.root?.map fun root => (root.1, cut root.2) := by
  obtain ⟨ns⟩ := doc
  induction ns with
  | nil => rfl
  | cons n ns ih =>
      cases n with
      | element tag children => rfl
      | leaf kind s => exact ih

/-- A change within the root element changes nothing exactly if it changes none of its children. -/
theorem within_eq_self_iff (doc : Document) :
    (doc.mapRoot fun tag children => .element tag (cut children)) = doc ↔
      ∀ root ∈ doc.root?, cut root.2 = root.2 := by
  obtain ⟨ns⟩ := doc
  induction ns with
  | nil => simp [mapRoot, mapRoot.go, root?]
  | cons n ns ih =>
      cases n with
      | element tag children => simp [mapRoot, mapRoot.go, root?]
      | leaf kind s =>
          refine Iff.trans ?_ ih
          simp [mapRoot, mapRoot.go]

/-- A change of children that is done once and for all is so within the root element. -/
theorem within_again (hcut : ∀ ns, cut (cut ns) = cut ns) (doc : Document) :
    ((doc.mapRoot fun tag children => .element tag (cut children)).mapRoot
        fun tag children => .element tag (cut children)) =
      doc.mapRoot fun tag children => .element tag (cut children) := by
  rw [within_eq_self_iff, root_within]
  intro root hroot
  obtain ⟨old, -, rfl⟩ := Option.map_eq_some_iff.mp hroot
  exact hcut old.2

end Within

end Document

end SvgPress
