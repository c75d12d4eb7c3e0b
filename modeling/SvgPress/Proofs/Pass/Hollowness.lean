import SvgPress.Markup.Position
import SvgPress.Pass.EmptyContainers
import SvgPress.Proofs.Identifiers.Cleanup

/-!
Containers in which there is nothing, and references to them. A container goes if there is nothing
in it but containers that go, whatever its identifier is. So a reference is left without an element
exactly if what it named is hollow, and nothing else that stays has the name.
-/

namespace SvgPress.EmptyContainers

open Node (elements elementsOf tags tagsOf tags_of_append)
open Identifiers (identifiers referenced references)

mutual

/-- Whether a node is a container with nothing in it but such containers. -/
def isHollow : Node → Bool
  | .element tag children => isUseless tag [] && allHollow children
  | .leaf .. => false
termination_by structural n => n

def allHollow : List Node → Bool
  | [] => true
  | n :: rest => isHollow n && allHollow rest
termination_by structural ns => ns

end

/-- The tags of the elements in a list of nodes that are hollow or that are not, in document
order. -/
def tagsWhere (hollow : Bool) (ns : List Node) : List Tag :=
  ((elementsOf ns).filter fun e => isHollow (.element e.1 e.2) == hollow).map Prod.fst

/-- The tags that stay: of the root element, of what is in it and not hollow, and of everything
behind it. -/
def staying : List Node → List Tag
  | [] => []
  | .element tag children :: rest => tag :: (tagsWhere false children ++ tagsOf rest)
  | .leaf .. :: rest => staying rest

/-- The tags that go: of what is hollow in the root element. -/
def leaving : List Node → List Tag
  | [] => []
  | .element _ children :: _ => tagsWhere true children
  | .leaf .. :: rest => leaving rest

/-! ### What stays in a node -/

theorem is_useless_iff {tag : Tag} {children : List Node} :
    isUseless tag children ↔ isUseless tag [] ∧ children = [] := by
  cases children with
  | nil => simp
  | cons n rest => simp [isUseless]

mutual

theorem shrink_eq_nil_iff : (n : Node) → (shrink n = [] ↔ isHollow n)
  | .leaf .. => by simp [shrink, isHollow]
  | .element tag children => by
      rw [shrink, isHollow, Bool.and_eq_true, ← shrink_all_eq_nil_iff children, ← is_useless_iff]
      simp

theorem shrink_all_eq_nil_iff : (ns : List Node) → (shrinkAll ns = [] ↔ allHollow ns)
  | [] => by simp [shrinkAll, allHollow]
  | n :: rest => by
      rw [shrinkAll, allHollow, Bool.and_eq_true, List.append_eq_nil_iff, shrink_eq_nil_iff n,
        shrink_all_eq_nil_iff rest]

end

mutual

/-- Nothing in what is hollow is anything else. -/
theorem hollow_elements : (n : Node) → isHollow n → ∀ e ∈ n.elements, isHollow (.element e.1 e.2)
  | .leaf .., h => by cases h
  | .element tag children, h => by
      rw [elements, List.forall_mem_cons]
      rw [isHollow, Bool.and_eq_true] at h
      refine ⟨?_, hollow_elements_of children h.2⟩
      rw [isHollow, h.1, h.2]
      rfl

theorem hollow_elements_of : (ns : List Node) → allHollow ns →
    ∀ e ∈ elementsOf ns, isHollow (.element e.1 e.2)
  | [], _ => fun e he => absurd he List.not_mem_nil
  | n :: rest, h => by
      rw [allHollow, Bool.and_eq_true] at h
      rw [elementsOf, List.forall_mem_append]
      exact ⟨hollow_elements n h.1, hollow_elements_of rest h.2⟩

end

theorem tags_where_cons (hollow : Bool) (n : Node) (rest : List Node) :
    tagsWhere hollow (n :: rest) = tagsWhere hollow [n] ++ tagsWhere hollow rest := by
  simp [tagsWhere, elementsOf]

theorem tags_where_element (hollow : Bool) (tag : Tag) (children : List Node) :
    tagsWhere hollow [.element tag children] =
      (if isHollow (.element tag children) == hollow then [tag] else []) ++
        tagsWhere hollow children := by
  simp only [tagsWhere, elementsOf, elements, List.append_nil, List.filter_cons]
  split <;> rfl

theorem tags_where_of_hollow {ns : List Node} (h : allHollow ns) : tagsWhere false ns = [] := by
  rw [tagsWhere, List.filter_eq_nil_iff.mpr, List.map_nil]
  intro e he
  rw [hollow_elements_of ns h e he]
  exact Bool.false_ne_true

mutual

/-- What is not hollow stays, in its order. -/
theorem tags_of_shrink : (n : Node) → tagsOf (shrink n) = tagsWhere false [n]
  | .leaf .. => rfl
  | .element tag children => by
      rw [tags_where_element, shrink]
      by_cases hhollow : isHollow (.element tag children)
      · have hgone := hhollow
        rw [isHollow, Bool.and_eq_true] at hgone
        have huseless : isUseless tag (shrinkAll children) :=
          is_useless_iff.mpr ⟨hgone.1, (shrink_all_eq_nil_iff children).mpr hgone.2⟩
        rw [huseless, if_pos rfl, hhollow, tags_where_of_hollow hgone.2]
        rfl
      · have hused : ¬ isUseless tag (shrinkAll children) := by
          rw [is_useless_iff, shrink_all_eq_nil_iff, ← Bool.and_eq_true]
          exact hhollow
        rw [if_neg hused, Bool.eq_false_iff.mpr hhollow, tagsOf, tags, tagsOf, List.append_nil,
          tags_of_shrink_all children]
        rfl

theorem tags_of_shrink_all : (ns : List Node) → tagsOf (shrinkAll ns) = tagsWhere false ns
  | [] => rfl
  | n :: rest => by
      rw [shrinkAll, tags_of_append, tags_of_shrink n, tags_of_shrink_all rest, ← tags_where_cons]

end

mutual

theorem tags_eq_elements : (n : Node) → n.tags = n.elements.map Prod.fst
  | .leaf .. => rfl
  | .element tag children => by
      rw [tags, elements, List.map_cons, tags_eq_elements_of children]

theorem tags_eq_elements_of : (ns : List Node) → tagsOf ns = (elementsOf ns).map Prod.fst
  | [] => rfl
  | n :: rest => by
      rw [tagsOf, elementsOf, List.map_append, tags_eq_elements n, tags_eq_elements_of rest]

end

theorem mem_tags_where_iff {tag : Tag} (ns : List Node) :
    tag ∈ tagsOf ns ↔ tag ∈ tagsWhere false ns ∨ tag ∈ tagsWhere true ns := by
  simp only [tags_eq_elements_of, tagsWhere, List.mem_map, List.mem_filter, beq_iff_eq]
  constructor
  · rintro ⟨e, he, rfl⟩
    cases hhollow : isHollow (.element e.1 e.2) with
    | false => exact .inl ⟨e, ⟨he, hhollow⟩, rfl⟩
    | true => exact .inr ⟨e, ⟨he, hhollow⟩, rfl⟩
  · rintro (⟨e, ⟨he, -⟩, rfl⟩ | ⟨e, ⟨he, -⟩, rfl⟩) <;> exact ⟨e, he, rfl⟩

/-! ### The document -/

/-- What the pass makes of a document. -/
def thinned (doc : Document) : Document :=
  doc.mapRoot fun tag children => .element tag (shrinkAll children)

theorem tags_thinned (doc : Document) : (thinned doc).tags = staying doc.nodes := by
  show tagsOf (Document.mapRoot.go _ doc.nodes) = _
  induction doc.nodes with
  | nil => rfl
  | cons n rest ih =>
      cases n with
      | leaf kind s => exact ih
      | element tag children =>
          rw [Document.mapRoot.go, tagsOf, tags, tags_of_shrink_all, staying, List.cons_append]

theorem mem_tags_iff {tag : Tag} (doc : Document) :
    tag ∈ doc.tags ↔ tag ∈ staying doc.nodes ∨ tag ∈ leaving doc.nodes := by
  show tag ∈ tagsOf doc.nodes ↔ _
  induction doc.nodes with
  | nil => simp [tagsOf, staying, leaving]
  | cons n rest ih =>
      cases n with
      | leaf kind s => exact ih
      | element first children =>
          simp only [tagsOf, tags, staying, leaving, List.mem_append, List.mem_cons,
            mem_tags_where_iff children]
          tauto

/-- Where every reference names an element, every reference that stays still does exactly if nothing
that stays refers to what goes, but for names that something else has. -/
theorem remove_empty_closed_iff (params : Params) {doc : Document}
    (hclosed : ∀ name ∈ referenced doc, name ∈ identifiers doc) :
    ∃ out, removeEmpty.apply params doc = .ok out ∧ out.tags = staying doc.nodes ∧
      ((∀ name ∈ referenced out, name ∈ identifiers out) ↔
        ∀ tag ∈ leaving doc.nodes, ∀ id ∈ tag.attribute? "id",
          (∃ other ∈ staying doc.nodes, other.attribute? "id" = some id) ∨
            ∀ other ∈ staying doc.nodes, ∀ a ∈ other.attributes, id ∉ references a) := by
  have htags := tags_thinned doc
  have hreferenced {name : String} : name ∈ referenced (thinned doc) ↔
      ∃ tag ∈ staying doc.nodes, ∃ a ∈ tag.attributes, name ∈ references a := by
    rw [referenced, htags, List.mem_flatMap]
    simp only [List.mem_flatMap]
  have hidentifiers {name : String} : name ∈ identifiers (thinned doc) ↔
      ∃ tag ∈ staying doc.nodes, tag.attribute? "id" = some name := by
    rw [identifiers, htags, List.mem_filterMap]
  refine ⟨thinned doc, rfl, htags, ?_⟩
  constructor
  · intro h tag _ id _
    by_cases hused : id ∈ referenced (thinned doc)
    · exact .inl (hidentifiers.mp (h id hused))
    · right
      intro other hother a ha hname
      exact hused (hreferenced.mpr ⟨other, hother, a, ha, hname⟩)
  · intro h name hname
    obtain ⟨tag, htag, a, ha, hreference⟩ := hreferenced.mp hname
    -- the reference named an element before, which stays or goes
    have hid := hclosed name
      (Identifiers.mem_referenced ((mem_tags_iff doc).mpr (.inl htag)) ha hreference)
    obtain ⟨named, hnamed, hvalue⟩ := List.mem_filterMap.mp hid
    rcases (mem_tags_iff doc).mp hnamed with hstays | hgoes
    · exact hidentifiers.mpr ⟨named, hstays, hvalue⟩
    · rcases h named hgoes name hvalue with hother | hfree
      · exact hidentifiers.mpr hother
      · exact absurd hreference (hfree tag htag a ha)

/-- A group in which there is only an empty group, a mask with content, and a reference to it. -/
def layered : Document :=
  ⟨[.element ⟨"svg", []⟩
    [.element ⟨"g", []⟩ [.element ⟨"g", [⟨"id", "x"⟩]⟩ []],
      .element ⟨"mask", [⟨"id", "m"⟩]⟩ [.element ⟨"rect", []⟩ []],
      .element ⟨"rect", [⟨"mask", "url(#m)"⟩]⟩ []]]⟩

theorem remove_empty_layered :
    ∃ out, removeEmpty.apply [] layered = .ok out ∧
      out.tags =
        [⟨"svg", []⟩, ⟨"mask", [⟨"id", "m"⟩]⟩, ⟨"rect", []⟩, ⟨"rect", [⟨"mask", "url(#m)"⟩]⟩] ∧
      ∀ name ∈ referenced out, name ∈ identifiers out := by
  have hclosed : ∀ name ∈ referenced layered, name ∈ identifiers layered := by decide +kernel
  obtain ⟨out, happly, htags, hiff⟩ := remove_empty_closed_iff [] hclosed
  exact ⟨out, happly, by rw [htags]; decide +kernel, hiff.mpr (by decide +kernel)⟩

/-- A mask with no content, which hides what refers to it. -/
def masked : Document :=
  ⟨[.element ⟨"svg", []⟩
    [.element ⟨"mask", [⟨"id", "m"⟩]⟩ [], .element ⟨"rect", [⟨"mask", "url(#m)"⟩]⟩ []]]⟩

/-- The mask goes, and the reference to it stays. -/
theorem mask_removed :
    (∀ name ∈ referenced masked, name ∈ identifiers masked) ∧
      ∃ out, removeEmpty.apply [] masked = .ok out ∧ "m" ∈ referenced out ∧ "m" ∉ identifiers out :=
  ⟨by decide +kernel, _, rfl, by decide +kernel, by decide +kernel⟩

end SvgPress.EmptyContainers
