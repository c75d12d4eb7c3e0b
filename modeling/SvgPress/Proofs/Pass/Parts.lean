import SvgPress.Proofs.Markup.Names
import SvgPress.Proofs.Pass.Dissolving

/-!
The parts of a document: its elements without what stands in them, and its leaves. Passes take parts
away and change tags, and the only other thing they do is to hand the attributes of a group down. So
what is true of every part, and does not depend on what stands in it, is easily kept.
-/

namespace SvgPress

open Markup Node

namespace Node

mutual

/-- A node and its descendants in document order, each without its children. -/
def parts : Node → List Node
  | .element tag children => .element tag [] :: partsOf children
  | .leaf kind s => [.leaf kind s]
termination_by structural n => n

def partsOf : List Node → List Node
  | [] => []
  | n :: rest => n.parts ++ partsOf rest
termination_by structural ns => ns

end

theorem parts_of_append (ns ms : List Node) : partsOf (ns ++ ms) = partsOf ns ++ partsOf ms := by
  induction ns with
  | nil => rfl
  | cons n ns ih => rw [List.cons_append, partsOf, partsOf, ih, List.append_assoc]

theorem parts_of_one (n : Node) : partsOf [n] = n.parts := by
  rw [partsOf, partsOf, List.append_nil]

/-- Whether a property of nodes does not look at what stands in them. -/
def IsShallow (p : Node → Prop) : Prop :=
  ∀ tag children, p (.element tag children) ↔ p (.element tag [])

mutual

theorem everywhere_iff_parts {p : Node → Prop} (hp : IsShallow p) : (n : Node) → (kept : Bool) →
    (n.Everywhere (fun _ n => p n) kept ↔ ∀ part ∈ n.parts, p part)
  | .leaf .., _ => by simp [Everywhere, parts]
  | .element tag children, kept => by
      rw [Everywhere, parts, List.forall_mem_cons, hp tag children,
        everywhere_in_iff_parts hp children]

/-- Such a property holds everywhere exactly if it holds of every part. -/
theorem everywhere_in_iff_parts {p : Node → Prop} (hp : IsShallow p) : (ns : List Node) →
    (kept : Bool) → (EverywhereIn (fun _ n => p n) kept ns ↔ ∀ part ∈ partsOf ns, p part)
  | [], _ => by simp [EverywhereIn, partsOf]
  | n :: ns, kept => by
      rw [EverywhereIn, partsOf, List.forall_mem_append, everywhere_iff_parts hp n,
        everywhere_in_iff_parts hp ns]

end

/-- What is true of every tag is true of every part that has one. -/
theorem tags_iff_parts {q : Tag → Prop} (ns : List Node) :
    (∀ tag ∈ tagsOf ns, q tag) ↔ ∀ part ∈ partsOf ns, part.HasTag q := by
  have hshallow : IsShallow (HasTag q) := fun _ _ => Iff.rfl
  rw [← everywhere_in_iff_parts hshallow ns false]
  exact ⟨everywhere_in_of_tags ns false, tags_of_everywhere_in ns false⟩

mutual

theorem parts_map_tags (g : Tag → Tag) : (n : Node) → (n.mapTags g).parts = n.parts.map (mapTags g)
  | .leaf .. => rfl
  | .element tag children => by
      rw [mapTags, parts, parts, List.map_cons, parts_map_tags_of g children]
      rfl

theorem parts_map_tags_of (g : Tag → Tag) : (ns : List Node) →
    partsOf (mapTagsOf g ns) = (partsOf ns).map (mapTags g)
  | [] => rfl
  | n :: ns => by
      rw [mapTagsOf, partsOf, partsOf, List.map_append, parts_map_tags g n, parts_map_tags_of g ns]

end

mutual

theorem parts_prune (keep : Node → Bool) : (n : Node) → (n.prune keep).parts.Sublist n.parts
  | .leaf .. => List.Sublist.refl _
  | .element tag children => by
      rw [prune, parts, parts]
      exact (parts_prune_all keep children).cons_cons _

theorem parts_prune_all (keep : Node → Bool) : (ns : List Node) →
    (partsOf (pruneAll keep ns)).Sublist (partsOf ns)
  | [] => List.Sublist.refl _
  | n :: ns => by
      rw [pruneAll]
      split
      · exact (parts_prune keep n).append (parts_prune_all keep ns)
      · exact (parts_prune_all keep ns).trans (List.sublist_append_right _ _)

end

mutual

theorem leaf_of_mem_parts_prune {keep : Node → Bool} {kind : LeafKind} {s : String} :
    (n : Node) → keep n → .leaf kind s ∈ (n.prune keep).parts → keep (.leaf kind s)
  | .leaf .., hkeep, hmem => by
      obtain ⟨rfl, rfl⟩ : kind = _ ∧ s = _ := by simpa [prune, parts] using hmem
      exact hkeep
  | .element tag children, _, hmem => by
      rw [prune, parts] at hmem
      rcases List.mem_cons.mp hmem with hself | hmem
      · cases hself
      · exact leaf_of_mem_parts_prune_all children hmem

/-- The leaves that stay pass the test. -/
theorem leaf_of_mem_parts_prune_all {keep : Node → Bool} {kind : LeafKind} {s : String} :
    (ns : List Node) → .leaf kind s ∈ partsOf (pruneAll keep ns) → keep (.leaf kind s)
  | n :: ns, hmem => by
      rw [pruneAll] at hmem
      split at hmem
      · rename_i hkeep
        rcases List.mem_append.mp hmem with hmem | hmem
        · exact leaf_of_mem_parts_prune n hkeep hmem
        · exact leaf_of_mem_parts_prune_all ns hmem
      · exact leaf_of_mem_parts_prune_all ns hmem

end

/-- The parts of what stands in a root element that changed inside. -/
theorem parts_map_root {cut : List Node → List Node} {p : Node → Prop}
    (hcut : ∀ ns, (∀ part ∈ partsOf ns, p part) → ∀ part ∈ partsOf (cut ns), p part)
    {ns : List Node} (h : ∀ part ∈ partsOf ns, p part) :
    ∀ part ∈ partsOf (Document.mapRoot.go (fun tag children => .element tag (cut children)) ns),
      p part := by
  induction ns with
  | nil => exact h
  | cons n ns ih =>
      rw [partsOf, List.forall_mem_append] at h
      cases n with
      | element tag children =>
          obtain ⟨hroot, hrest⟩ := h
          rw [parts, List.forall_mem_cons] at hroot
          rw [Document.mapRoot.go, partsOf, List.forall_mem_append, parts, List.forall_mem_cons]
          exact ⟨⟨hroot.1, hcut children hroot.2⟩, hrest⟩
      | leaf kind s =>
          rw [Document.mapRoot.go, partsOf, List.forall_mem_append]
          exact ⟨h.1, ih h.2⟩

end Node

namespace Definitions

mutual

theorem parts_tidy : (n : Node) → (tidy n).parts.Sublist n.parts
  | .leaf .. => List.Sublist.refl _
  | .element tag children => by
      rw [tidy, parts, parts]
      exact (parts_tidy_all (tag.name == "defs") children).cons_cons _

theorem parts_tidy_all (inDefinitions : Bool) : (ns : List Node) →
    (partsOf (tidyAll inDefinitions ns)).Sublist (partsOf ns)
  | [] => List.Sublist.refl _
  | n :: ns => by
      rw [tidyAll]
      split
      · exact (parts_tidy_all inDefinitions ns).trans (List.sublist_append_right _ _)
      · exact (parts_tidy n).append (parts_tidy_all inDefinitions ns)

end

end Definitions

namespace EmptyContainers

mutual

theorem parts_shrink : (n : Node) → (partsOf (shrink n)).Sublist n.parts
  | .leaf .. => List.Sublist.refl _
  | .element tag children => by
      rw [shrink]
      split
      · exact List.nil_sublist _
      · rw [parts_of_one, parts, parts]
        exact (parts_shrink_all children).cons_cons _

theorem parts_shrink_all : (ns : List Node) → (partsOf (shrinkAll ns)).Sublist (partsOf ns)
  | [] => List.Sublist.refl _
  | n :: ns => by
      rw [shrinkAll, parts_of_append]
      exact (parts_shrink n).append (parts_shrink_all ns)

end

end EmptyContainers

namespace Groups

/-- Whether a property of parts stays true when attributes are handed down. -/
def HandsDown (p : Node → Prop) : Prop :=
  ∀ group child, p (.element group []) → p (.element child []) →
    p (.element (group.attributes.foldl handDown child) [])

theorem parts_dissolve {p : Node → Prop} (hdown : HandsDown p) {tag : Tag} {children : List Node}
    (htag : p (.element tag [])) (hchildren : ∀ part ∈ partsOf children, p part) :
    ∀ part ∈ partsOf (dissolve tag children), p part := by
  have hstays : ∀ part ∈ partsOf [.element tag children], p part := by
    rw [parts_of_one, parts, List.forall_mem_cons]
    exact ⟨htag, hchildren⟩
  unfold dissolve
  split
  · exact hstays
  · split
    · exact hchildren
    · split
      · rename_i child below
        split
        · rw [parts_of_one, parts, List.forall_mem_cons] at hchildren ⊢
          exact ⟨hdown tag child htag hchildren.1, hchildren.2⟩
        · exact hstays
      · exact hstays

mutual

theorem parts_collapse {p : Node → Prop} (hdown : HandsDown p) : (n : Node) →
    (∀ part ∈ n.parts, p part) → ∀ part ∈ partsOf (collapse n), p part
  | .leaf .., h => h
  | .element _ children, h => by
      rw [parts, List.forall_mem_cons] at h
      exact parts_dissolve hdown h.1 (parts_collapse_all hdown children h.2)

/-- What is true of all parts stays so while groups are dissolved. -/
theorem parts_collapse_all {p : Node → Prop} (hdown : HandsDown p) : (ns : List Node) →
    (∀ part ∈ partsOf ns, p part) → ∀ part ∈ partsOf (collapseAll ns), p part
  | [], h => h
  | n :: ns, h => by
      rw [partsOf, List.forall_mem_append] at h
      rw [collapseAll, parts_of_append, List.forall_mem_append]
      exact ⟨parts_collapse hdown n h.1, parts_collapse_all hdown ns h.2⟩

end

end Groups

/-! ### Names -/

/-- A tag whose names are names of the markup language, each attribute standing once. -/
structure Tag.IsXml (tag : Tag) : Prop where
  name : isXmlName tag.name.toList
  keys : ∀ a ∈ tag.attributes, isXmlName a.name.toList
  distinct : (tag.attributes.map (·.name)).Nodup

namespace Tag.IsXml

variable {tag other : Tag}

/-- Fewer attributes, or the same ones with other values. -/
theorem of_sublist (h : tag.IsXml) (hname : other.name = tag.name)
    (hsub : (other.attributes.map (·.name)).Sublist (tag.attributes.map (·.name))) :
    other.IsXml where
  name := by rw [hname]; exact h.name
  keys a ha := by
    obtain ⟨b, hb, hbname⟩ := List.mem_map.mp (hsub.subset (List.mem_map_of_mem ha))
    rw [← hbname]
    exact h.keys b hb
  distinct := h.distinct.sublist hsub

theorem map_values (h : tag.IsXml) (f : Attribute → String) : (tag.mapValues f).IsXml :=
  h.of_sublist rfl (by rw [Tag.mapValues, List.map_map]; exact List.Sublist.refl _)

theorem keep (h : tag.IsXml) (keep : Attribute → Bool) : (tag.keepAttributes keep).IsXml :=
  h.of_sublist rfl (List.Sublist.map _ List.filter_sublist)

theorem remove (h : tag.IsXml) (name : String) : (tag.removeAttribute name).IsXml :=
  h.of_sublist rfl (List.Sublist.map _ List.eraseP_sublist)

theorem set (h : tag.IsXml) {name : String} (hname : isXmlName name.toList) (value : String) :
    (tag.setAttribute name value).IsXml where
  name := h.name
  keys b hb := by
    rcases Attributes.mem_set hb with hold | rfl
    · exact h.keys b hold
    · exact hname
  distinct := Attributes.nodup_set h.distinct value

theorem plain (h : tag.IsXml) : tag.IsPlain :=
  ⟨plain_name_of_xml_name h.name, fun a ha => plain_key_of_xml_name (h.keys a ha), h.distinct⟩

theorem hand_down_all {attributes : Attributes}
    (hkeys : ∀ a ∈ attributes, isXmlName a.name.toList) (h : tag.IsXml) :
    Tag.IsXml (attributes.foldl Groups.handDown tag) := by
  induction attributes generalizing tag with
  | nil => exact h
  | cons a rest ih =>
      rw [List.forall_mem_cons] at hkeys
      obtain ⟨value, hset, -⟩ := Groups.hand_down_eq tag a
      rw [List.foldl_cons, hset]
      exact ih hkeys.2 (h.set hkeys.1 value)

end Tag.IsXml

end SvgPress
