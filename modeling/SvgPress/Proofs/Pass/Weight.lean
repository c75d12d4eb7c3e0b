import Mathlib.Algebra.Order.BigOperators.Group.List
import Mathlib.Algebra.Order.Ring.Nat
import SvgPress.Proofs.Pass.Cuts
import SvgPress.Proofs.Pass.Parts

/-!
The weight of a document: its nodes and its attributes, counted together. Neither count falls in
every pass that changes a document: a view box comes where two lengths go, and attributes of a group
go to its child while the group goes. Their sum falls in every pass that takes something away.
-/

namespace SvgPress

namespace Attributes

variable {attributes : Attributes} {name : String}

theorem length_set_le (value : String) :
    (attributes.set name value).length ≤ attributes.length + 1 := by
  rw [← List.length_map (·.name), names_set]
  split <;> simp

theorem length_remove_of_has (h : attributes.has name) :
    (attributes.remove name).length + 1 = attributes.length := by
  obtain ⟨a, ha, hname⟩ := List.any_eq_true.mp h
  rw [remove, List.length_eraseP_of_mem ha hname,
    Nat.sub_add_cancel (List.length_pos_of_mem ha)]

theorem remove_of_lacks (h : attributes.has name = false) : attributes.remove name = attributes :=
  List.eraseP_of_forall_not fun a ha => List.any_eq_false.mp h a ha

end Attributes

namespace Node

/-- How many attributes the elements among some nodes and their descendants have. -/
def attributeCount (ns : List Node) : Nat :=
  ((tagsOf ns).map (·.attributes.length)).sum

def weight (ns : List Node) : Nat :=
  countAll ns + attributeCount ns

theorem attribute_count_append (ns ms : List Node) :
    attributeCount (ns ++ ms) = attributeCount ns + attributeCount ms := by
  rw [attributeCount, tags_of_append, List.map_append, List.sum_append]
  rfl

theorem attribute_count_cons (n : Node) (ns : List Node) :
    attributeCount (n :: ns) = attributeCount [n] + attributeCount ns :=
  attribute_count_append [n] ns

theorem attribute_count_element (tag : Tag) (children : List Node) :
    attributeCount [.element tag children] = tag.attributes.length + attributeCount children := by
  simp [attributeCount, tagsOf, tags]

theorem weight_cons (n : Node) (ns : List Node) : weight (n :: ns) = weight [n] + weight ns := by
  rw [weight, attribute_count_cons, countAll, weight, count_all_one, weight, Nat.add_add_add_comm]

/-- The tag of a part. -/
def tag? : Node → Option Tag
  | .element tag _ => some tag
  | .leaf .. => none

mutual

theorem tags_eq_parts : (n : Node) → n.tags = n.parts.filterMap tag?
  | .leaf .. => rfl
  | .element tag children => by
      rw [tags, parts, tags_of_eq_parts children]
      rfl

theorem tags_of_eq_parts : (ns : List Node) → tagsOf ns = (partsOf ns).filterMap tag?
  | [] => rfl
  | n :: ns => by
      rw [tagsOf, partsOf, List.filterMap_append, tags_eq_parts n, tags_of_eq_parts ns]

end

/-- Fewer parts have no more attributes. -/
theorem attribute_count_le_of_parts {ns ms : List Node} (h : (partsOf ms).Sublist (partsOf ns)) :
    attributeCount ms ≤ attributeCount ns := by
  rw [attributeCount, attributeCount, tags_of_eq_parts, tags_of_eq_parts]
  exact ((h.filterMap tag?).map _).sum_le_sum fun _ _ => Nat.zero_le _

end Node

open Node

namespace Groups

theorem length_hand_down_all_le (attributes : Attributes) (child : Tag) :
    (Tag.attributes (attributes.foldl handDown child)).length ≤
      attributes.length + child.attributes.length := by
  induction attributes generalizing child with
  | nil => exact Nat.le_add_left _ _
  | cons a rest ih =>
      obtain ⟨value, hset, -⟩ := hand_down_eq child a
      rw [List.foldl_cons, hset, List.length_cons]
      have hone : (child.setAttribute a.name value).attributes.length ≤
          child.attributes.length + 1 :=
        Attributes.length_set_le value
      have hrest := ih (child.setAttribute a.name value)
      omega

theorem attribute_count_dissolve (tag : Tag) (children : List Node) :
    attributeCount (dissolve tag children) ≤ tag.attributes.length + attributeCount children := by
  have hstays := Nat.le_of_eq (attribute_count_element tag children)
  unfold dissolve
  split
  · exact hstays
  · split
    · exact Nat.le_add_left _ _
    · split
      · rename_i child below
        split
        · rw [attribute_count_element, attribute_count_element]
          have hdown := length_hand_down_all_le tag.attributes child
          omega
        · exact hstays
      · exact hstays

mutual

theorem attribute_count_collapse : (n : Node) → attributeCount (collapse n) ≤ attributeCount [n]
  | .leaf .. => Nat.le_refl _
  | .element tag children => by
      rw [collapse, attribute_count_element]
      exact (attribute_count_dissolve tag _).trans
        (Nat.add_le_add_left (attribute_count_collapse_all children) _)

/-- The attributes of a group go no further than to its child. -/
theorem attribute_count_collapse_all : (ns : List Node) →
    attributeCount (collapseAll ns) ≤ attributeCount ns
  | [] => Nat.le_refl _
  | n :: ns => by
      rw [collapseAll, attribute_count_append, attribute_count_cons]
      exact Nat.add_le_add (attribute_count_collapse n) (attribute_count_collapse_all ns)

end

end Groups

/-! ### Changes that make lighter -/

def Document.weight (doc : Document) : Nat :=
  Node.weight doc.nodes

/-- Whether a change makes every document lighter that it does not leave as it is. -/
def Thins (change : Document → Document) : Prop :=
  ∀ doc, change doc = doc ∨ (change doc).weight < doc.weight

/-- Of two changes one after the other it is enough that one makes smaller. -/
theorem same_or_less_trans {α : Type} (size : α → Nat) {a b c : α} (h : b = a ∨ size b < size a)
    (h' : c = b ∨ size c < size b) : c = a ∨ size c < size a := by
  rcases h with rfl | hless
  · exact h'
  · exact .inr (h'.elim (fun hsame => hsame ▸ hless) fun hless' => hless'.trans hless)

theorem Thins.comp {change next : Document → Document} (hnext : Thins next) (h : Thins change) :
    Thins fun doc => next (change doc) :=
  fun doc => same_or_less_trans Document.weight (h doc) (hnext (change doc))

/-- A cut that takes no attributes along but those of what it takes away. -/
theorem weight_of_cut {cut : List Node → List Node} {p : List Node → Prop}
    (hcut : ∀ ns, Shrinks countAll ns (cut ns) (p ns))
    (hcount : ∀ ns, attributeCount (cut ns) ≤ attributeCount ns) (ns : List Node) :
    cut ns = ns ∨ weight (cut ns) < weight ns :=
  (hcut ns).same_or_less.imp_right fun hless => Nat.add_lt_add_of_lt_of_le hless (hcount ns)

theorem thins_of_cut {cut : List Node → List Node}
    (hcut : ∀ ns, cut ns = ns ∨ weight (cut ns) < weight ns) : Thins fun doc => ⟨cut doc.nodes⟩ :=
  fun doc => (hcut doc.nodes).imp_left (congrArg Document.mk)

theorem thins_map_root {f : Tag → List Node → Node}
    (h : ∀ tag children, f tag children = .element tag children ∨
      weight [f tag children] < weight [.element tag children]) : Thins (·.mapRoot f) := by
  refine thins_of_cut fun ns => ?_
  induction ns with
  | nil => exact .inl rfl
  | cons n rest ih =>
      cases n with
      | element tag children =>
          rw [Document.mapRoot.go]
          refine (h tag children).imp (congrArg (· :: rest)) fun hless => ?_
          rw [weight_cons, weight_cons (.element tag children)]
          exact Nat.add_lt_add_right hless _
      | leaf kind content =>
          rw [Document.mapRoot.go]
          refine ih.imp (congrArg (Node.leaf kind content :: ·)) fun hless => ?_
          rw [weight_cons, weight_cons _ rest]
          exact Nat.add_lt_add_left hless _

theorem thins_map_tags {f : Tag → Tag}
    (h : ∀ tag, f tag = tag ∨ (f tag).attributes.length < tag.attributes.length) :
    Thins (·.mapTags f) := by
  intro doc
  by_cases hsame : ∀ tag ∈ doc.tags, f tag = tag
  · exact .inl (Document.map_tags_eq_self_iff.mpr hsame)
  · push Not at hsame
    obtain ⟨tag, htag, hchanged⟩ := hsame
    refine .inr (Nat.add_lt_add_of_le_of_lt (Nat.le_of_eq (count_all_map_tags f doc.nodes)) ?_)
    change attributeCount (mapTagsOf f doc.nodes) < attributeCount doc.nodes
    have htags : tagsOf (mapTagsOf f doc.nodes) = (tagsOf doc.nodes).map f :=
      tags_of_map_tags f doc.nodes
    rw [attributeCount, attributeCount, htags, List.map_map]
    refine List.sum_lt_sum _ _ (fun tag _ => ?_) ⟨tag, htag, (h tag).resolve_left hchanged⟩
    rcases h tag with hsame | hless
    · exact Nat.le_of_eq (congrArg (·.attributes.length) hsame)
    · exact Nat.le_of_lt hless

theorem thins_keep (keep : Tag → Attribute → Bool) :
    Thins (·.mapTags fun tag => tag.keepAttributes (keep tag)) := by
  refine thins_map_tags fun tag => ?_
  by_cases hall : ∀ a ∈ tag.attributes, keep tag a
  · exact .inl (congrArg (Tag.mk tag.name) (List.filter_eq_self.mpr hall))
  · refine .inr (Nat.lt_of_le_of_ne (List.length_filter_le _ _) fun hlength => hall ?_)
    exact List.length_filter_eq_length_iff.mp hlength

theorem thins_prune (keep : Node → Bool) : Thins (·.prune keep) :=
  thins_of_cut (weight_of_cut (fun ns => shrinks_prune_all keep ns false)
    fun ns => attribute_count_le_of_parts (parts_prune_all keep ns))

/-- A change of what stands in the root element. -/
theorem thins_within {cut : List Node → List Node}
    (hcut : ∀ ns, cut ns = ns ∨ weight (cut ns) < weight ns) :
    Thins (·.mapRoot fun tag children => .element tag (cut children)) := by
  refine thins_map_root fun tag children => (hcut children).imp (congrArg (Node.element tag)) ?_
  intro hless
  simp only [weight, count_all_one, count, attribute_count_element] at hless ⊢
  omega

/-! ### The passes -/

namespace EditorData

theorem thins_strip (prefixes : List String) : Thins (strip prefixes) := by
  intro doc
  unfold strip
  split
  · exact .inl rfl
  · exact (thins_keep fun _ => isOwn prefixes).comp (thins_prune _) doc

end EditorData

namespace Definitions

theorem thins_tidy : Thins fun doc => ⟨tidyAll false doc.nodes⟩ :=
  thins_of_cut (weight_of_cut (fun ns => shrinks_tidy_all false ns false)
    fun ns => attribute_count_le_of_parts (parts_tidy_all false ns))

end Definitions

namespace EmptyContainers

theorem thins_shrink : Thins (·.mapRoot fun tag children => .element tag (shrinkAll children)) :=
  thins_within (weight_of_cut (fun ns => shrinks_shrink_all ns false)
    fun ns => attribute_count_le_of_parts (parts_shrink_all ns))

end EmptyContainers

namespace Groups

theorem thins_collapse :
    Thins (·.mapRoot fun tag children => .element tag (collapseAll children)) :=
  thins_within (weight_of_cut (fun ns => shrinks_collapse_all ns false)
    attribute_count_collapse_all)

end Groups

namespace AttributeRemoval

theorem remove_shortens (tag : Tag) (name : String) : tag.removeAttribute name = tag ∨
    (tag.removeAttribute name).attributes.length < tag.attributes.length := by
  cases h : tag.attributes.has name with
  | false => exact .inl (congrArg (Tag.mk tag.name) (Attributes.remove_of_lacks h))
  | true => exact .inr (Nat.lt_of_succ_le (Nat.le_of_eq (Attributes.length_remove_of_has h)))

/-- Where a view box is made, it takes the place of two attributes. -/
theorem length_view_box {tag : Tag} {width height : String}
    (hwidth : tag.attribute? "width" = some width)
    (hheight : tag.attribute? "height" = some height) (value : String) :
    (((tag.setAttribute "viewBox" value).removeAttribute "width").removeAttribute
      "height").attributes.length < tag.attributes.length := by
  let wide := tag.attributes.set "viewBox" value
  have hset : wide.length ≤ tag.attributes.length + 1 := Attributes.length_set_le value
  have hfirst : (wide.remove "width").length + 1 = wide.length :=
    Attributes.length_remove_of_has (Attributes.has_of_get
      ((Attributes.get_set_of_ne (by decide) value).trans hwidth))
  have hsecond : ((wide.remove "width").remove "height").length + 1 =
      (wide.remove "width").length :=
    Attributes.length_remove_of_has (Attributes.has_of_get
      ((Attributes.get_remove_of_ne (by decide)).trans
        ((Attributes.get_set_of_ne (by decide) value).trans hheight)))
  change ((wide.remove "width").remove "height").length < tag.attributes.length
  omega

theorem without_size_shortens (tag : Tag) : withoutSize tag = tag ∨
    (withoutSize tag).attributes.length < tag.attributes.length := by
  unfold withoutSize
  split
  · exact same_or_less_trans (fun tag : Tag => tag.attributes.length)
      (remove_shortens tag "width") (remove_shortens _ "height")
  · split
    · rename_i hwidth hheight
      obtain ⟨width, hwidth, -⟩ := Option.bind_eq_some_iff.mp hwidth
      obtain ⟨height, hheight, -⟩ := Option.bind_eq_some_iff.mp hheight
      exact .inr (length_view_box hwidth hheight _)
    · exact .inl rfl

theorem thins_without_size :
    Thins (·.mapRoot fun tag children => .element (withoutSize tag) children) := by
  refine thins_map_root fun tag children => (without_size_shortens tag).imp ?_ fun hless => ?_
  · exact congrArg (Node.element · children)
  · simp only [weight, count_all_one, count, attribute_count_element]
    omega

theorem thins_rules (rules : List Rule) : Thins (·.mapTags (applyRules rules)) :=
  thins_keep fun tag a => !rules.any (·.meets tag.name a.name)

end AttributeRemoval

end SvgPress
