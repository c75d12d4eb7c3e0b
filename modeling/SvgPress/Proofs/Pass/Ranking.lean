import Mathlib.Data.List.TakeWhile
import SvgPress.Proofs.Pass.Descriptions
import SvgPress.Proofs.Pass.Sorting

/-!
Sorted attributes are in a canonical order. Where a name stands is said by rules of its own: the
default namespace comes first, then the prefixed ones, then what a given order lists, by the name or
by the part of it before the first hyphen, and then the rest; names of one place stand by their
letters. The rules order all names, whatever list is given, so elements with the same attributes
become the same.
-/

namespace SvgPress

/-- Nodes that are the same but for the tags, each of which is related to its counterpart. -/
inductive Retagged (r : Tag → Tag → Prop) : List Node → List Node → Prop
  | nil : Retagged r [] []
  | leaf (kind : LeafKind) (s : String) {ns ms : List Node} (hrest : Retagged r ns ms) :
      Retagged r (.leaf kind s :: ns) (.leaf kind s :: ms)
  | element {tag tag' : Tag} {children children' ns ms : List Node} (htag : r tag tag')
      (hbelow : Retagged r children children') (hrest : Retagged r ns ms) :
      Retagged r (.element tag children :: ns) (.element tag' children' :: ms)

namespace Retagged

variable {r : Tag → Tag → Prop} {f : Tag → Tag}

theorem map_tags (hf : ∀ tag, r tag (f tag)) : (ns : List Node) →
    Retagged r ns (Node.mapTagsOf f ns)
  | [] => .nil
  | .leaf kind s :: rest => .leaf kind s (map_tags hf rest)
  | .element tag children :: rest => .element (hf tag) (map_tags hf children) (map_tags hf rest)

/-- A change of tags that does not tell related tags apart makes the nodes the same. -/
theorem map_tags_eq {ns ms : List Node} (h : Retagged r ns ms)
    (hf : ∀ tag tag', r tag tag' → f tag = f tag') :
    Node.mapTagsOf f ns = Node.mapTagsOf f ms := by
  induction h with
  | nil => rfl
  | leaf kind s _ ih =>
      rw [Node.mapTagsOf, Node.mapTagsOf, ih]
  | element htag _ _ ihbelow ihrest =>
      rw [Node.mapTagsOf, Node.mapTagsOf, ihrest, Node.mapTags, Node.mapTags, ihbelow, hf _ _ htag]

end Retagged

namespace AttributeOrder

/-! ### The place of a name -/

/-- Whether an entry of a given order stands for a name: it is the name, or the part of it before
its first hyphen. -/
def StandsFor (entry name : String) : Prop :=
  entry = name ∨ '-' ∉ entry.toList ∧ ∃ rest, name = entry ++ "-" ++ rest

/-- Whether a name has its place by an entry of a given order: the first that stands for it. -/
def IsListed (order : List String) (name : String) (i : Nat) : Prop :=
  (∃ entry, order[i]? = some entry ∧ StandsFor entry name) ∧
    ∀ j < i, ∀ earlier, order[j]? = some earlier → ¬ StandsFor earlier name

def IsPrefixed (name : String) : Prop :=
  ∃ rest, name = "xmlns:" ++ rest

/-- The place of a name: its group, and where it is listed in a given order. -/
inductive IsPlacedAt (order : List String) : String → Nat × Nat → Prop
  | default : IsPlacedAt order "xmlns" (0, 0)
  | prefixed {name : String} (hprefixed : IsPrefixed name) : IsPlacedAt order name (1, 0)
  | listed {name : String} {i : Nat} (hname : name ≠ "xmlns") (hplain : ¬ IsPrefixed name)
      (hlisted : IsListed order name i) : IsPlacedAt order name (2, i)
  | other {name : String} (hname : name ≠ "xmlns") (hplain : ¬ IsPrefixed name)
      (hother : ∀ i, ¬ IsListed order name i) : IsPlacedAt order name (3, 0)

/-- Whether one name may stand before another: by the group, then by the list, and in one place by
their letters. -/
def StandsBefore (order : List String) (a b : String) : Prop :=
  ∃ group place group' place', IsPlacedAt order a (group, place) ∧
    IsPlacedAt order b (group', place') ∧
    (group < group' ∨ group = group' ∧ (place < place' ∨ place = place' ∧ a ≤ b))

/-- What stands before the first hyphen, if there is one. -/
theorem before_hyphen (cs : List Char) :
    cs.takeWhile (· != '-') = cs ∨ ∃ rest, cs = cs.takeWhile (· != '-') ++ '-' :: rest := by
  induction cs with
  | nil => exact .inl rfl
  | cons c cs ih =>
      by_cases hc : c = '-'
      · exact .inr ⟨cs, by rw [List.takeWhile_cons_of_neg (by simp [hc]), hc]; rfl⟩
      · rw [List.takeWhile_cons_of_pos (by simp [hc])]
        exact ih.imp (congrArg (c :: ·)) fun ⟨rest, hrest⟩ => ⟨rest, congrArg (c :: ·) hrest⟩

theorem stands_for_iff {entry name : String} :
    StandsFor entry name ↔ entry = name ∨ entry = stem name := by
  constructor
  · rintro (hname | ⟨hhyphen, rest, rfl⟩)
    · exact .inl hname
    · right
      have hfront : ∀ c ∈ entry.toList, (c != '-') = true := fun c hc =>
        bne_iff_ne.mpr fun h => hhyphen (h ▸ hc)
      apply String.toList_injective
      simp [stem, List.takeWhile_append_of_pos hfront]
  · rintro (hname | rfl)
    · exact .inl hname
    · rcases before_hyphen name.toList with hwhole | ⟨rest, hrest⟩
      · left
        rw [stem, hwhole, String.ofList_toList]
      · right
        refine ⟨fun hhyphen => ?_, String.ofList rest, String.toList_injective ?_⟩
        · rw [stem, String.toList_ofList] at hhyphen
          exact absurd (List.mem_takeWhile_imp hhyphen) (by simp)
        · rw [stem, String.toList_append, String.toList_append, String.toList_ofList,
            String.toList_ofList]
          simpa using hrest

theorem listed_iff {order : List String} {name : String} {i : Nat} :
    IsListed order name i ↔ order.findIdx? (fun o => o == name || o == stem name) = some i := by
  have hstands (entry : String) :
      (entry == name || entry == stem name) = true ↔ StandsFor entry name := by
    rw [stands_for_iff, Bool.or_eq_true, beq_iff_eq, beq_iff_eq]
  simp only [List.findIdx?_eq_some_iff_getElem, hstands, IsListed, List.getElem?_eq_some_iff]
  constructor
  · rintro ⟨⟨entry, ⟨hi, rfl⟩, hentry⟩, hearlier⟩
    exact ⟨hi, hentry, fun j hj => hearlier j hj _ ⟨by omega, rfl⟩⟩
  · rintro ⟨hi, hentry, hearlier⟩
    refine ⟨⟨_, ⟨hi, rfl⟩, hentry⟩, ?_⟩
    rintro j hj _ ⟨_, rfl⟩
    exact hearlier j hj

theorem prefixed_iff {name : String} : IsPrefixed name ↔ Text.startsWith name "xmlns:" := by
  rw [starts_with_iff]
  constructor
  · rintro ⟨rest, rfl⟩
    exact ⟨rest.toList, by rw [String.toList_append]⟩
  · rintro ⟨rest, hrest⟩
    exact ⟨String.ofList rest, String.toList_injective (by rw [← hrest]; simp)⟩

/-- Every name has one place. -/
theorem placed_iff {order : List String} {name : String} {place : Nat × Nat} :
    IsPlacedAt order name place ↔ rank order name = place := by
  have hdefault : ¬ IsPrefixed "xmlns" := by
    rw [prefixed_iff]
    decide
  constructor
  · intro h
    cases h with
    | default => rfl
    | prefixed hprefixed =>
        have hname : name ≠ "xmlns" := fun h => hdefault (h ▸ hprefixed)
        rw [rank, if_neg hname, if_pos (prefixed_iff.mp hprefixed)]
    | listed hname hplain hlisted =>
        rw [rank, if_neg hname, if_neg (mt prefixed_iff.mpr hplain), listed_iff.mp hlisted]
    | other hname hplain hother =>
        have hnone : order.findIdx? (fun o => o == name || o == stem name) = none := by
          rw [Option.eq_none_iff_forall_ne_some]
          exact fun i => mt listed_iff.mpr (hother i)
        rw [rank, if_neg hname, if_neg (mt prefixed_iff.mpr hplain), hnone]
  · rintro rfl
    rw [rank]
    split
    · rename_i hname
      exact hname ▸ .default
    · rename_i hname
      split
      · rename_i hprefixed
        exact .prefixed (prefixed_iff.mpr hprefixed)
      · rename_i hplain
        have hplain' : ¬ IsPrefixed name := mt prefixed_iff.mp hplain
        split
        · rename_i i hlisted
          exact .listed hname hplain' (listed_iff.mpr hlisted)
        · rename_i hnone
          refine .other hname hplain' fun i hlisted => ?_
          rw [listed_iff, hnone] at hlisted
          cases hlisted

theorem precedes_iff_stands_before {order : List String} {a b : String} :
    precedes order a b ↔ StandsBefore order a b := by
  have hranks : precedes order a b ↔ (rank order a).1 < (rank order b).1 ∨
      (rank order a).1 = (rank order b).1 ∧ ((rank order a).2 < (rank order b).2 ∨
        (rank order a).2 = (rank order b).2 ∧ a ≤ b) := by
    simp only [precedes, Bool.or_eq_true, Bool.and_eq_true, beq_iff_eq, decide_eq_true_eq]
  rw [hranks]
  constructor
  · intro h
    exact ⟨_, _, _, _, placed_iff.mpr rfl, placed_iff.mpr rfl, h⟩
  · rintro ⟨group, place, group', place', ha, hb, h⟩
    rw [placed_iff.mp ha, placed_iff.mp hb]
    exact h

/-! ### Sorted elements -/

/-- Attributes with distinct names are told by the attributes of each name, in whatever order they
are. -/
theorem SameByName.of_perm {as bs : Attributes} (h : as.Perm bs)
    (hdistinct : (as.map (·.name)).Nodup) : SameByName as bs := by
  induction h with
  | nil => exact fun _ => rfl
  | cons a _ ih =>
      intro name
      rw [List.map_cons, List.nodup_cons] at hdistinct
      rw [List.filter_cons, List.filter_cons, ih hdistinct.2 name]
  | swap a b as =>
      intro name
      have hother : b.name ≠ a.name := by
        simp only [List.map_cons, List.nodup_cons, List.mem_cons, not_or] at hdistinct
        exact hdistinct.1.1
      -- no name is that of both
      simp only [List.filter_cons, beq_iff_eq]
      by_cases ha : a.name = name
      · have hb : b.name ≠ name := fun hb => hother (hb.trans ha.symm)
        rw [if_neg hb, if_pos ha, if_pos ha, if_neg hb]
      · rw [if_neg ha, if_neg ha]
  | trans h _ ih ih' =>
      exact (ih hdistinct).trans (ih' ((h.map _).nodup_iff.mp hdistinct))

/-- An element with its attributes sorted. -/
def sortTag (order : List String) (tag : Tag) : Tag :=
  { tag with attributes := sort order tag.attributes }

/-- Whether an element is another one with its attributes in some order. Their names are distinct,
if it is not the same element. -/
def IsReordered (tag tag' : Tag) : Prop :=
  tag'.name = tag.name ∧ tag'.attributes.Perm tag.attributes ∧
    (tag' = tag ∨ (tag'.attributes.map (·.name)).Nodup)

theorem sort_tag_eq_of_reordered (order : List String) {tag tag' : Tag} (h : IsReordered tag tag') :
    sortTag order tag = sortTag order tag' := by
  obtain ⟨hname, hperm, rfl | hdistinct⟩ := h
  · rfl
  · have hsame : SameByName tag.attributes tag'.attributes :=
      (SameByName.of_perm hperm hdistinct).symm
    have hsort : sort order tag.attributes = sort order tag'.attributes :=
      (sorted_sort order _).eq_of_same (sorted_sort order _)
        (((same_sort order _).trans hsame).trans (same_sort order _).symm)
    rw [sortTag, sortTag, hname, hsort]

/-- Whether an element has the attributes of another one in the order of their places. -/
def IsOrdered (order : List String) (tag tag' : Tag) : Prop :=
  tag'.name = tag.name ∧ tag'.attributes.Perm tag.attributes ∧
    List.Pairwise (fun a b => StandsBefore order a.name b.name) tag'.attributes

theorem ordered_sort_tag (order : List String) (tag : Tag) :
    IsOrdered order tag (sortTag order tag) :=
  ⟨rfl, perm_sort order tag.attributes,
    (sorted_sort order tag.attributes).imp precedes_iff_stands_before.mp⟩

/-- Whatever order of names is given, each element of a document gets its attributes in the order of
their places and is otherwise left alone, and to do so again changes nothing. Documents that differ
in the order of attributes of distinct names become the same. -/
theorem sort_attributes_canonical {params : Params} {order : List String}
    (horder : params.texts "order" = .ok order) (doc : Document) :
    ∃ out, sortAttributes.apply params doc = .ok out ∧
      Retagged (IsOrdered order) doc.nodes out.nodes ∧
      sortAttributes.apply params out = .ok out ∧
      ∀ doc' : Document, Retagged IsReordered doc.nodes doc'.nodes →
        sortAttributes.apply params doc' = .ok out := by
  have happly (doc : Document) : sortAttributes.apply params doc =
      .ok ⟨Node.mapTagsOf (sortTag order) doc.nodes⟩ := by
    show (params.texts "order").bind _ = _
    rw [horder]
    rfl
  have hagain (tag tag' : Tag) (h : sortTag order tag = tag') :
      sortTag order tag = sortTag order tag' := by
    rw [← h, sortTag, sortTag, sort_sort]
  refine ⟨⟨Node.mapTagsOf (sortTag order) doc.nodes⟩, happly doc,
    .map_tags (ordered_sort_tag order) doc.nodes, ?_, ?_⟩
  · rw [happly, ← (Retagged.map_tags (fun _ => rfl) doc.nodes).map_tags_eq hagain]
  · intro doc' hreordered
    rw [happly, hreordered.map_tags_eq fun tag tag' => sort_tag_eq_of_reordered order]

/-- An order that lists a stem twice and a name with a hyphen behind its stem. -/
def strokesFirst : List String :=
  ["stroke", "d", "stroke-width", "stroke"]

/-- A drawing with namespaces, listed names and others. -/
def outlined : Document :=
  ⟨[.element ⟨"svg", [⟨"viewBox", "0 0 1 1"⟩, ⟨"xmlns:x", "a"⟩, ⟨"xmlns", "b"⟩]⟩
    [.element ⟨"path", [⟨"d", "M0"⟩, ⟨"fill", "red"⟩, ⟨"stroke-width", "2"⟩, ⟨"stroke", "c"⟩]⟩ []]]⟩

/-- The same with the attributes of the path the other way round. -/
def outlinedBack : Document :=
  ⟨[.element ⟨"svg", [⟨"viewBox", "0 0 1 1"⟩, ⟨"xmlns:x", "a"⟩, ⟨"xmlns", "b"⟩]⟩
    [.element ⟨"path", [⟨"stroke", "c"⟩, ⟨"stroke-width", "2"⟩, ⟨"fill", "red"⟩, ⟨"d", "M0"⟩]⟩ []]]⟩

theorem sort_attributes_canonical_outlined :
    let params : Params := [("order", .ofStrings strokesFirst)]
    params.texts "order" = .ok strokesFirst ∧
      ∃ out, sortAttributes.apply params outlined = .ok out ∧
        sortAttributes.apply params outlinedBack = .ok out ∧
        sortAttributes.apply params out = .ok out ∧
        Retagged (IsOrdered strokesFirst) outlined.nodes out.nodes := by
  intro params
  have horder : params.texts "order" = .ok strokesFirst := by decide
  obtain ⟨out, hout, hordered, hagain, hcanonical⟩ := sort_attributes_canonical horder outlined
  have hsvg : IsReordered ⟨"svg", [⟨"viewBox", "0 0 1 1"⟩, ⟨"xmlns:x", "a"⟩, ⟨"xmlns", "b"⟩]⟩
      ⟨"svg", [⟨"viewBox", "0 0 1 1"⟩, ⟨"xmlns:x", "a"⟩, ⟨"xmlns", "b"⟩]⟩ :=
    ⟨rfl, .refl _, .inl rfl⟩
  have hpath : IsReordered
      ⟨"path", [⟨"d", "M0"⟩, ⟨"fill", "red"⟩, ⟨"stroke-width", "2"⟩, ⟨"stroke", "c"⟩]⟩
      ⟨"path", [⟨"stroke", "c"⟩, ⟨"stroke-width", "2"⟩, ⟨"fill", "red"⟩, ⟨"d", "M0"⟩]⟩ :=
    ⟨rfl, by decide, .inr (by decide)⟩
  exact ⟨horder, out, hout, hcanonical outlinedBack (.element hsvg (.element hpath .nil .nil) .nil),
    hagain, hordered⟩

end AttributeOrder

end SvgPress
