import Mathlib.Tactic.ByContra
import SvgPress.Markup.Node

/-!
Tags and attributes under change: what is read at a name after an attribute was set, removed or
given another value, and which tags a document has after each of them was changed.
-/

namespace SvgPress

namespace Attributes

variable {attributes : Attributes} {name : String}

theorem get_cons (a : Attribute) (rest : Attributes) :
    get? (a :: rest) name = if a.name = name then some a.value else get? rest name := by
  by_cases h : a.name = name
  · simp [get?, h]
  · simp [get?, h]

theorem set_nil (value : String) : set [] name value = [⟨name, value⟩] := rfl

theorem set_cons (a : Attribute) (rest : Attributes) (value : String) :
    set (a :: rest) name value =
      if a.name = name then ⟨name, value⟩ :: rest else a :: set rest name value := rfl

theorem get_set_self (value : String) : (attributes.set name value).get? name = some value := by
  induction attributes with
  | nil => simp [set_nil, get_cons]
  | cons a rest ih =>
      rw [set_cons]
      split
      · rw [get_cons, if_pos rfl]
      · rename_i hne
        rw [get_cons, if_neg hne, ih]

theorem get_set_of_ne {other : String} (h : other ≠ name) (value : String) :
    (attributes.set name value).get? other = attributes.get? other := by
  induction attributes with
  | nil => simp [set_nil, get?, Ne.symm h]
  | cons a rest ih =>
      rw [set_cons]
      split
      · rename_i ha
        rw [get_cons, get_cons, ha, if_neg (Ne.symm h), if_neg (Ne.symm h)]
      · rw [get_cons, get_cons, ih]

/-- An attribute that is given the value it has. -/
theorem set_eq_self {value : String} (h : attributes.get? name = some value) :
    attributes.set name value = attributes := by
  induction attributes with
  | nil => cases h
  | cons a rest ih =>
      rw [get_cons] at h
      rw [set_cons]
      split
      · rename_i ha
        rw [if_pos ha] at h
        rw [← ha, ← Option.some.inj h]
      · rename_i hne
        rw [if_neg hne] at h
        rw [ih h]

theorem mem_set {value : String} {a : Attribute} (h : a ∈ attributes.set name value) :
    a ∈ attributes ∨ a = ⟨name, value⟩ := by
  induction attributes with
  | nil => exact .inr (List.mem_singleton.mp h)
  | cons b rest ih =>
      rw [set_cons] at h
      split at h
      · rcases List.mem_cons.mp h with hnew | hold
        · exact .inr hnew
        · exact .inl (List.mem_cons_of_mem b hold)
      · rcases List.mem_cons.mp h with hfirst | hlater
        · exact .inl (hfirst ▸ List.mem_cons_self)
        · exact (ih hlater).imp_left (List.mem_cons_of_mem b)

/-- A name that is new comes last. -/
theorem names_set (value : String) :
    (attributes.set name value).map (·.name) =
      if name ∈ attributes.map (·.name) then attributes.map (·.name)
      else attributes.map (·.name) ++ [name] := by
  induction attributes with
  | nil => rfl
  | cons a rest ih =>
      rw [set_cons]
      split
      · rename_i ha
        subst ha
        simp
      · rename_i ha
        have hmem : name ∈ (a :: rest).map (·.name) ↔ name ∈ rest.map (·.name) := by
          simp [Ne.symm ha]
        rw [List.map_cons, ih]
        by_cases hrest : name ∈ rest.map (·.name)
        · rw [if_pos hrest, if_pos (hmem.mpr hrest), List.map_cons]
        · rw [if_neg hrest, if_neg (fun h => hrest (hmem.mp h)), List.map_cons, List.cons_append]

theorem nodup_set (h : (attributes.map (·.name)).Nodup) (value : String) :
    ((attributes.set name value).map (·.name)).Nodup := by
  rw [names_set]
  split
  · exact h
  · rename_i hnot
    rw [List.nodup_append]
    refine ⟨h, by simp, fun b hb c hc heq => ?_⟩
    rw [List.mem_singleton.mp hc] at heq
    exact hnot (heq ▸ hb)

theorem nodup_remove (h : (attributes.map (·.name)).Nodup) :
    ((attributes.remove name).map (·.name)).Nodup :=
  h.sublist (List.eraseP_sublist.map _)

theorem get_eq_none_iff : attributes.get? name = none ↔ name ∉ attributes.map (·.name) := by
  induction attributes with
  | nil => simp [get?]
  | cons a rest ih =>
      rw [get_cons, List.map_cons, List.mem_cons, not_or, ← ih]
      by_cases h : a.name = name
      · simp [h]
      · simp [h, Ne.symm h]

theorem has_iff : attributes.has name ↔ name ∈ attributes.map (·.name) := by
  simp [has]

theorem has_of_get {value : String} (h : attributes.get? name = some value) :
    attributes.has name := by
  rw [has_iff]
  by_contra hnot
  rw [get_eq_none_iff.mpr hnot] at h
  cases h

theorem get_of_mem (h : (attributes.map (·.name)).Nodup) {a : Attribute} (ha : a ∈ attributes) :
    attributes.get? a.name = some a.value := by
  induction attributes with
  | nil => cases ha
  | cons b rest ih =>
      obtain ⟨hnot, hrest⟩ := List.nodup_cons.mp h
      rw [get_cons]
      rcases List.mem_cons.mp ha with rfl | ha
      · rw [if_pos rfl]
      · rw [if_neg, ih hrest ha]
        exact fun heq => hnot (List.mem_map.mpr ⟨a, ha, heq.symm⟩)

theorem mem_of_get {value : String} (h : attributes.get? name = some value) :
    ⟨name, value⟩ ∈ attributes := by
  obtain ⟨a, ha, rfl⟩ := Option.map_eq_some_iff.mp h
  obtain rfl : a.name = name := by
    have hname := List.find?_some ha
    simpa using hname
  exact List.mem_of_find?_eq_some ha

theorem get_remove_self (h : (attributes.map (·.name)).Nodup) :
    (attributes.remove name).get? name = none := by
  induction attributes with
  | nil => rfl
  | cons a rest ih =>
      obtain ⟨hnot, hrest⟩ := List.nodup_cons.mp h
      by_cases ha : a.name = name
      · subst ha
        rw [remove, List.eraseP_cons_of_pos (by simp)]
        exact get_eq_none_iff.mpr hnot
      · rw [remove, List.eraseP_cons_of_neg (by simpa using ha), get_cons, if_neg ha]
        exact ih hrest

theorem get_remove_of_ne {other : String} (h : other ≠ name) :
    (attributes.remove name).get? other = attributes.get? other := by
  induction attributes with
  | nil => rfl
  | cons a rest ih =>
      by_cases ha : a.name = name
      · rw [remove, List.eraseP_cons_of_pos (by simpa using ha), get_cons, ha, if_neg (Ne.symm h)]
      · rw [remove, List.eraseP_cons_of_neg (by simpa using ha), get_cons, get_cons, ← ih]
        rfl

/-- What is read at a name stays if the attribute that says it does. -/
theorem get_filter_of_keep {keep : Attribute → Bool} {value : String}
    (h : attributes.get? name = some value) (hkeep : keep ⟨name, value⟩) :
    get? (List.filter keep attributes) name = some value := by
  induction attributes with
  | nil => cases h
  | cons a rest ih =>
      rw [get_cons] at h
      by_cases ha : a.name = name
      · rw [if_pos ha] at h
        have hsame : a = ⟨name, value⟩ := by
          cases a
          cases ha
          cases h
          rfl
        rw [hsame, List.filter_cons_of_pos hkeep, get_cons, if_pos rfl]
      · rw [if_neg ha] at h
        rw [List.filter_cons]
        split
        · rw [get_cons, if_neg ha, ih h]
        · exact ih h

theorem get_map_value (f : Attribute → String) :
    get? (List.map (fun a => { a with value := f a }) attributes) name =
      (attributes.get? name).map fun value => f ⟨name, value⟩ := by
  induction attributes with
  | nil => rfl
  | cons a rest ih =>
      rw [List.map_cons, get_cons, get_cons, ih]
      split
      · rename_i h
        subst h
        rfl
      · rfl

theorem filter_set (value : String) :
    List.filter (·.name != name) (attributes.set name value) =
      List.filter (·.name != name) attributes := by
  induction attributes with
  | nil => simp [set_nil]
  | cons a rest ih =>
      rw [set_cons]
      split
      · rename_i h
        simp [h]
      · simp [List.filter_cons, ih]

theorem filter_remove :
    List.filter (·.name != name) (attributes.remove name) =
      List.filter (·.name != name) attributes := by
  induction attributes with
  | nil => rfl
  | cons a rest ih =>
      by_cases ha : a.name = name
      · rw [remove, List.eraseP_cons_of_pos (by simpa using ha),
          List.filter_cons_of_neg (by simp [ha])]
      · rw [remove, List.eraseP_cons_of_neg (by simpa using ha)]
        simp only [List.filter_cons]
        rw [← ih]
        rfl

end Attributes

namespace Node

theorem tags_of_append (ns ms : List Node) : tagsOf (ns ++ ms) = tagsOf ns ++ tagsOf ms := by
  induction ns with
  | nil => rfl
  | cons n ns ih => rw [List.cons_append, tagsOf, tagsOf, ih, List.append_assoc]

mutual

theorem tags_map_tags (f : Tag → Tag) : (n : Node) → (n.mapTags f).tags = n.tags.map f
  | .element tag children => by rw [mapTags, tags, tags, List.map_cons, tags_of_map_tags f children]
  | .leaf .. => rfl

theorem tags_of_map_tags (f : Tag → Tag) : (ns : List Node) →
    tagsOf (mapTagsOf f ns) = (tagsOf ns).map f
  | [] => rfl
  | n :: rest => by
      rw [mapTagsOf, tagsOf, tagsOf, List.map_append, tags_map_tags f n, tags_of_map_tags f rest]

end

mutual

theorem map_tags_map_tags (f g : Tag → Tag) : (n : Node) →
    (n.mapTags f).mapTags g = n.mapTags fun tag => g (f tag)
  | .element tag children => by rw [mapTags, mapTags, mapTags, map_tags_of_map_tags f g children]
  | .leaf .. => rfl

theorem map_tags_of_map_tags (f g : Tag → Tag) : (ns : List Node) →
    mapTagsOf g (mapTagsOf f ns) = mapTagsOf (fun tag => g (f tag)) ns
  | [] => rfl
  | n :: rest => by
      rw [mapTagsOf, mapTagsOf, mapTagsOf, map_tags_map_tags f g n, map_tags_of_map_tags f g rest]

end

mutual

/-- A node is unchanged exactly if every tag of it is. -/
theorem map_tags_eq_self_iff {f : Tag → Tag} : (n : Node) →
    (n.mapTags f = n ↔ ∀ tag ∈ n.tags, f tag = tag)
  | .element tag children => by
      rw [mapTags, tags, List.forall_mem_cons, element.injEq,
        map_tags_of_eq_self_iff children]
  | .leaf .. => by simp [mapTags, tags]

theorem map_tags_of_eq_self_iff {f : Tag → Tag} : (ns : List Node) →
    (mapTagsOf f ns = ns ↔ ∀ tag ∈ tagsOf ns, f tag = tag)
  | [] => by simp [mapTagsOf, tagsOf]
  | n :: rest => by
      rw [mapTagsOf, tagsOf, List.forall_mem_append, List.cons_eq_cons, map_tags_eq_self_iff n,
        map_tags_of_eq_self_iff rest]

end

end Node

namespace Document

theorem tags_map_tags (f : Tag → Tag) (doc : Document) : (doc.mapTags f).tags = doc.tags.map f :=
  Node.tags_of_map_tags f doc.nodes

theorem map_tags_map_tags (f g : Tag → Tag) (doc : Document) :
    (doc.mapTags f).mapTags g = doc.mapTags fun tag => g (f tag) :=
  congrArg Document.mk (Node.map_tags_of_map_tags f g doc.nodes)

theorem map_tags_eq_self_iff {f : Tag → Tag} {doc : Document} :
    doc.mapTags f = doc ↔ ∀ tag ∈ doc.tags, f tag = tag :=
  Iff.trans ⟨congrArg nodes, congrArg Document.mk⟩ (Node.map_tags_of_eq_self_iff doc.nodes)

end Document

end SvgPress
