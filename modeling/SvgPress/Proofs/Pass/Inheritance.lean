import SvgPress.Proofs.Pass.Dissolving

/-!
What nodes inherit. The attributes of an element apply to all that stands in it, so what counts for
a node are the tags on the way to it from the root. Dissolving groups changes which tags these are,
but not what is read along the way: for a transform the product of all that are met, and for any
other attribute the values in the order in which they are met.
-/

namespace SvgPress

/-- A node without what stands in it, an element by its name alone. -/
inductive Figure where
  | element (name : String)
  | leaf (kind : LeafKind) (content : String)
  deriving DecidableEq, Repr

/-- A node with the tags on the way to it from the root, its own last. -/
structure Heir where
  figure : Figure
  line : List Tag
  deriving DecidableEq, Repr

/-- The values of an attribute that are met along a line of tags. -/
def valuesAlong (name : String) (line : List Tag) : List String :=
  line.filterMap (·.attribute? name)

namespace Heir

def values (name : String) (heir : Heir) : List String :=
  valuesAlong name heir.line

/-- All transforms that apply to a node, the outermost first. -/
def transform (heir : Heir) : String :=
  " ".intercalate (heir.values "transform")

end Heir

namespace Node

mutual

/-- The nodes in a node, itself among them, that are not groups, below the tags of a line. -/
def heirs (above : List Tag) : Node → List Heir
  | .element tag children =>
    if tag.name = "g" then heirsOf (above ++ [tag]) children
    else ⟨.element tag.name, above ++ [tag]⟩ :: heirsOf (above ++ [tag]) children
  | .leaf kind content => [⟨.leaf kind content, above⟩]
termination_by structural n => n

def heirsOf (above : List Tag) : List Node → List Heir
  | [] => []
  | n :: rest => n.heirs above ++ heirsOf above rest
termination_by structural ns => ns

end

theorem heirs_of_append (above : List Tag) (ns ms : List Node) :
    heirsOf above (ns ++ ms) = heirsOf above ns ++ heirsOf above ms := by
  induction ns with
  | nil => rfl
  | cons n ns ih => rw [List.cons_append, heirsOf, heirsOf, ih, List.append_assoc]

theorem heirs_of_one (above : List Tag) (n : Node) : heirsOf above [n] = n.heirs above := by
  rw [heirsOf, heirsOf, List.append_nil]

end Node

namespace Document

/-- The nodes of a document in document order, groups left out unless the root is one. -/
def heirs (doc : Document) : List Heir :=
  go doc.nodes
where
  go : List Node → List Heir
    | [] => []
    | .element tag children :: rest =>
      ⟨.element tag.name, [tag]⟩ :: (Node.heirsOf [tag] children ++ Node.heirsOf [] rest)
    | .leaf kind content :: rest => ⟨.leaf kind content, []⟩ :: go rest

end Document

namespace Groups

open Node

/-- Whether a way to read a line of tags comes to the same result when a group gives way: one
without attributes, or a sound one that hands its attributes down. -/
structure IsInherited {β : Type} (Sound : Tag → Prop) (read : List Tag → β) : Prop where
  snoc : ∀ {line other : List Tag} (tag : Tag), read other = read line →
    read (other ++ [tag]) = read (line ++ [tag])
  empty : ∀ (line : List Tag) {tag : Tag}, tag.attributes = [] → read line = read (line ++ [tag])
  handed : ∀ (line : List Tag) {group child : Tag}, Sound group →
    canHandDown group.attributes child →
    read (line ++ [group.attributes.foldl handDown child]) = read (line ++ [group, child])

section Inherited

variable {β : Type} {Sound : Tag → Prop} {read : List Tag → β}

/-- What is read of a node in its place. -/
def seen (read : List Tag → β) (heir : Heir) : Figure × β :=
  (heir.figure, read heir.line)

mutual

theorem seen_below (hread : IsInherited Sound read) {line other : List Tag}
    (hlines : read other = read line) : (n : Node) →
    (n.heirs other).map (seen read) = (n.heirs line).map (seen read)
  | .leaf kind content => by simp only [heirs, List.map_cons, List.map_nil, seen, hlines]
  | .element tag children => by
      have hsnoc := hread.snoc tag hlines
      have hbelow := seen_below_all hread hsnoc children
      rw [heirs, heirs]
      split
      · exact hbelow
      · rw [List.map_cons, List.map_cons, hbelow]
        simp only [seen, hsnoc]

theorem seen_below_all (hread : IsInherited Sound read) {line other : List Tag}
    (hlines : read other = read line) : (ns : List Node) →
    (heirsOf other ns).map (seen read) = (heirsOf line ns).map (seen read)
  | [] => rfl
  | n :: ns => by
      rw [heirsOf, heirsOf, List.map_append, List.map_append, seen_below hread hlines n,
        seen_below_all hread hlines ns]

end

/-- The only child of a group that hands its attributes down. -/
theorem seen_handed (hread : IsInherited Sound read) {group child : Tag}
    (hsound : Sound group) (hcan : canHandDown group.attributes child)
    (line : List Tag) (below : List Node) :
    (heirs line (.element (group.attributes.foldl handDown child) below)).map (seen read) =
      (heirs (line ++ [group]) (.element child below)).map (seen read) := by
  have hline : read (line ++ [group.attributes.foldl handDown child]) =
      read (line ++ [group] ++ [child]) := by
    rw [hread.handed line hsound hcan, List.append_assoc, List.singleton_append]
  have hbelow := seen_below_all hread hline below
  rw [heirs, heirs, hand_down_all_name]
  split
  · exact hbelow
  · rw [List.map_cons, List.map_cons, hbelow]
    simp only [seen, hline]

/-- An element below which groups were dissolved. -/
theorem seen_dissolve (hread : IsInherited Sound read) {tag : Tag}
    (hsound : Sound tag) {line other : List Tag}
    (hlines : read other = read line) {children collapsed : List Node}
    (hchildren : ∀ {outer inner : List Tag}, read outer = read inner →
      (heirsOf outer collapsed).map (seen read) = (heirsOf inner children).map (seen read)) :
    (heirsOf other (dissolve tag collapsed)).map (seen read) =
      (heirs line (.element tag children)).map (seen read) := by
  have hsnoc := hread.snoc tag hlines
  have hbelow := hchildren hsnoc
  have hstays : (heirsOf other [.element tag collapsed]).map (seen read) =
      (heirs line (.element tag children)).map (seen read) := by
    rw [heirs_of_one, heirs, heirs]
    split
    · exact hbelow
    · rw [List.map_cons, List.map_cons, hbelow]
      simp only [seen, hsnoc]
  unfold dissolve
  split
  · exact hstays
  · rename_i hname
    have hgroup : tag.name = "g" := by simpa using hname
    split
    · rename_i hempty
      rw [heirs, if_pos hgroup]
      exact hchildren (hlines.trans (hread.empty line (List.isEmpty_iff.mp hempty)))
    · split
      · rename_i child below
        split
        · rename_i hcan
          rw [heirs_of_one, seen_handed hread hsound hcan, ← heirs_of_one, hbelow, heirs,
            if_pos hgroup]
        · exact hstays
      · exact hstays

mutual

theorem seen_collapse (hread : IsInherited Sound read) : (n : Node) →
    (∀ tag ∈ n.tags, Sound tag) → ∀ {line other : List Tag},
    read other = read line →
    (heirsOf other (collapse n)).map (seen read) = (n.heirs line).map (seen read)
  | .leaf .., _, _, _, hlines => by
      rw [collapse, heirs_of_one]
      exact seen_below hread hlines _
  | .element tag children, hsound, _, _, hlines => by
      rw [tags, List.forall_mem_cons] at hsound
      exact seen_dissolve hread hsound.1 hlines (seen_collapse_all hread children hsound.2)

/-- What is read of the nodes that are not groups stays the same while groups are dissolved. -/
theorem seen_collapse_all (hread : IsInherited Sound read) : (ns : List Node) →
    (∀ tag ∈ tagsOf ns, Sound tag) → ∀ {line other : List Tag},
    read other = read line →
    (heirsOf other (collapseAll ns)).map (seen read) = (heirsOf line ns).map (seen read)
  | [], _, _, _, _ => rfl
  | n :: ns, hsound, _, _, hlines => by
      rw [tagsOf, List.forall_mem_append] at hsound
      rw [collapseAll, heirs_of_append, heirsOf, List.map_append, List.map_append,
        seen_collapse hread n hsound.1 hlines, seen_collapse_all hread ns hsound.2 hlines]

end

theorem seen_document (hread : IsInherited Sound read) {ns : List Node}
    (hsound : ∀ tag ∈ tagsOf ns, Sound tag) :
    (Document.heirs.go (Document.mapRoot.go
        (fun tag children => .element tag (collapseAll children)) ns)).map (seen read) =
      (Document.heirs.go ns).map (seen read) := by
  induction ns with
  | nil => rfl
  | cons n ns ih =>
      rw [tagsOf, List.forall_mem_append] at hsound
      cases n with
      | element tag children =>
          rw [tags, List.forall_mem_cons] at hsound
          rw [Document.mapRoot.go, Document.heirs.go, Document.heirs.go, List.map_cons,
            List.map_cons, List.map_append, List.map_append,
            seen_collapse_all hread children hsound.1.2 rfl]
      | leaf kind content =>
          rw [Document.mapRoot.go, Document.heirs.go, Document.heirs.go, List.map_cons,
            List.map_cons, ih hsound.2]

end Inherited

/-! ### What is read -/

/-- Whether no two attributes of a tag have the same name. -/
def IsDistinct (tag : Tag) : Prop :=
  (tag.attributes.map (·.name)).Nodup

theorem values_along_snoc (name : String) (line : List Tag) (tag : Tag) :
    valuesAlong name (line ++ [tag]) = valuesAlong name line ++ (tag.attribute? name).toList := by
  rw [valuesAlong, List.filterMap_append]
  cases h : tag.attribute? name <;> simp [h, valuesAlong]

/-- A group hands nothing down that its child says for itself, a transform apart. -/
theorem get_none_of_can {group : Attributes} {child : Tag} (hcan : canHandDown group child)
    {name : String} (hname : name ≠ "transform") {value : String}
    (hown : child.attribute? name = some value) : group.get? name = none := by
  rw [Attributes.get_eq_none_iff]
  intro hmem
  obtain ⟨a, ha, rfl⟩ := List.mem_map.mp hmem
  have hhas : child.hasAttribute a.name := Attributes.has_of_get hown
  rw [canHandDown, Bool.not_eq_true', List.any_eq_false] at hcan
  exact hcan a ha (by simp [hname, hhas])

theorem inherited_values {name : String} (hname : name ≠ "transform") :
    IsInherited IsDistinct (valuesAlong name) where
  snoc tag hlines := by rw [values_along_snoc, values_along_snoc, hlines]
  empty line tag hempty := by
    rw [values_along_snoc, Tag.attribute?, hempty]
    exact (List.append_nil _).symm
  handed line group child hdistinct hcan := by
    have hboth : line ++ [group, child] = line ++ [group] ++ [child] := by simp
    rw [hboth, values_along_snoc, values_along_snoc, values_along_snoc,
      attribute_hand_down_all hdistinct child hname, List.append_assoc]
    refine congrArg (valuesAlong name line ++ ·) ?_
    have hgroup : group.attributes.get? name = group.attribute? name := rfl
    cases hown : child.attribute? name with
    | none => rw [Option.or_none, hgroup, Option.toList_none, List.append_nil]
    | some value =>
        rw [get_none_of_can hcan hname hown, ← hgroup, get_none_of_can hcan hname hown]
        rfl

/-- The transform that a child gets from its group's and its own. -/
def combined (outer own : Option String) : Option String :=
  match outer, own with
  | some outer, some own => some (outer ++ " " ++ own)
  | some outer, none => some outer
  | none, own => own

theorem transform_hand_down {child : Tag} {a : Attribute} (ha : a.name = "transform") :
    (handDown child a).attribute? "transform" =
      combined (some a.value) (child.attribute? "transform") := by
  have hset (value : String) :
      (child.setAttribute "transform" value).attribute? "transform" = some value :=
    Attributes.get_set_self value
  rw [handDown, if_pos ha]
  cases child.attribute? "transform" with
  | none => exact hset _
  | some own => exact hset _

theorem transform_hand_down_all {attributes : Attributes}
    (hdistinct : (attributes.map (·.name)).Nodup) (child : Tag) :
    Tag.attribute? (attributes.foldl handDown child) "transform" =
      combined (attributes.get? "transform") (child.attribute? "transform") := by
  induction attributes generalizing child with
  | nil => rfl
  | cons a rest ih =>
      obtain ⟨hnot, hrest⟩ := List.nodup_cons.mp hdistinct
      rw [List.foldl_cons, ih hrest, Attributes.get_cons]
      by_cases ha : a.name = "transform"
      · have hgone : Attributes.get? rest "transform" = none :=
          Attributes.get_eq_none_iff.mpr (ha ▸ hnot)
        rw [if_pos ha, hgone, transform_hand_down ha]
        rfl
      · obtain ⟨value, hset, -⟩ := hand_down_eq child a
        have hother : (child.setAttribute a.name value).attribute? "transform" =
            child.attribute? "transform" := Attributes.get_set_of_ne (Ne.symm ha) value
        rw [if_neg ha, hset, hother]

/-- Two texts that follow each other may be joined beforehand. -/
theorem intercalate_joined (before : List String) (outer own : String) (after : List String) :
    " ".intercalate (before ++ (outer ++ " " ++ own) :: after) =
      " ".intercalate (before ++ outer :: own :: after) := by
  induction before with
  | nil =>
      rw [List.nil_append, List.nil_append, String.intercalate_cons_append,
        String.intercalate_cons_cons]
  | cons first before ih =>
      rw [List.cons_append, List.cons_append, String.intercalate_cons_of_ne_nil (by simp), ih,
        String.intercalate_cons_of_ne_nil (by simp)]

/-- The transforms along a line and then some others. That what comes after is left open makes the
reading one of the line alone. -/
def transformAlong (line : List Tag) (after : List String) : String :=
  " ".intercalate (valuesAlong "transform" line ++ after)

theorem transform_along_snoc (line : List Tag) (tag : Tag) (after : List String) :
    transformAlong (line ++ [tag]) after =
      transformAlong line ((tag.attribute? "transform").toList ++ after) := by
  rw [transformAlong, values_along_snoc, List.append_assoc, transformAlong]

theorem inherited_transform : IsInherited IsDistinct transformAlong where
  snoc tag hlines := by
    funext after
    rw [transform_along_snoc, transform_along_snoc, hlines]
  empty line tag hempty := by
    funext after
    rw [transform_along_snoc, Tag.attribute?, hempty]
    rfl
  handed line group child hdistinct hcan := by
    funext after
    have hboth : line ++ [group, child] = line ++ [group] ++ [child] := by simp
    have hgroup : group.attributes.get? "transform" = group.attribute? "transform" := rfl
    rw [hboth, transform_along_snoc, transform_along_snoc, transform_along_snoc,
      transform_hand_down_all hdistinct, hgroup]
    cases group.attribute? "transform" with
    | none => rfl
    | some outer =>
        cases child.attribute? "transform" with
        | none => rfl
        | some own => exact intercalate_joined _ outer own after

/-- Dissolving groups changes nothing that counts for the other nodes. They are the same in the same
order, and to each apply the same values of every attribute and, put together, the same
transforms. -/
theorem collapse_keeps_inherited {doc : Document}
    (hdistinct : ∀ tag ∈ doc.tags, (tag.attributes.map (·.name)).Nodup) (params : Params) :
    ∃ next, collapseGroups.apply params doc = .ok next ∧
      next.heirs.map (·.figure) = doc.heirs.map (·.figure) ∧
      (∀ name, name ≠ "transform" →
        next.heirs.map (·.values name) = doc.heirs.map (·.values name)) ∧
      next.heirs.map (·.transform) = doc.heirs.map (·.transform) := by
  have htransform := seen_document inherited_transform hdistinct
  refine ⟨_, rfl, ?_, fun name hname => ?_, ?_⟩
  · have hfigures := congrArg (List.map Prod.fst) htransform
    rwa [List.map_map, List.map_map] at hfigures
  · have hvalues := congrArg (List.map Prod.snd)
      (seen_document (inherited_values hname) hdistinct)
    rwa [List.map_map, List.map_map] at hvalues
  · have hjoined := congrArg (List.map fun seen => seen.2 []) htransform
    rw [List.map_map, List.map_map] at hjoined
    have htext (heir : Heir) : heir.transform = transformAlong heir.line [] := by
      rw [transformAlong, List.append_nil]
      rfl
    rw [funext htext]
    exact hjoined

/-- A group around a group around a path: attributes go down twice, and transforms are put together
in the order in which they apply. -/
theorem collapse_keeps_inherited_nested :
    let doc : Document := ⟨[.element ⟨"svg", []⟩
      [.element ⟨"g", [⟨"fill", "red"⟩, ⟨"transform", "scale(2)"⟩]⟩
        [.element ⟨"g", [⟨"transform", "rotate(9)"⟩]⟩
          [.element ⟨"path", [⟨"transform", "skewX(1)"⟩]⟩ [.leaf .text "a"]]]]]⟩
    (∀ tag ∈ doc.tags, (tag.attributes.map (·.name)).Nodup) ∧
      ∃ next, collapseGroups.apply [] doc = .ok next ∧
        next.heirs.map (·.figure) = doc.heirs.map (·.figure) ∧
        (∀ name, name ≠ "transform" →
          next.heirs.map (·.values name) = doc.heirs.map (·.values name)) ∧
        next.heirs.map (·.transform) = doc.heirs.map (·.transform) := by
  intro doc
  have hdistinct : ∀ tag ∈ doc.tags, (tag.attributes.map (·.name)).Nodup := by decide +kernel
  exact ⟨hdistinct, collapse_keeps_inherited hdistinct []⟩

end Groups

end SvgPress
