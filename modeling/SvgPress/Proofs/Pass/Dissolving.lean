import SvgPress.Proofs.Pass.Ordinary

/-!
Groups that are dissolved. What they ask for goes to where their content goes, so white space that
was kept in a group is kept there as well.
-/

namespace SvgPress

open Markup Node

namespace Groups

theorem hand_down_eq (child : Tag) (a : Attribute) :
    ∃ value, handDown child a = child.setAttribute a.name value ∧
      (a.name ≠ "transform" → value = a.value) := by
  unfold handDown
  split
  · rename_i hname
    rw [hname]
    split
    · exact ⟨_, rfl, fun hne => absurd rfl hne⟩
    · exact ⟨_, rfl, fun hne => absurd rfl hne⟩
  · exact ⟨_, rfl, fun _ => rfl⟩

theorem hand_down_all_name (attributes : Attributes) (child : Tag) :
    (attributes.foldl handDown child).name = child.name := by
  induction attributes generalizing child with
  | nil => rfl
  | cons a rest ih =>
      obtain ⟨value, hset, -⟩ := hand_down_eq child a
      rw [List.foldl_cons, ih, hset]
      rfl

theorem names_hand_down_all_nodup (attributes : Attributes) {child : Tag}
    (h : (child.attributes.map (·.name)).Nodup) :
    ((Tag.attributes (attributes.foldl handDown child)).map (·.name)).Nodup := by
  induction attributes generalizing child with
  | nil => exact h
  | cons a rest ih =>
      obtain ⟨value, hset, -⟩ := hand_down_eq child a
      rw [List.foldl_cons, hset]
      exact ih (Attributes.nodup_set h value)

theorem hand_down_all_ordinary {attributes : Attributes}
    (hkeys : ∀ a ∈ attributes, isPlainKey a.name.toList ∧ a.IsOrdinary) {child : Tag}
    (h : child.IsOrdinary) : Tag.IsOrdinary (attributes.foldl handDown child) := by
  induction attributes generalizing child with
  | nil => exact h
  | cons a rest ih =>
      rw [List.forall_mem_cons] at hkeys
      obtain ⟨⟨hkey, ha⟩, hrest⟩ := hkeys
      obtain ⟨value, hset, hvalue⟩ := hand_down_eq child a
      rw [List.foldl_cons, hset]
      refine ih hrest (h.set (a := ⟨a.name, value⟩) hkey fun hname => ?_)
      have hne : a.name ≠ "transform" := by
        rw [show a.name = "xmlns:xml" from hname]
        decide
      rw [show Attribute.value ⟨a.name, value⟩ = a.value from hvalue hne]
      exact ha hname

/-- What a child says after attributes were handed down to it. -/
theorem attribute_hand_down_all {attributes : Attributes}
    (hdistinct : (attributes.map (·.name)).Nodup) (child : Tag) {name : String}
    (hname : name ≠ "transform") :
    Tag.attribute? (attributes.foldl handDown child) name =
      (attributes.get? name).or (child.attribute? name) := by
  induction attributes generalizing child with
  | nil => rfl
  | cons a rest ih =>
      obtain ⟨hnot, hrest⟩ := List.nodup_cons.mp hdistinct
      obtain ⟨value, hset, hvalue⟩ := hand_down_eq child a
      rw [List.foldl_cons, ih hrest, hset, Attributes.get_cons]
      by_cases ha : a.name = name
      · subst ha
        have hgone : Attributes.get? rest a.name = none := Attributes.get_eq_none_iff.mpr hnot
        have hself : (child.setAttribute a.name value).attribute? a.name = some value :=
          Attributes.get_set_self value
        rw [hgone, hself, hvalue hname, if_pos rfl]
        rfl
      · have hother : (child.setAttribute a.name value).attribute? name = child.attribute? name :=
          Attributes.get_set_of_ne (Ne.symm ha) value
        rw [if_neg ha, hother]

/-- A child to which a group's attributes were handed down keeps white space where it or the group
did. -/
theorem hand_down_all_space {group child : Tag} (hgroup : group.IsOrdinary)
    (hcan : canHandDown group.attributes child)
    (h : group.preservesSpace || child.preservesSpace) :
    Tag.preservesSpace (group.attributes.foldl handDown child) := by
  have hspace (tag : Tag) : tag.preservesSpace ↔ tag.attribute? "xml:space" = some "preserve" :=
    beq_iff_eq
  rw [hspace, attribute_hand_down_all hgroup.plain.distinct child (by decide)]
  rw [Bool.or_eq_true, hspace, hspace] at h
  rcases h with hasks | hasks
  · have hget : group.attributes.get? "xml:space" = some "preserve" := hasks
    rw [hget]
    rfl
  · -- a child that says something itself is given nothing else
    have hnone : group.attributes.get? "xml:space" = none := by
      rw [Attributes.get_eq_none_iff]
      intro hmem
      obtain ⟨a, ha, hname⟩ := List.mem_map.mp hmem
      have hhas : child.hasAttribute "xml:space" := Attributes.has_of_get hasks
      have hcannot : canHandDown group.attributes child = false := by
        rw [canHandDown, Bool.not_eq_false', List.any_eq_true]
        refine ⟨a, ha, ?_⟩
        simp [hname, hhas]
      rw [hcan] at hcannot
      cases hcannot
    rw [hnone, hasks]
    rfl

end Groups

namespace Node

mutual

/-- A property that holds a fortiori where white space is kept. -/
theorem everywhere_mono {q : Bool → Node → Prop}
    (hq : ∀ (kept outside : Bool) n, (kept → outside) → q kept n → q outside n) : (n : Node) →
    (kept outside : Bool) → (kept → outside) → n.Everywhere q kept → n.Everywhere q outside
  | .leaf .., kept, outside, hkept, h => hq kept outside _ hkept h
  | .element _ children, kept, outside, hkept, h =>
      ⟨hq kept outside _ hkept h.1,
        everywhere_in_mono hq children _ _ (kept_mono (fun hspace => hspace) hkept) h.2⟩

theorem everywhere_in_mono {q : Bool → Node → Prop}
    (hq : ∀ (kept outside : Bool) n, (kept → outside) → q kept n → q outside n) : (ns : List Node) →
    (kept outside : Bool) → (kept → outside) → EverywhereIn q kept ns → EverywhereIn q outside ns
  | [], _, _, _, _ => trivial
  | n :: ns, kept, outside, hkept, h =>
      ⟨everywhere_mono hq n kept outside hkept h.1,
        everywhere_in_mono hq ns kept outside hkept h.2⟩

end

end Node

theorem ordinary_mono {ns : List Node} {kept outside : Bool} (hkept : kept → outside)
    (h : EverywhereIn Node.IsOrdinary kept ns) : EverywhereIn Node.IsOrdinary outside ns := by
  refine everywhere_in_mono ?_ ns kept outside hkept h
  rintro kept outside (⟨tag, children⟩ | ⟨kind, s⟩) hkept h
  · exact IsOrdinary.of_texts h h.1 (keeps_padding_mono rfl (fun hspace => hspace) hkept) rfl
  · exact h

namespace Groups

/-- What is known of the nodes that stand in the place of some others once groups are dissolved:
text among them was there before, or white space is kept, or some of them shows. -/
structure Dissolves (kept : Bool) (ns ms : List Node) : Prop where
  ordinary : EverywhereIn Node.IsOrdinary kept ms
  text : ms.any (isLeaf .text) → ns.any (isLeaf .text) ∨ kept ∨ ms.any showsText
  shows : ns.any showsText → ms.any showsText

theorem Dissolves.append {kept : Bool} {ns ms ns' ms' : List Node} (h : Dissolves kept ns ms)
    (h' : Dissolves kept ns' ms') : Dissolves kept (ns ++ ns') (ms ++ ms') where
  ordinary := everywhere_in_append.mpr ⟨h.ordinary, h'.ordinary⟩
  text htext := by
    simp only [List.any_append, Bool.or_eq_true] at htext ⊢
    rcases htext with htext | htext
    · rcases h.text htext with hold | hkept | hshows
      · exact .inl (.inl hold)
      · exact .inr (.inl hkept)
      · exact .inr (.inr (.inl hshows))
    · rcases h'.text htext with hold | hkept | hshows
      · exact .inl (.inr hold)
      · exact .inr (.inl hkept)
      · exact .inr (.inr (.inr hshows))
  shows hshows := by
    simp only [List.any_append, Bool.or_eq_true] at hshows ⊢
    exact hshows.imp h.shows h'.shows

theorem dissolves_of_element {kept : Bool} {tag other : Tag} {children others : List Node}
    (h : EverywhereIn Node.IsOrdinary kept [.element other others]) :
    Dissolves kept [.element tag children] [.element other others] where
  ordinary := h
  text htext := by cases htext
  shows hshows := by cases hshows

/-- An element whose children were dissolved is as ordinary as it was. -/
theorem ordinary_of_dissolved {kept : Bool} {tag : Tag} {children others : List Node}
    (h : (Node.element tag children).IsOrdinary kept)
    (hbelow : Dissolves (kept || tag.preservesSpace) children others) :
    (Node.element tag others).IsOrdinary kept := by
  refine ⟨h.1, fun htext => ?_⟩
  rcases hbelow.text htext with hold | hkept | hshows
  · exact (h.2 hold).imp_right hbelow.shows
  · refine .inl ?_
    rw [Bool.or_comm] at hkept
    rw [Tag.keepsPadding, Bool.or_assoc, hkept, Bool.or_true]
  · exact .inr hshows

/-- The only child of a group that is dissolved, with all that the group asks for. -/
theorem ordinary_handed_down {kept : Bool} {group child : Tag} {below : List Node}
    (hgroup : group.IsOrdinary) (hcan : canHandDown group.attributes child)
    (h : (Node.element child below).Everywhere Node.IsOrdinary (kept || group.preservesSpace)) :
    (Node.element (group.attributes.foldl handDown child) below).Everywhere Node.IsOrdinary
      kept := by
  obtain ⟨hchild, hbelow⟩ := h
  have hordinary : Tag.IsOrdinary (group.attributes.foldl handDown child) :=
    hand_down_all_ordinary (fun a ha => ⟨hgroup.plain.keys a ha, hgroup.attributes a ha⟩) hchild.1
  have hspace := hand_down_all_space hgroup hcan
  constructor
  · refine IsOrdinary.of_texts hchild hordinary (fun hkeeps => ?_) rfl
    simp only [Tag.keepsPadding, Bool.or_eq_true, hand_down_all_name] at hkeeps hspace ⊢
    rcases hkeeps with (hlisted | hasks) | (hkept | hasks)
    · exact .inl (.inl hlisted)
    · exact .inl (.inr (hspace (.inr hasks)))
    · exact .inr hkept
    · exact .inl (.inr (hspace (.inl hasks)))
  · refine ordinary_mono (fun hkept => ?_) hbelow
    simp only [Bool.or_eq_true] at hkept hspace ⊢
    rcases hkept with (hkept | hasks) | hasks
    · exact .inl hkept
    · exact .inr (hspace (.inl hasks))
    · exact .inr (hspace (.inr hasks))

theorem dissolves_dissolve {kept : Bool} {tag : Tag} {children others : List Node}
    (h : (Node.element tag children).IsOrdinary kept)
    (hbelow : Dissolves (kept || tag.preservesSpace) children others) :
    Dissolves kept [.element tag children] (dissolve tag others) := by
  have hstays : Dissolves kept [.element tag children] [.element tag others] :=
    dissolves_of_element ⟨⟨ordinary_of_dissolved h hbelow, hbelow.ordinary⟩, trivial⟩
  unfold dissolve
  split
  · exact hstays
  · rename_i hname
    have hgroup : tag.name = "g" := by simpa using hname
    split
    · rename_i hempty
      have hasks : tag.preservesSpace = false := by
        rw [Tag.preservesSpace, Tag.attribute?, List.isEmpty_iff.mp hempty]
        rfl
      have hlisted : textElements.contains tag.name = false := by
        rw [hgroup]
        decide
      have hordinary := hbelow.ordinary
      rw [hasks, Bool.or_false] at hordinary
      refine ⟨hordinary, fun htext => .inr ?_, fun hshows => by cases hshows⟩
      rcases (ordinary_of_dissolved h hbelow).2 htext with hkeeps | hshows
      · rw [Tag.keepsPadding, hlisted, hasks] at hkeeps
        exact .inl hkeeps
      · exact .inr hshows
    · split
      · split
        · rename_i child below hcan
          exact dissolves_of_element ⟨ordinary_handed_down h.1 hcan hbelow.ordinary.1, trivial⟩
        · exact hstays
      · exact hstays

mutual

theorem dissolves_collapse : (n : Node) → (kept : Bool) → n.Everywhere Node.IsOrdinary kept →
    Dissolves kept [n] (collapse n)
  | .leaf .., _, h => ⟨⟨h, trivial⟩, .inl, fun hshows => hshows⟩
  | .element _ children, _, h => dissolves_dissolve h.1 (dissolves_collapse_all children _ h.2)

theorem dissolves_collapse_all : (ns : List Node) → (kept : Bool) →
    EverywhereIn Node.IsOrdinary kept ns → Dissolves kept ns (collapseAll ns)
  | [], _, _ => ⟨trivial, .inl, fun hshows => hshows⟩
  | n :: ns, kept, h =>
      (dissolves_collapse n kept h.1).append (dissolves_collapse_all ns kept h.2)

end

end Groups

end SvgPress
