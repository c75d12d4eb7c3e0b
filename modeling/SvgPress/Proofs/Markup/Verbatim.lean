import SvgPress.Proofs.Markup.Regions

/-!
Character data that stays as it was written. An element loses what is trimmed from its own texts and
from those of the elements in it; each of them is trimmed or kept on its own, so the character data
of an element is as written exactly if nothing at all was to be trimmed in it. That an element shows
text does not keep the white space of other elements in it.
-/

namespace SvgPress

namespace Mark

/-- The character data of a mark, empty for every other kind. -/
def characters : Mark → List Char
  | .leaf .text s => s.toList
  | .leaf .cdata s => s.toList
  | _ => []

def charactersOf (ps : List Mark) : List Char :=
  ps.flatMap characters

def isOpening : Mark → Bool
  | .opening _ => true
  | _ => false

end Mark

/-- The texts outside of elements, among marks before which `depth` elements are open. -/
def directTexts : Nat → List Mark → List String
  | _, [] => []
  | depth, .opening _ :: rest => directTexts (depth + 1) rest
  | depth, .closing _ :: rest => directTexts (depth - 1) rest
  | depth, .leaf .text s :: rest =>
    if depth = 0 then s :: directTexts depth rest else directTexts depth rest
  | depth, .leaf _ _ :: rest => directTexts depth rest

namespace Region

/-- The character data in an element, at any depth, as it was read. -/
def characters (r : Region) : List Char :=
  Mark.charactersOf r.inner

/-- The texts of the element itself. -/
def texts (r : Region) : List String :=
  directTexts 0 r.inner

/-- Whether an element keeps the white space of its own texts: by its name, because it or an element
around it asks for that, or because its texts stand beside elements and are more than white
space. -/
def keepsSpace (r : Region) : Bool :=
  textElements.contains r.tag.name || (r.tag :: r.outer).any (·.preservesSpace) ||
    (r.inner.any Mark.isOpening && r.texts.any (!Text.isBlankText ·))

/-- The elements in an element, at any depth. -/
def nested (r : Region) : List Region :=
  regions (r.tag :: r.outer) r.inner

/-- Whether the parser has no white space to drop in the texts of the element itself. -/
def StaysWhole (r : Region) : Prop :=
  r.keepsSpace ∨ ∀ s ∈ r.texts, Text.trim s = s

instance (r : Region) : Decidable r.StaysWhole :=
  inferInstanceAs (Decidable (_ ∨ _))

end Region

namespace Node

def text? : Node → Option String
  | .leaf .text s => some s
  | _ => none

theorem text_of_other {n : Node} (h : n.isLeaf .text = false) : n.text? = none := by
  cases n with
  | element tag children => rfl
  | leaf kind s =>
      cases kind with
      | text => cases h
      | cdata | comment | declaration | instruction | doctype => rfl

mutual

theorem direct_texts_inside : (n : Node) → (depth : Nat) → (rest : List Mark) →
    directTexts (depth + 1) (n.marks ++ rest) = directTexts (depth + 1) rest
  | .element tag children, depth, rest => by
      rw [marks, List.cons_append, directTexts, List.append_assoc,
        direct_texts_inside_all children (depth + 1), List.singleton_append, directTexts,
        Nat.add_sub_cancel]
  | .leaf kind s, depth, rest => by
      cases kind with
      | text => exact if_neg (by omega)
      | cdata | comment | declaration | instruction | doctype => rfl

theorem direct_texts_inside_all : (ns : List Node) → (depth : Nat) → (rest : List Mark) →
    directTexts (depth + 1) (marksOf ns ++ rest) = directTexts (depth + 1) rest
  | [], _, _ => rfl
  | n :: ns, depth, rest => by
      rw [marksOf, List.append_assoc, direct_texts_inside n, direct_texts_inside_all ns]

end

theorem direct_texts_marks_of (ns : List Node) :
    directTexts 0 (marksOf ns) = ns.filterMap text? := by
  induction ns with
  | nil => rfl
  | cons n ns ih =>
      rw [marksOf, List.filterMap_cons, ← ih]
      cases n with
      | element tag children =>
          rw [marks, List.cons_append, directTexts, List.append_assoc,
            direct_texts_inside_all children 0, List.singleton_append, directTexts]
          rfl
      | leaf kind s =>
          cases kind with
          | text => rfl
          | cdata | comment | declaration | instruction | doctype => rfl

theorem opening_marks_of (ns : List Node) :
    (marksOf ns).any Mark.isOpening = ns.any isElement := by
  induction ns with
  | nil => rfl
  | cons n ns ih =>
      rw [marksOf, List.any_append, ih, List.any_cons]
      cases n with
      | element tag children => rfl
      | leaf kind s => rfl

theorem shows_text_any (ns : List Node) :
    (ns.filterMap text?).any (!Text.isBlankText ·) = ns.any showsText := by
  induction ns with
  | nil => rfl
  | cons n ns ih =>
      rw [List.filterMap_cons, List.any_cons, ← ih]
      cases n with
      | element tag children => rfl
      | leaf kind s =>
          cases kind with
          | text => rfl
          | cdata | comment | declaration | instruction | doctype => rfl

end Node

namespace PlacedElement

variable (e : PlacedElement)

/-- Whether an element around asks for white space to be kept. -/
def kept : Bool :=
  e.outer.any (·.preservesSpace)

theorem texts_region : e.region.texts = e.children.filterMap Node.text? :=
  Node.direct_texts_marks_of e.children

/-- What a region says of white space is what the parser looks at. -/
theorem keeps_space_region : e.region.keepsSpace = (keepsOwnSpace e.tag e.children || e.kept) := by
  rw [Region.keepsSpace, texts_region, Node.shows_text_any, region, Node.opening_marks_of,
    List.any_cons, keepsOwnSpace, isMixed, kept]
  ac_rfl

theorem stays_whole_region : e.region.StaysWhole ↔
    (keepsOwnSpace e.tag e.children || e.kept) ∨
      ∀ s ∈ e.children.filterMap Node.text?, Text.trim s = s := by
  rw [Region.StaysWhole, keeps_space_region, texts_region]

theorem nested_region :
    e.region.nested = (Node.placedOf (e.tag :: e.outer) e.children).map region :=
  regions_flattened (e.tag :: e.outer) e.children

end PlacedElement

/-! ### What settling does to character data -/

section Settling

open Mark (charactersOf)

theorem Mark.characters_of_append (ps qs : List Mark) :
    charactersOf (ps ++ qs) = charactersOf ps ++ charactersOf qs :=
  List.flatMap_append

/-- Two parts that lost characters make the same text only if neither lost any. -/
theorem append_sublist_eq_iff {α : Type} {cs ds cs' ds' : List α} (hc : cs'.Sublist cs)
    (hd : ds'.Sublist ds) : cs' ++ ds' = cs ++ ds ↔ cs' = cs ∧ ds' = ds := by
  constructor
  · intro h
    have hlength := congrArg List.length h
    rw [List.length_append, List.length_append] at hlength
    have hclength := hc.length_le
    have hdlength := hd.length_le
    exact ⟨hc.eq_of_length (by omega), hd.eq_of_length (by omega)⟩
  · rintro ⟨rfl, rfl⟩
    rfl

/-- What lost characters twice is as it was only if it lost none either time. -/
theorem sublist_twice_eq_iff {α : Type} {cs ds es : List α} (hc : cs.Sublist ds)
    (hd : ds.Sublist es) : cs = es ↔ cs = ds ∧ ds = es := by
  constructor
  · rintro rfl
    exact ⟨hc.antisymm hd, hd.antisymm hc⟩
  · rintro ⟨rfl, rfl⟩
    rfl

namespace Node

theorem characters_of_cons (n : Node) (ns : List Node) :
    charactersOf (marksOf (n :: ns)) = charactersOf n.marks ++ charactersOf (marksOf ns) := by
  rw [marksOf, Mark.characters_of_append]

/-- The tags of an element are no character data. -/
theorem characters_of_element (tag : Tag) (children : List Node) :
    charactersOf (element tag children).marks = charactersOf (marksOf children) := by
  rw [marks, ← List.singleton_append, Mark.characters_of_append, Mark.characters_of_append]
  exact List.append_nil _

theorem characters_of_text (s : String) : charactersOf (leaf .text s).marks = s.toList :=
  List.append_nil _

/-- A trimmed text, or no text at all where nothing was left of it. -/
theorem characters_of_trim_texts_text (s : String) (ns : List Node) :
    charactersOf (marksOf (trimTexts (.leaf .text s :: ns))) =
      (Text.trim s).toList ++ charactersOf (marksOf (trimTexts ns)) := by
  rw [trim_texts_text]
  split
  · rename_i hempty
    rw [String.isEmpty_iff.mp hempty]
    rfl
  · rw [characters_of_cons, characters_of_text]

theorem characters_of_trim_texts_sublist (ns : List Node) :
    (charactersOf (marksOf (trimTexts ns))).Sublist (charactersOf (marksOf ns)) := by
  induction ns with
  | nil => exact List.Sublist.refl _
  | cons n ns ih =>
      rcases n.text_or_other with ⟨s, rfl⟩ | hother
      · rw [characters_of_trim_texts_text, characters_of_cons, characters_of_text]
        exact (Text.trim_sublist s).append ih
      · rw [trim_texts_other hother, characters_of_cons, characters_of_cons]
        exact (List.Sublist.refl _).append ih

theorem characters_of_trim_texts_iff (ns : List Node) :
    charactersOf (marksOf (trimTexts ns)) = charactersOf (marksOf ns) ↔
      ∀ s ∈ ns.filterMap text?, Text.trim s = s := by
  induction ns with
  | nil => simp [trimTexts]
  | cons n ns ih =>
      have hrest := characters_of_trim_texts_sublist ns
      rcases n.text_or_other with ⟨s, rfl⟩ | hother
      · rw [characters_of_trim_texts_text, characters_of_cons, characters_of_text,
          append_sublist_eq_iff (Text.trim_sublist s) hrest, ih, String.toList_inj,
          List.filterMap_cons_some (f := text?) (b := s) rfl, List.forall_mem_cons]
      · rw [trim_texts_other hother, characters_of_cons, characters_of_cons,
          List.append_cancel_left_eq, ih, List.filterMap_cons_none (text_of_other hother)]

theorem characters_of_settle_sublist (tag : Tag) (kept : Bool) (ns : List Node) :
    (charactersOf (marksOf (settle tag kept ns))).Sublist (charactersOf (marksOf ns)) := by
  unfold settle
  split
  · exact List.Sublist.refl _
  · exact characters_of_trim_texts_sublist ns

theorem characters_of_settle_iff (tag : Tag) (kept : Bool) (ns : List Node) :
    charactersOf (marksOf (settle tag kept ns)) = charactersOf (marksOf ns) ↔
      (keepsOwnSpace tag ns || kept) ∨ ∀ s ∈ ns.filterMap text?, Text.trim s = s := by
  unfold settle
  split
  · rename_i hkeeps
    exact iff_of_true rfl (.inl hkeeps)
  · rename_i hkeeps
    rw [characters_of_trim_texts_iff, or_iff_right hkeeps]

/-- Settling the elements of a list leaves its own texts as they are. -/
theorem texts_of_settled_all (kept : Bool) (ns : List Node) :
    (settledAll kept ns).filterMap text? = ns.filterMap text? := by
  induction ns with
  | nil => rfl
  | cons n ns ih =>
      cases n with
      | element tag children => exact ih
      | leaf kind s => rw [settledAll, settled, List.filterMap_cons, List.filterMap_cons, ih]

theorem keeps_own_space_settled_all (tag : Tag) (kept : Bool) (ns : List Node) :
    keepsOwnSpace tag (settledAll kept ns) = keepsOwnSpace tag ns := by
  have helements : (settledAll kept ns).any isElement = ns.any isElement := by
    rw [settled_all_eq_map, List.any_map]
    congr 1
    funext n
    cases n <;> rfl
  rw [keepsOwnSpace, keepsOwnSpace, isMixed, isMixed, helements, ← shows_text_any,
    texts_of_settled_all, shows_text_any]

mutual

theorem characters_of_settled_sublist : (n : Node) → (kept : Bool) →
    (charactersOf (n.settled kept).marks).Sublist (charactersOf n.marks)
  | .element tag children, kept => by
      rw [settled, characters_of_element, characters_of_element]
      exact (characters_of_settle_sublist tag kept _).trans
        (characters_of_settled_all_sublist children _)
  | .leaf .., _ => List.Sublist.refl _

theorem characters_of_settled_all_sublist : (ns : List Node) → (kept : Bool) →
    (charactersOf (marksOf (settledAll kept ns))).Sublist (charactersOf (marksOf ns))
  | [], _ => List.Sublist.refl _
  | n :: ns, kept => by
      rw [settledAll, characters_of_cons, characters_of_cons]
      exact (characters_of_settled_sublist n kept).append
        (characters_of_settled_all_sublist ns kept)

end

/-- An element with its white space settled, of whatever is in it settled before. -/
theorem characters_of_settled_element_iff (e : PlacedElement) :
    charactersOf (marksOf (settledElement e).children) = charactersOf (marksOf e.children) ↔
      e.region.StaysWhole ∧
        charactersOf (marksOf (settledAll (e.tag.preservesSpace || e.kept) e.children)) =
          charactersOf (marksOf e.children) := by
  rw [settledElement, sublist_twice_eq_iff (characters_of_settle_sublist _ _ _)
      (characters_of_settled_all_sublist e.children _), characters_of_settle_iff,
    keeps_own_space_settled_all, texts_of_settled_all, ← PlacedElement.kept,
    PlacedElement.stays_whole_region]

mutual

/-- Settling a node drops no character data exactly if there is none to drop in any element of
it. -/
theorem characters_of_settled_iff : (n : Node) → (outer : List Tag) →
    (charactersOf (n.settled (outer.any (·.preservesSpace))).marks = charactersOf n.marks ↔
      ∀ e ∈ n.placed outer, e.region.StaysWhole)
  | .element tag children, outer => by
      have hchildren := characters_of_settled_all_iff children (tag :: outer)
      rw [List.any_cons] at hchildren
      have helement := characters_of_settled_element_iff ⟨outer, tag, children⟩
      rw [PlacedElement.kept, hchildren] at helement
      rw [settled, characters_of_element, characters_of_element, placed, List.forall_mem_cons]
      exact helement
  | .leaf .., _ => iff_of_true rfl (by simp [placed])

theorem characters_of_settled_all_iff : (ns : List Node) → (outer : List Tag) →
    (charactersOf (marksOf (settledAll (outer.any (·.preservesSpace)) ns)) =
        charactersOf (marksOf ns) ↔
      ∀ e ∈ placedOf outer ns, e.region.StaysWhole)
  | [], _ => iff_of_true rfl (by simp [placedOf])
  | n :: ns, outer => by
      rw [settledAll, characters_of_cons, characters_of_cons,
        append_sublist_eq_iff (characters_of_settled_sublist n _)
          (characters_of_settled_all_sublist ns _),
        characters_of_settled_iff n, characters_of_settled_all_iff ns, placedOf,
        List.forall_mem_append]

end

end Node

/-- An element that is settled keeps its character data exactly if no white space is to be dropped
in it or in an element inside. -/
theorem PlacedElement.characters_settled_iff (e : PlacedElement) :
    (Node.settledElement e).region.characters = e.region.characters ↔
      ∀ r ∈ e.region :: e.region.nested, r.StaysWhole := by
  have hinner := Node.characters_of_settled_all_iff e.children (e.tag :: e.outer)
  rw [List.any_cons] at hinner
  rw [List.forall_mem_cons, nested_region, List.forall_mem_map, ← hinner]
  exact Node.characters_of_settled_element_iff e

end Settling

/-- A text element keeps its own white space. -/
theorem Region.stays_whole_of_text_element {r : Region} (h : r.tag.name ∈ textElements) :
    r.StaysWhole :=
  .inl (by simp [keepsSpace, h])

namespace Document

/-- The elements of a document that is read are those of its text, in their order. The character
data of an element, at any depth, is that of its text without some of the white space, and it is as
it was written if neither the element nor one inside has white space to drop. -/
theorem characters_of_parse {source : String} {doc : Document} (h : parse source = .ok doc) :
    List.Forall₂ (fun (r : Region) (e : PlacedElement) => e.outer = r.outer ∧ e.tag = r.tag ∧
        e.region.characters.Sublist r.characters ∧
        (e.region.characters = r.characters ↔ ∀ n ∈ r :: r.nested, n.StaysWhole))
      (Markup.regions source) doc.placed := by
  obtain ⟨raw, helements, hregions⟩ := placed_of_parse h
  rw [helements, hregions, List.forall₂_map_left_iff, List.forall₂_map_right_iff,
    List.forall₂_same]
  intro e _
  refine ⟨rfl, rfl, ?_, e.characters_settled_iff⟩
  exact (Node.characters_of_settle_sublist _ _ _).trans
    (Node.characters_of_settled_all_sublist e.children _)

/-- The character data of a text element is kept as it was written, with that of all elements in it,
exactly if no element in it has white space to drop. That the element around them shows text does
not keep theirs. -/
theorem text_verbatim_iff {source : String} {doc : Document} (h : parse source = .ok doc) :
    List.Forall₂ (fun (r : Region) (e : PlacedElement) => e.outer = r.outer ∧ e.tag = r.tag ∧
        (r.tag.name ∈ textElements →
          (e.region.characters = r.characters ↔ ∀ n ∈ r.nested, n.StaysWhole)))
      (Markup.regions source) doc.placed := by
  refine (characters_of_parse h).imp fun r e heach => ?_
  obtain ⟨houter, htag, -, hwhole⟩ := heach
  refine ⟨houter, htag, fun htext => ?_⟩
  rw [hwhole, List.forall_mem_cons, and_iff_right (Region.stays_whole_of_text_element htext)]

theorem text_verbatim_spans :
    let source := "<text> a <a>b</a><tspan> c </tspan></text>"
    let doc : Document := ⟨[.element ⟨"text", []⟩ [.leaf .text " a ",
      .element ⟨"a", []⟩ [.leaf .text "b"], .element ⟨"tspan", []⟩ [.leaf .text " c "]]]⟩
    parse source = .ok doc ∧
      ∃ r e, (Markup.regions source).head? = some r ∧ doc.placed.head? = some e ∧
        e.region.characters = r.characters ∧ r.characters = " a b c ".toList := by
  intro source doc
  have hdoc : parse source = .ok doc := by decide +kernel
  have hregions : Markup.regions source =
      [⟨[], ⟨"text", []⟩, [.leaf .text " a ", .opening ⟨"a", []⟩, .leaf .text "b", .closing "a",
          .opening ⟨"tspan", []⟩, .leaf .text " c ", .closing "tspan"]⟩,
        ⟨[⟨"text", []⟩], ⟨"a", []⟩, [.leaf .text "b"]⟩,
        ⟨[⟨"text", []⟩], ⟨"tspan", []⟩, [.leaf .text " c "]⟩] := by
    decide +kernel
  have hall := text_verbatim_iff hdoc
  rw [hregions] at hall
  cases hall with
  | cons hfirst hrest =>
      obtain ⟨-, -, hverbatim⟩ := hfirst
      exact ⟨hdoc, _, _, congrArg List.head? hregions, rfl,
        (hverbatim (by decide)).mpr (by decide +kernel), by decide +kernel⟩

/-- In an element that is no text element the texts are trimmed, also where it stands in a text
element. -/
theorem text_not_verbatim :
    let source := "<svg><text>Hello<a> World</a></text></svg>"
    let doc : Document := ⟨[.element ⟨"svg", []⟩ [.element ⟨"text", []⟩ [.leaf .text "Hello",
      .element ⟨"a", []⟩ [.leaf .text "World"]]]]⟩
    parse source = .ok doc ∧
      ∃ r ∈ Markup.regions source, ∃ e ∈ doc.placed, r.tag = ⟨"text", []⟩ ∧ e.tag = ⟨"text", []⟩ ∧
        r.characters = "Hello World".toList ∧ e.region.characters = "HelloWorld".toList := by
  intro source doc
  refine ⟨by decide +kernel, ?_⟩
  refine ⟨⟨[⟨"svg", []⟩], ⟨"text", []⟩, [.leaf .text "Hello", .opening ⟨"a", []⟩,
    .leaf .text " World", .closing "a"]⟩, by decide +kernel, ⟨[⟨"svg", []⟩], ⟨"text", []⟩,
    [.leaf .text "Hello", .element ⟨"a", []⟩ [.leaf .text "World"]]⟩, by decide +kernel, rfl, rfl,
    by decide +kernel, by decide +kernel⟩

end Document

end SvgPress
