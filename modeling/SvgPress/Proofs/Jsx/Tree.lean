import SvgPress.Proofs.Jsx.Layout
import SvgPress.Proofs.Pipeline.Acceptance

/-!
Converted markup as a tree. Pieces are nested from the last to the first: a closing tag begins the
content of an element, and its opening tag ends it. The tree that comes out of converted markup is
the tree of the root element, with its elements, attributes and texts in their places. It has no
other text than the layout of elements without character data.
-/

namespace SvgPress.Jsx

/-- What stands in JSX. The text between two tags is one item, however it is spelled. -/
inductive Item where
  | element (name : String) (attributes : Meanings) (children : List Item)
  | text (s : String)
  deriving Repr

namespace Item

mutual

/-- The tags of an item, in document order. -/
def tags : Item → List (String × Meanings)
  | .element name attributes children => (name, attributes) :: tagsOf children
  | .text _ => []
termination_by structural item => item

def tagsOf : List Item → List (String × Meanings)
  | [] => []
  | item :: rest => item.tags ++ tagsOf rest
termination_by structural items => items

end

theorem tags_of_append (items others : List Item) :
    tagsOf (items ++ others) = tagsOf items ++ tagsOf others := by
  induction items with
  | nil => rfl
  | cons item items ih => rw [List.cons_append, tagsOf, tagsOf, ih, List.append_assoc]

end Item

section Text

/-- Text in front of items. -/
def consText (s : String) : List Item → List Item
  | .text t :: items => .text (s ++ t) :: items
  | items => if s.isEmpty then items else .text s :: items

theorem cons_text_append (s t : String) (items : List Item) :
    consText (s ++ t) items = consText s (consText t items) := by
  match items with
  | .text u :: items => simp [consText, String.append_assoc]
  | [] | .element .. :: _ =>
      by_cases ht : t = "" <;> by_cases hs : s = "" <;> simp [consText, hs, ht]

theorem cons_text_empty (items : List Item) : consText "" items = items := by
  unfold consText
  split
  · rw [String.empty_append]
  · rfl

theorem tags_of_cons_text (s : String) (items : List Item) :
    Item.tagsOf (consText s items) = Item.tagsOf items := by
  unfold consText
  split
  · rfl
  · split
    · rfl
    · rfl

end Text

/-- Pieces that were read from the end: what stands in the innermost element that has not begun, and
for each of these elements, by name, what stands after it. -/
structure Nest where
  items : List Item
  outer : List (String × List Item)

namespace Nest

/-- One more piece in front. -/
def add? (p : Piece) (nest : Nest) : Option Nest :=
  match p with
  | .literal s => some { nest with items := consText s nest.items }
  | .braces (.string s) => some { nest with items := consText s nest.items }
  | .braces (.code _) => none
  | .single name attributes => some { nest with items := .element name attributes [] :: nest.items }
  | .closing name => some ⟨[], (name, nest.items) :: nest.outer⟩
  | .opening name attributes =>
    match nest.outer with
    | (ended, after) :: outer =>
      if ended = name then some ⟨.element name attributes nest.items :: after, outer⟩ else none
    | [] => none

/-- Pieces in front. -/
def addAll? (ps : List Piece) (nest : Nest) : Option Nest :=
  ps.foldr (fun p next => next.bind (add? p)) (some nest)

@[simp] theorem add_all_nil (nest : Nest) : addAll? [] nest = some nest := rfl

@[simp] theorem add_all_cons (p : Piece) (ps : List Piece) (nest : Nest) :
    addAll? (p :: ps) nest = (addAll? ps nest).bind (add? p) := rfl

theorem add_all_append (ps qs : List Piece) (nest : Nest) :
    addAll? (ps ++ qs) nest = (addAll? qs nest).bind (addAll? ps) := by
  induction ps with
  | nil => exact (Option.bind_fun_some _).symm
  | cons p ps ih =>
      rw [List.cons_append, add_all_cons, ih, Option.bind_assoc]
      rfl

/-- All tags, in document order. -/
def tags (nest : Nest) : List (String × Meanings) :=
  Item.tagsOf nest.items ++ nest.outer.flatMap fun (_, after) => Item.tagsOf after

end Nest

/-- The tag of an element, where it begins. -/
def Piece.tag? : Piece → Option (String × Meanings)
  | .opening name attributes => some (name, attributes)
  | .single name attributes => some (name, attributes)
  | _ => none

/-- The items that pieces make, if every element that is begun is ended. -/
def items? (ps : List Piece) : Option (List Item) :=
  match Nest.addAll? ps ⟨[], []⟩ with
  | some ⟨items, []⟩ => some items
  | _ => none

/-- The items that JSX is made of. -/
def readItems? (jsx : String) : Option (List Item) :=
  (read? jsx).bind items?

namespace Nest

variable {p : Piece} {nest next : Nest}

/-- A piece adds no tag but its own. -/
theorem tags_add (h : nest.add? p = some next) : next.tags = p.tag?.toList ++ nest.tags := by
  cases p with
  | literal s =>
      cases h
      simp [tags, Piece.tag?, tags_of_cons_text]
  | braces meaning =>
      cases meaning with
      | string s =>
          cases h
          simp [tags, Piece.tag?, tags_of_cons_text]
      | code source => cases h
  | single name attributes =>
      cases h
      simp [tags, Piece.tag?, Item.tagsOf, Item.tags]
  | closing name =>
      cases h
      simp [tags, Piece.tag?, Item.tagsOf]
  | opening name attributes =>
      obtain ⟨items, outer⟩ := nest
      cases outer with
      | nil => cases h
      | cons ended outer =>
          rw [add?] at h
          simp only at h
          split at h
          · cases h
            simp [tags, Piece.tag?, Item.tagsOf, Item.tags]
          · cases h

theorem tags_add_all {ps : List Piece} (h : nest.addAll? ps = some next) :
    next.tags = ps.filterMap Piece.tag? ++ nest.tags := by
  induction ps generalizing next with
  | nil =>
      cases h
      rfl
  | cons p ps ih =>
      rw [add_all_cons] at h
      obtain ⟨between, hps, hp⟩ := Option.bind_eq_some_iff.mp h
      rw [tags_add hp, ih hps, List.filterMap_cons]
      cases p.tag? with
      | none => rfl
      | some tag => rfl

theorem add_literal_append (s t : String) (nest : Nest) :
    (add? (.literal t) nest).bind (add? (.literal s)) = add? (.literal (s ++ t)) nest := by
  simp [add?, cons_text_append]

theorem add_literal_empty : add? (.literal "") = some := by
  funext nest
  rw [add?, cons_text_empty]

/-- A piece that comes together with the literal text behind it adds what the two add. -/
theorem add_all_onto (p : Piece) (ps : List Piece) (nest : Nest) :
    addAll? (p.onto ps) nest = addAll? (p :: ps) nest := by
  cases p with
  | literal s =>
      match ps with
      | .literal t :: ps =>
          rw [Piece.onto, consLiteral, add_all_cons, add_all_cons, add_all_cons, Option.bind_assoc]
          congr 1
          funext between
          exact (add_literal_append s t between).symm
      | [] | .opening .. :: _ | .single .. :: _ | .closing _ :: _ | .braces _ :: _ =>
          rw [Piece.onto, consLiteral]
          · split
            · rename_i hempty
              have hs : s = "" := by simpa using hempty
              rw [hs, add_all_cons (.literal ""), add_literal_empty, Option.bind_fun_some]
            · rfl
          · simp
  | opening _ _ | single _ _ | closing _ | braces _ => rfl

theorem add_all_joined (ps : List Piece) (nest : Nest) :
    addAll? (joined ps) nest = addAll? ps nest := by
  induction ps with
  | nil => rfl
  | cons p ps ih =>
      have hjoined : joined (p :: ps) = p.onto (joined ps) := rfl
      rw [hjoined, add_all_onto, add_all_cons, add_all_cons, ih]

end Nest

theorem items_joined (ps : List Piece) : items? (joined ps) = items? ps := by
  rw [items?, items?, Nest.add_all_joined]

/-- The tags of the items are those of the pieces. -/
theorem tags_of_items {ps : List Piece} {items : List Item} (h : items? ps = some items) :
    Item.tagsOf items = ps.filterMap Piece.tag? := by
  unfold items? at h
  split at h
  · rename_i found hfound
    cases h
    have htags := Nest.tags_add_all hfound
    simpa [Nest.tags, Item.tagsOf] using htags
  · cases h

/-- Whatever is read as items, names in it are names and code in it has balanced braces. -/
theorem tags_clear_of_read {jsx : String} {items : List Item} (h : readItems? jsx = some items) :
    ∀ tag ∈ Item.tagsOf items, (∀ c ∈ tag.1.toList, isNamePart c) ∧ AreClear tag.2 := by
  obtain ⟨ps, hps, hitems⟩ := Option.bind_eq_some_iff.mp h
  rw [tags_of_items hitems]
  intro tag htag
  obtain ⟨p, hp, hfound⟩ := List.mem_filterMap.mp htag
  have hclear := pieces_clear hps p hp
  cases p with
  | opening name attributes =>
      cases hfound
      exact hclear
  | single name attributes =>
      cases hfound
      exact hclear
  | closing _ | literal _ | braces _ => cases hfound

section Arranged

mutual

/-- A node in front of items, with all that stands in it. -/
def itemOnto : Node → List Item → List Item
  | .element tag children, items => .element tag.name (meanings tag) (itemsOf children) :: items
  | .leaf kind s, items => consText (Node.leaf kind s).characterData items
termination_by structural n => n

/-- Nodes as items: elements, and between them the character data. -/
def itemsOf : List Node → List Item
  | [] => []
  | n :: rest => itemOnto n (itemsOf rest)
termination_by structural ns => ns

end

/-- A line feed and the white space in front of a tag on a line of its own. -/
def gap (indent depth : Nat) : Item :=
  .text ("\n" ++ Text.spaces (depth * indent))

mutual

/-- An element, with a gap in front of each tag in it and in front of its closing tag, if there are
elements and no character data in it; the same for these elements. -/
def arranged (indent depth : Nat) : Node → List Item
  | .element tag children =>
    [.element tag.name (meanings tag)
      (if children.any isCharacterData then itemsOf children
        else if children.any isShown then
          arrangedAll indent (depth + 1) children ++ [gap indent depth]
        else [])]
  | .leaf .. => []
termination_by structural n => n

def arrangedAll (indent depth : Nat) : List Node → List Item
  | [] => []
  | n :: rest =>
    if n.isElement then
      gap indent depth :: (arranged indent depth n ++ arrangedAll indent depth rest)
    else arrangedAll indent depth rest
termination_by structural ns => ns

end

/-- What is not character data has none. -/
theorem character_data_of_other {kind : LeafKind} {s : String}
    (h : ¬ isCharacterData (.leaf kind s) = true) : (Node.leaf kind s).characterData = "" := by
  cases kind with
  | text => exact absurd rfl h
  | cdata => exact absurd rfl h
  | comment | declaration | instruction | doctype => rfl

namespace Nest

/-- An element between its tags. -/
theorem add_all_element {name : String} {attributes : Meanings} {ps : List Piece}
    {inner items : List Item} {outer : List (String × List Item)}
    (h : addAll? ps ⟨[], (name, items) :: outer⟩ = some ⟨inner, (name, items) :: outer⟩) :
    addAll? (.opening name attributes :: (ps ++ [.closing name])) ⟨items, outer⟩ =
      some ⟨.element name attributes inner :: items, outer⟩ := by
  rw [add_all_cons, add_all_append]
  simp [add?, h]

theorem add_all_text_piece (s : String) (items : List Item) (outer : List (String × List Item)) :
    addAll? [textPiece s] ⟨items, outer⟩ = some ⟨consText s items, outer⟩ := by
  unfold textPiece
  split <;> rfl

mutual

theorem add_all_inline : (n : Node) → (items : List Item) → (outer : List (String × List Item)) →
    addAll? (inline n) ⟨items, outer⟩ = some ⟨itemOnto n items, outer⟩
  | .element tag children, items, outer => by
      rw [inline, itemOnto]
      split
      · exact add_all_element (add_all_inline_all children _)
      · rename_i hhidden
        have hadded := add_all_inline_all children []
        rw [inline_all_of_hidden hhidden, add_all_nil] at hadded
        have hitems : [] = itemsOf children := congrArg Nest.items (Option.some.inj hadded)
        rw [← hitems]
        rfl
  | .leaf kind s, items, outer => by
      rw [inline, itemOnto]
      split
      · rename_i hdata
        rw [add_all_text_piece]
        cases kind with
        | text | cdata => rfl
        | comment | declaration | instruction | doctype => cases hdata
      · rename_i hdata
        rw [character_data_of_other hdata, cons_text_empty]
        rfl

theorem add_all_inline_all : (ns : List Node) → (outer : List (String × List Item)) →
    addAll? (inlineAll ns) ⟨[], outer⟩ = some ⟨itemsOf ns, outer⟩
  | [], _ => rfl
  | n :: rest, outer => by
      rw [inlineAll, itemsOf, add_all_append, add_all_inline_all rest, Option.bind_some,
        add_all_inline n]

end

/-- A line feed and a margin are read as a gap where no text follows. -/
theorem add_all_gap (indent depth : Nat) {items : List Item}
    (hitems : ∀ s rest, items ≠ .text s :: rest) (outer : List (String × List Item)) :
    addAll? [.literal "\n", margin indent depth] ⟨items, outer⟩ =
      some ⟨gap indent depth :: items, outer⟩ := by
  have hgap : consText "\n" (consText (Text.spaces (depth * indent)) items) =
      gap indent depth :: items := by
    rw [← cons_text_append, consText]
    · rw [if_neg (by simp), gap]
    · exact hitems
  rw [← hgap]
  rfl

theorem arranged_ne_text {indent depth : Nat} {n : Node} (h : n.isElement = true)
    (items : List Item) (s : String) (rest : List Item) :
    arranged indent depth n ++ items ≠ .text s :: rest := by
  cases n with
  | element tag children =>
      rw [arranged]
      simp
  | leaf kind s => cases h

mutual

theorem add_all_laid (indent depth : Nat) : (n : Node) → (items : List Item) →
    (outer : List (String × List Item)) →
    addAll? (laid indent depth n) ⟨items, outer⟩ =
      some ⟨arranged indent depth n ++ items, outer⟩
  | .element tag children, items, outer => by
      rw [laid, arranged]
      split
      · exact add_all_element (add_all_inline_all children _)
      · split
        · have hcontent := add_all_laid_all indent (depth + 1) children depth
            ((tag.name, items) :: outer)
          have hsplit : .literal "\n" :: (laidAll indent (depth + 1) children ++
              [margin indent depth, .closing tag.name]) =
              (.literal "\n" :: (laidAll indent (depth + 1) children ++ [margin indent depth])) ++
                [.closing tag.name] := by simp
          rw [hsplit]
          exact add_all_element hcontent
        · rfl
  | .leaf .., items, outer => rfl

/-- The lines of elements, between the opening tag and the closing tag that are around them. -/
theorem add_all_laid_all (indent depth : Nat) : (ns : List Node) → (last : Nat) →
    (outer : List (String × List Item)) →
    addAll? (.literal "\n" :: (laidAll indent depth ns ++ [margin indent last])) ⟨[], outer⟩ =
      some ⟨arrangedAll indent depth ns ++ [gap indent last], outer⟩
  | [], last, outer => add_all_gap indent last (by simp) outer
  | n :: rest, last, outer => by
      have hrest := add_all_laid_all indent depth rest last outer
      rw [laidAll, arrangedAll]
      split
      · rename_i helement
        have hsplit : Piece.literal "\n" :: (margin indent depth :: (laid indent depth n ++
            .literal "\n" :: laidAll indent depth rest) ++ [margin indent last]) =
            [.literal "\n", margin indent depth] ++ (laid indent depth n ++
              (.literal "\n" :: (laidAll indent depth rest ++ [margin indent last]))) := by simp
        rw [hsplit, add_all_append, add_all_append, hrest, Option.bind_some,
          add_all_laid indent depth n, Option.bind_some,
          add_all_gap indent depth (arranged_ne_text helement _)]
        simp
      · exact hrest

end

end Nest

theorem items_laid (indent depth : Nat) (n : Node) :
    items? (laid indent depth n) = some (arranged indent depth n) := by
  rw [items?, Nest.add_all_laid, List.append_nil]

end Arranged

section Tags

/-- A tag as it is to be read. -/
def readTag (tag : Tag) : String × Meanings :=
  (tag.name, meanings tag)

mutual

theorem tags_item_onto : (n : Node) → (items : List Item) →
    Item.tagsOf (itemOnto n items) = n.tags.map readTag ++ Item.tagsOf items
  | .element tag children, items => by
      rw [itemOnto, Item.tagsOf, Item.tags, tags_items_of children, Node.tags, List.map_cons]
      rfl
  | .leaf kind s, items => by
      rw [itemOnto, tags_of_cons_text]
      rfl

theorem tags_items_of : (ns : List Node) →
    Item.tagsOf (itemsOf ns) = (Node.tagsOf ns).map readTag
  | [] => rfl
  | n :: rest => by
      rw [itemsOf, tags_item_onto n, tags_items_of rest, Node.tagsOf, List.map_append]

end

/-- Without elements there are no tags. -/
theorem tags_of_hidden {ns : List Node} (h : ¬ ns.any isShown = true) : Node.tagsOf ns = [] := by
  have hadded := Nest.add_all_inline_all ns []
  rw [inline_all_of_hidden h, Nest.add_all_nil] at hadded
  have hitems : [] = itemsOf ns := congrArg Nest.items (Option.some.inj hadded)
  have htags := tags_items_of ns
  rw [← hitems] at htags
  exact List.map_eq_nil_iff.mp htags.symm

mutual

/-- The layout leaves the tags as they are. -/
theorem tags_arranged (indent depth : Nat) : (n : Node) →
    Item.tagsOf (arranged indent depth n) = n.tags.map readTag
  | .element tag children => by
      rw [arranged, Item.tagsOf, Item.tags, Item.tagsOf, List.append_nil, Node.tags, List.map_cons,
        readTag]
      congr 1
      split
      · exact tags_items_of children
      · split
        · rw [Item.tags_of_append, tags_arranged_all indent (depth + 1) children]
          exact List.append_nil _
        · rename_i hhidden
          rw [tags_of_hidden hhidden]
          rfl
  | .leaf .. => rfl

theorem tags_arranged_all (indent depth : Nat) : (ns : List Node) →
    Item.tagsOf (arrangedAll indent depth ns) = (Node.tagsOf ns).map readTag
  | [] => rfl
  | n :: rest => by
      rw [arrangedAll, Node.tagsOf, List.map_append]
      split
      · rw [Item.tagsOf, Item.tags_of_append, tags_arranged indent depth n,
          tags_arranged_all indent depth rest]
        rfl
      · rename_i hleaf
        rw [tags_arranged_all indent depth rest]
        cases n with
        | element tag children => exact absurd rfl hleaf
        | leaf kind s => rfl

end

end Tags

/-- A document that was read has a root element. -/
theorem root_of_parse {markup : String} {doc : Document} (h : Document.parse markup = .ok doc) :
    ∃ tag children, doc.root? = some (tag, children) := by
  have hroot := (Document.read_of_parse h).root
  obtain ⟨n, hn, helement⟩ := List.any_eq_true.mp hroot
  cases hfound : doc.root? with
  | some found => exact ⟨found.1, found.2, rfl⟩
  | none =>
      have hnone := List.findSome?_eq_none_iff.mp hfound n hn
      cases n with
      | element tag children => cases hnone
      | leaf kind s => cases helement

/-- Markup that can be read is converted, and the JSX is the pieces of its root element. -/
theorem convert_pieces {markup : String} {doc : Document} (h : Document.parse markup = .ok doc)
    (indent : Nat) : ∃ tag children, doc.root? = some (tag, children) ∧
      convert indent markup =
        .ok (String.ofList (spellAll (laid indent 0 (.element tag children)))) := by
  obtain ⟨tag, children, hroot⟩ := root_of_parse h
  exact ⟨tag, children, hroot, by rw [convert_of_root h hroot, trim_end_write]⟩

/-- Markup that can be read is converted. The JSX is read back as the root element, with its
elements, attributes and texts in their places, exactly if every tag stands out: names are names,
and the braces of each object literal are balanced. -/
theorem converted_tree_iff {markup : String} {doc : Document}
    (h : Document.parse markup = .ok doc) (indent : Nat) :
    ∃ tag children jsx, doc.root? = some (tag, children) ∧ convert indent markup = .ok jsx ∧
      (readItems? jsx = some (arranged indent 0 (.element tag children)) ↔
        ∀ t ∈ (Node.element tag children).tags, StandsOut t) := by
  obtain ⟨tag, children, hroot, hconvert⟩ := convert_pieces h indent
  refine ⟨tag, children, _, hroot, hconvert, ?_, ?_⟩
  · intro hread t ht
    rw [stands_out_iff]
    refine tags_clear_of_read hread (readTag t) ?_
    rw [tags_arranged]
    exact List.mem_map_of_mem ht
  · intro hout
    have hclear := laid_clear indent 0 (.element tag children) hout
    rw [readItems?, read?, String.toList_ofList, pieces_spell_all hclear, Option.bind_some,
      items_joined, items_laid]

/-- A group with an object literal, a value that cannot be written in quotation marks, and an
element with character data, of which part is in braces. -/
theorem converted_tree_drawing :
    let markup := "<svg><!--x--><g style='fill: red'><path d='M0&#10;1\"'/></g>" ++
      "<text>a <tspan class='b'/><![CDATA[<c>]]></text></svg>"
    let doc : Document := ⟨[.element ⟨"svg", []⟩ [.leaf .comment "x",
      .element ⟨"g", [⟨"style", "fill: red"⟩]⟩ [.element ⟨"path", [⟨"d", "M0\n1\""⟩]⟩ []],
      .element ⟨"text", []⟩ [.leaf .text "a ", .element ⟨"tspan", [⟨"class", "b"⟩]⟩ [],
        .leaf .cdata "<c>"]]]⟩
    Document.parse markup = .ok doc ∧ (∀ t ∈ doc.tags, StandsOut t) ∧
      ∃ tag children jsx, doc.root? = some (tag, children) ∧ convert 2 markup = .ok jsx ∧
        (readItems? jsx = some (arranged 2 0 (.element tag children)) ↔
          ∀ t ∈ (Node.element tag children).tags, StandsOut t) := by
  intro markup doc
  have hparse : Document.parse markup = .ok doc := by decide +kernel
  exact ⟨hparse, by decide +kernel, converted_tree_iff hparse 2⟩

/-- A property that is no name is written into the object literal as it is. Here it ends the tag and
begins another one, and the JSX is the JSX of a root element with two groups. -/
theorem property_read_as_tag :
    let markup := "<svg>t<g style=\"- \x7d\x7d /&gt;&lt;g style=\x7b\x7b c: d\"/></svg>"
    let root : Node := .element ⟨"svg", []⟩ [.leaf .text "t",
      .element ⟨"g", [⟨"style", "- \x7d\x7d /><g style=\x7b\x7b c: d"⟩]⟩ []]
    let jsx := "<svg>t<g style=\x7b\x7b  \x7d\x7d /><g style=\x7b\x7b c: \"d\" \x7d\x7d /></svg>"
    Document.parse markup = .ok ⟨[root]⟩ ∧ convert 2 markup = .ok jsx ∧
      convert 2 "<svg>t<g style=\"\"/><g style=\"c: d\"/></svg>" = .ok jsx ∧
      (readItems? jsx).map Item.tagsOf = some [("svg", []),
        ("g", [("style", .code "\x7b  \x7d")]), ("g", [("style", .code "\x7b c: \"d\" \x7d")])] ∧
      readItems? jsx ≠ some (arranged 2 0 root) := by
  intro markup root jsx
  have htags : (readItems? jsx).map Item.tagsOf = some [("svg", []),
      ("g", [("style", .code "\x7b  \x7d")]), ("g", [("style", .code "\x7b c: \"d\" \x7d")])] := by
    decide +kernel
  refine ⟨by decide +kernel, by decide +kernel, by decide +kernel, htags, fun hread => ?_⟩
  rw [hread, Option.map_some, tags_arranged] at htags
  exact absurd (congrArg List.length (Option.some.inj htags)) (by decide)

end SvgPress.Jsx
