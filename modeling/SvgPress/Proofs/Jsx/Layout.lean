import SvgPress.Proofs.Jsx.Spelling
import SvgPress.Proofs.Text.Trim

/-!
Converted markup as pieces. What is written for an element is spelled from pieces, and the pieces
are read back as they are exactly where the names are names and the braces of each object literal
are balanced. Which pieces are white space of the layout, and which are character data, can be seen
from the pieces, not from the text.
-/

namespace SvgPress.Jsx

/-- The object literal that an attribute is written as, if it is written as one. -/
def style? (a : Attribute) : Option String :=
  if a.name = "style" then styleObject? a.value else none

/-- An attribute as it is to be read. -/
def meant (a : Attribute) : String × Meaning :=
  match style? a with
  | some object => ("style", .code object)
  | none => (attributeName a.name, .string a.value)

def meanings (tag : Tag) : Meanings :=
  tag.attributes.map meant

/-- Whether an attribute can be told from the rest of its tag: the braces of an object literal are
balanced, and any other attribute is written under a name. -/
def Stands (a : Attribute) : Prop :=
  match style? a with
  | some object => IsClosed object.toList
  | none => ∀ c ∈ (attributeName a.name).toList, isNamePart c

/-- Whether a tag can be told from what stands around it. -/
def StandsOut (tag : Tag) : Prop :=
  (∀ c ∈ tag.name.toList, isNamePart c) ∧ ∀ a ∈ tag.attributes, Stands a

instance (a : Attribute) : Decidable (Stands a) := by
  unfold Stands
  split <;> infer_instance

instance (tag : Tag) : Decidable (StandsOut tag) :=
  inferInstanceAs (Decidable (_ ∧ _))

theorem object_of_style {a : Attribute} {object : String} (h : style? a = some object) :
    styleObject? a.value = some object := by
  unfold style? at h
  split at h
  · exact h
  · cases h

/-- Object literals begin with their brace. -/
theorem head_style {a : Attribute} {object : String} (h : style? a = some object) :
    object.toList.head? = some '\x7b' := by
  have hobject := object_of_style h
  unfold styleObject? at hobject
  obtain ⟨entries, -, hwritten⟩ := Option.bind_eq_some_iff.mp hobject
  cases hwritten
  simp [String.toList_append]

theorem stands_iff (a : Attribute) :
    Stands a ↔ (∀ c ∈ (meant a).1.toList, isNamePart c) ∧ (meant a).2.IsClear := by
  unfold Stands meant
  cases hstyle : style? a with
  | none => simp [Meaning.IsClear]
  | some object =>
      have hcode : Meaning.ofSource object.toList = .code object :=
        Meaning.of_source_code (by rw [head_style hstyle]; decide)
      simp only [Meaning.IsClear, hcode, and_true]
      exact (and_iff_right (by decide)).symm

theorem stands_out_iff (tag : Tag) :
    StandsOut tag ↔ (∀ c ∈ tag.name.toList, isNamePart c) ∧ AreClear (meanings tag) := by
  rw [StandsOut, AreClear, meanings, List.forall_mem_map]
  simp only [stands_iff]

section Pieces

/-- Character data as it is written. -/
def textPiece (s : String) : Piece :=
  if s.toList.any "\x7b\x7d<>&".toList.contains then .braces (.string s) else .literal s

theorem text_piece_clear (s : String) : (textPiece s).IsClear := by
  unfold textPiece
  split
  · trivial
  · rename_i hplain
    intro c hc
    rw [isLiteral, Bool.not_eq_true', Bool.eq_false_iff]
    exact fun h => hplain (List.any_eq_true.mpr ⟨c, hc, h⟩)

mutual

/-- A node on one line. -/
def inline : Node → List Piece
  | .element tag children =>
    if children.any isShown then
      .opening tag.name (meanings tag) :: (inlineAll children ++ [.closing tag.name])
    else [.single tag.name (meanings tag)]
  | .leaf kind s => if isCharacterData (.leaf kind s) then [textPiece s] else []
termination_by structural n => n

def inlineAll : List Node → List Piece
  | [] => []
  | n :: rest => inline n ++ inlineAll rest
termination_by structural ns => ns

end

/-- Without anything that is shown there are no pieces. -/
theorem inline_all_of_hidden {ns : List Node} (h : ¬ ns.any isShown = true) :
    inlineAll ns = [] := by
  induction ns with
  | nil => rfl
  | cons n ns ih =>
      rw [List.any_cons, Bool.or_eq_true, not_or] at h
      rw [inlineAll, ih h.2, List.append_nil]
      cases n with
      | element tag children => exact absurd rfl h.1
      | leaf kind s =>
          have hdata : ¬ isCharacterData (.leaf kind s) = true := by
            simpa [isShown, Node.isElement] using h.1
          rw [inline, if_neg hdata]

/-- White space in front of an element that is on lines of its own. -/
def margin (indent depth : Nat) : Piece :=
  .literal (Text.spaces (depth * indent))

mutual

/-- An element on lines of its own, without its margin and the line feed behind it. -/
def laid (indent depth : Nat) : Node → List Piece
  | .element tag children =>
    if children.any isCharacterData then
      .opening tag.name (meanings tag) :: (inlineAll children ++ [.closing tag.name])
    else if children.any isShown then
      .opening tag.name (meanings tag) :: .literal "\n" ::
        (laidAll indent (depth + 1) children ++ [margin indent depth, .closing tag.name])
    else [.single tag.name (meanings tag)]
  | .leaf .. => []
termination_by structural n => n

def laidAll (indent depth : Nat) : List Node → List Piece
  | [] => []
  | n :: rest =>
    if n.isElement then
      margin indent depth :: (laid indent depth n ++ .literal "\n" :: laidAll indent depth rest)
    else laidAll indent depth rest
termination_by structural ns => ns

end

end Pieces

section Writing

theorem to_list_write_attribute (a : Attribute) :
    (writeAttribute a).toList = (meant a).1.toList ++ '=' :: (meant a).2.spell := by
  have hwrite : writeAttribute a =
      match style? a with
      | some style => "style=\x7b" ++ style ++ "\x7d"
      | none => attributeName a.name ++ "=" ++ attributeValue a.value := rfl
  rw [hwrite, meant]
  cases style? a with
  | none => simp [Meaning.spell, String.toList_append]
  | some object => simp [Meaning.spell, String.toList_append]

theorem to_list_opening (tag : Tag) :
    (opening tag).toList = '<' :: (tag.name.toList ++ spellAttributes (meanings tag)) := by
  have hattributes (attributes : Attributes) :
      (String.join (attributes.map fun a => " " ++ writeAttribute a)).toList =
        spellAttributes (attributes.map meant) := by
    induction attributes with
    | nil => rfl
    | cons a attributes ih =>
        rw [List.map_cons, String.join_cons, String.toList_append, ih, String.toList_append,
          to_list_write_attribute]
        simp [spellAttributes]
  simp [opening, String.toList_append, hattributes, meanings]

theorem to_list_closing (tag : Tag) :
    (closing tag).toList = (Piece.closing tag.name).spell := by
  simp [closing, Piece.spell, String.toList_append]

theorem to_list_text_of (s : String) : (textOf s).toList = (textPiece s).spell := by
  unfold textOf textPiece
  split <;> rfl

/-- A start tag, and what follows it. -/
theorem spell_opening (tag : Tag) (cs : List Char) :
    (Piece.opening tag.name (meanings tag)).spell ++ cs = (opening tag).toList ++ '>' :: cs := by
  simp [to_list_opening, Piece.spell]

theorem spell_single (tag : Tag) :
    (Piece.single tag.name (meanings tag)).spell = (opening tag).toList ++ [' ', '/', '>'] := by
  simp [to_list_opening, Piece.spell]

mutual

theorem to_list_write_inline : (n : Node) → (writeInline n).toList = spellAll (inline n)
  | .element tag children => by
      rw [writeInline, inline]
      split
      · simp only [spell_all_cons, spell_all_append, spell_all_nil, List.append_nil, spell_opening,
          String.toList_append, to_list_write_inline_all children, to_list_closing]
        simp
      · simp only [spell_all_cons, spell_all_nil, List.append_nil, spell_single,
          String.toList_append]
        rfl
  | .leaf kind s => by
      rw [writeInline, inline]
      split
      · rw [to_list_text_of, spell_all_cons, spell_all_nil, List.append_nil]
      · rfl

theorem to_list_write_inline_all :
    (ns : List Node) → (writeInlineAll ns).toList = spellAll (inlineAll ns)
  | [] => rfl
  | n :: rest => by
      rw [writeInlineAll, inlineAll, String.toList_append, to_list_write_inline n,
        to_list_write_inline_all rest, spell_all_append]

end

theorem any_shown_of_character_data {ns : List Node} (h : ns.any isCharacterData = true) :
    ns.any isShown = true := by
  obtain ⟨n, hn, hdata⟩ := List.any_eq_true.mp h
  exact List.any_eq_true.mpr ⟨n, hn, by rw [isShown, hdata, Bool.or_true]⟩

mutual

/-- An element on lines of its own: the margin, the element and a line feed. -/
theorem to_list_write (indent depth : Nat) : (n : Node) →
    (write indent depth n).toList =
      if n.isElement then (margin indent depth).spell ++ (spellAll (laid indent depth n) ++ ['\n'])
      else []
  | .element tag children => by
      have helement : (Node.element tag children).isElement = true := rfl
      rw [if_pos helement, write, laid]
      by_cases hdata : children.any isCharacterData = true
      · have hshown := any_shown_of_character_data hdata
        simp only [hdata, hshown, Bool.not_true, Bool.false_eq_true, if_true, if_false]
        simp only [spell_all_cons, spell_all_append, spell_all_nil, List.append_nil, spell_opening,
          String.toList_append, to_list_write_inline_all children, to_list_closing]
        simp [margin, Piece.spell]
      · by_cases hshown : children.any isShown = true
        · simp only [hdata, hshown, Bool.not_true, Bool.false_eq_true, if_true, if_false]
          simp only [spell_all_cons, spell_all_append, spell_all_nil, List.append_nil,
            List.append_assoc, spell_opening, String.toList_append,
            to_list_write_all indent (depth + 1) children, to_list_closing]
          simp [margin, Piece.spell]
        · rw [if_pos (by simpa using hshown), if_neg hdata, if_neg hshown]
          simp only [spell_all_cons, spell_all_nil, List.append_nil, spell_single,
            String.toList_append]
          simp [margin, Piece.spell]
  | .leaf .. => rfl

theorem to_list_write_all (indent depth : Nat) : (ns : List Node) →
    (writeAll indent depth ns).toList = spellAll (laidAll indent depth ns)
  | [] => rfl
  | n :: rest => by
      rw [writeAll, laidAll, String.toList_append, to_list_write indent depth n,
        to_list_write_all indent depth rest]
      split
      · simp [Piece.spell]
      · rfl

end

/-- Elements end in a bracket. -/
theorem spell_laid_ends (indent depth : Nat) (tag : Tag) (children : List Node) :
    ∃ front, spellAll (laid indent depth (.element tag children)) = front ++ ['>'] := by
  have hclosing (ps : List Piece) :
      ∃ front, spellAll (ps ++ [.closing tag.name]) = front ++ ['>'] :=
    ⟨spellAll ps ++ '<' :: '/' :: tag.name.toList, by simp [Piece.spell]⟩
  rw [laid]
  split
  · rw [← List.cons_append]
    exact hclosing _
  · split
    · have hsplit (ps : List Piece) (p q r s : Piece) :
          p :: q :: (ps ++ [r, s]) = p :: q :: (ps ++ [r]) ++ [s] := by simp
      rw [hsplit]
      exact hclosing _
    · exact ⟨(opening tag).toList ++ [' ', '/'], by simp [spell_single]⟩

/-- The JSX of a root element is the element alone. -/
theorem trim_end_write (indent : Nat) (tag : Tag) (children : List Node) :
    Text.trimEnd (write indent 0 (.element tag children)) =
      String.ofList (spellAll (laid indent 0 (.element tag children))) := by
  have hmargin : (margin indent 0).spell = [] := by
    simp [margin, Piece.spell, Text.spaces]
  have helement : (Node.element tag children).isElement = true := rfl
  obtain ⟨front, hfront⟩ := spell_laid_ends indent 0 tag children
  rw [Text.trimEnd, to_list_write, if_pos helement, hmargin, List.nil_append,
    Text.drop_back_append_of_all (by decide), hfront, Text.drop_back_concat_of_not (by decide)]

end Writing

section Parts

/-- The pieces that elements with these tags are laid out with. -/
inductive Piece.IsPart (tags : List Tag) : Piece → Prop where
  | opening {tag : Tag} (h : tag ∈ tags) : IsPart tags (.opening tag.name (meanings tag))
  | single {tag : Tag} (h : tag ∈ tags) : IsPart tags (.single tag.name (meanings tag))
  | closing {tag : Tag} (h : tag ∈ tags) : IsPart tags (.closing tag.name)
  | text (s : String) : IsPart tags (textPiece s)
  | feed : IsPart tags (.literal "\n")
  | margin (indent depth : Nat) : IsPart tags (margin indent depth)

theorem Piece.IsPart.mono {tags others : List Tag} (h : tags ⊆ others) {p : Piece}
    (hp : p.IsPart tags) : p.IsPart others := by
  cases hp with
  | opening htag => exact .opening (h htag)
  | single htag => exact .single (h htag)
  | closing htag => exact .closing (h htag)
  | text s => exact .text s
  | feed => exact .feed
  | margin indent depth => exact .margin indent depth

/-- The pieces of an element, when those of its content are known. -/
theorem parts_of_element (tag : Tag) {tags : List Tag} {ps : List Piece}
    (hps : ∀ p ∈ ps, p.IsPart tags) :
    ∀ p ∈ Piece.opening tag.name (meanings tag) :: (ps ++ [.closing tag.name]),
      p.IsPart (tag :: tags) := by
  intro p hp
  rw [List.mem_cons, List.mem_append, List.mem_singleton] at hp
  rcases hp with rfl | hp | rfl
  · exact .opening List.mem_cons_self
  · exact (hps p hp).mono (List.subset_cons_self tag tags)
  · exact .closing List.mem_cons_self

theorem parts_of_single {tag : Tag} {tags : List Tag} :
    ∀ p ∈ [Piece.single tag.name (meanings tag)], p.IsPart (tag :: tags) := by
  rw [List.forall_mem_singleton]
  exact .single List.mem_cons_self

mutual

theorem parts_of_inline : (n : Node) → ∀ p ∈ inline n, p.IsPart n.tags
  | .element tag children => by
      rw [inline, Node.tags]
      split
      · exact parts_of_element tag (parts_of_inline_all children)
      · exact parts_of_single
  | .leaf kind s => by
      rw [inline]
      split
      · rw [List.forall_mem_singleton]
        exact .text s
      · exact fun p hp => absurd hp List.not_mem_nil

theorem parts_of_inline_all : (ns : List Node) → ∀ p ∈ inlineAll ns, p.IsPart (Node.tagsOf ns)
  | [] => fun p hp => absurd hp List.not_mem_nil
  | n :: rest => by
      rw [inlineAll, Node.tagsOf, List.forall_mem_append]
      exact ⟨fun p hp => (parts_of_inline n p hp).mono (List.subset_append_left _ _),
        fun p hp => (parts_of_inline_all rest p hp).mono (List.subset_append_right _ _)⟩

end

mutual

theorem parts_of_laid (indent depth : Nat) : (n : Node) → ∀ p ∈ laid indent depth n, p.IsPart n.tags
  | .element tag children => by
      rw [laid, Node.tags]
      split
      · exact parts_of_element tag (parts_of_inline_all children)
      · split
        · have hcontent : ∀ p ∈ .literal "\n" ::
              (laidAll indent (depth + 1) children ++ [margin indent depth]),
              p.IsPart (Node.tagsOf children) := by
            rw [List.forall_mem_cons, List.forall_mem_append, List.forall_mem_singleton]
            exact ⟨.feed, parts_of_laid_all indent (depth + 1) children, .margin indent depth⟩
          have hall := parts_of_element tag hcontent
          simpa using hall
        · exact parts_of_single
  | .leaf .. => fun p hp => absurd hp List.not_mem_nil

theorem parts_of_laid_all (indent depth : Nat) :
    (ns : List Node) → ∀ p ∈ laidAll indent depth ns, p.IsPart (Node.tagsOf ns)
  | [] => fun p hp => absurd hp List.not_mem_nil
  | n :: rest => by
      have hrest : ∀ p ∈ laidAll indent depth rest, p.IsPart (Node.tagsOf (n :: rest)) := by
        intro p hp
        exact (parts_of_laid_all indent depth rest p hp).mono (List.subset_append_right _ _)
      rw [laidAll]
      split
      · rw [List.forall_mem_cons, List.forall_mem_append, List.forall_mem_cons]
        exact ⟨.margin indent depth, fun p hp =>
          (parts_of_laid indent depth n p hp).mono (List.subset_append_left _ _), .feed, hrest⟩
      · exact hrest

end

/-- The parts of elements are clear if their tags stand out. -/
theorem Piece.IsPart.clear {tags : List Tag} (h : ∀ tag ∈ tags, StandsOut tag) {p : Piece}
    (hp : p.IsPart tags) : p.IsClear := by
  cases hp with
  | opening htag => exact (stands_out_iff _).mp (h _ htag)
  | single htag => exact (stands_out_iff _).mp (h _ htag)
  | closing htag => exact (h _ htag).1
  | text s => exact text_piece_clear s
  | feed =>
      rw [Piece.IsClear]
      decide
  | margin indent depth =>
      intro c hc
      rw [Text.spaces, String.toList_ofList] at hc
      rw [List.eq_of_mem_replicate hc]
      decide

/-- An element is laid out in clear pieces if all tags in it stand out. -/
theorem laid_clear (indent depth : Nat) (n : Node) (h : ∀ tag ∈ n.tags, StandsOut tag) :
    ∀ p ∈ laid indent depth n, p.IsClear :=
  fun p hp => (parts_of_laid indent depth n p hp).clear h

end Parts

end SvgPress.Jsx
