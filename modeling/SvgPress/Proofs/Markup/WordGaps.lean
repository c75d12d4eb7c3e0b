import SvgPress.Proofs.Markup.Verbatim
import SvgPress.Proofs.Jsx.WordSpacing

/-!
Words in the text of an element. Comments, instructions and CDATA parts cut the character data of an
element into several texts, and where white space is not kept each of the texts is trimmed on its
own. White space between two words then stays exactly if some of it is in one text with both, or in
a CDATA part. In elements with one text only no words are joined.
-/

namespace SvgPress

open Text (isBlank trimChars wordsFrom apartAfter)
open Jsx (Run TextReader KeepsSpacing)

/-! ### Trimming as a way to read texts -/

namespace Text

/-- No character but white space is trimmed. -/
theorem words_of_trim_chars (cs : List Char) :
    (trimChars cs).filter (!isBlank ·) = cs.filter (!isBlank ·) := by
  obtain ⟨front, back, hsplit, hfront, hback⟩ := trim_chars_split cs
  have hnone {ds : List Char} (h : ∀ d ∈ ds, isBlank d) : ds.filter (!isBlank ·) = [] :=
    List.filter_eq_nil_iff.mpr fun d hd => by simp [h d hd]
  conv_rhs => rw [hsplit, List.filter_append, List.filter_append, hnone hfront, hnone hback]
  rw [List.nil_append, List.append_nil]

/-- A text is read without the white space at its ends. -/
def trimmed : TextReader where
  literal := trimChars
  keepsEdge _ := false
  literal_blank h := by
    rw [trim_chars_eq_nil_iff.mpr h]
    exact ⟨List.forall_mem_nil _, rfl⟩
  literal_words := by
    intro front c hfront hc rest apart
    obtain ⟨back, hrest, hback, hlast⟩ := drop_back_split (p := isBlank) rest
    have htrim : trimChars (front ++ c :: rest) = c :: dropBack isBlank rest := by
      rw [trimChars, dropFront, List.dropWhile_append_of_pos hfront,
        List.dropWhile_cons_of_neg (by simp [hc])]
      exact drop_back_stop hc [] rest
    have hwords : wordsFrom false rest = wordsFrom false (dropBack isBlank rest) := by
      conv_lhs => rw [hrest, words_from_append, words_from_blank _ hback, List.append_nil]
    have hend : (dropBack isBlank rest).rtakeWhile isBlank = [] := by
      rw [List.rtakeWhile_eq_nil_iff]
      intro hne hblank
      have hword := hlast _ (List.getLast?_eq_some_getLast hne)
      rw [hblank] at hword
      cases hword
    rw [htrim, wordsFrom, if_neg (by simp [hc]), hwords, apartAfter, hc, apart_after_eq, hend,
      Bool.or_false]
    exact ⟨rfl, rfl⟩

end Text

/-! ### The texts and the CDATA parts of an element -/

/-- A leaf that is a text, or a CDATA part, which is read as it is. -/
def LeafKind.run? (content : String) : LeafKind → Option Run
  | .text => some ⟨false, content.toList⟩
  | .cdata => some ⟨true, content.toList⟩
  | _ => none

namespace Mark

def run? : Mark → Option Run
  | .leaf kind s => kind.run? s
  | _ => none

theorem characters_eq_runs (ps : List Mark) :
    charactersOf ps = (ps.filterMap run?).flatMap Run.chars := by
  induction ps with
  | nil => rfl
  | cons p ps ih =>
      rw [charactersOf, List.flatMap_cons, ← charactersOf, ih, List.filterMap_cons]
      cases p with
      | opening tag | closing name => rfl
      | leaf kind s => cases kind <;> rfl

end Mark

/-- The character data of an element, as the texts and CDATA parts it is in. -/
def Region.runs (r : Region) : List Run :=
  r.inner.filterMap Mark.run?

namespace Node

variable {ns : List Node}

/-- What a node adds to the text of the element it is in. -/
def run? : Node → Option Run
  | .leaf kind s => kind.run? s
  | _ => none

theorem text_of_runs (ns : List Node) :
    (textOf ns).toList = (ns.filterMap run?).flatMap Run.chars := by
  rw [textOf, String.toList_join]
  induction ns with
  | nil => rfl
  | cons n ns ih =>
      rw [List.map_cons, List.flatMap_cons, ih, List.filterMap_cons]
      cases n with
      | element tag children => rfl
      | leaf kind s => cases kind <;> rfl

/-- The text of trimmed children is what is read of the texts when each is trimmed. -/
theorem text_of_trim_texts (ns : List Node) :
    (textOf (trimTexts ns)).toList = (ns.filterMap run?).flatMap Text.trimmed.hear := by
  rw [text_of_runs]
  induction ns with
  | nil => rfl
  | cons n ns ih =>
      rcases n.text_or_other with ⟨s, rfl⟩ | hother
      · have hhear : Text.trimmed.hear ⟨false, s.toList⟩ = (Text.trim s).toList :=
          (Text.to_list_trim s).symm
        rw [trim_texts_text, List.filterMap_cons_some (f := run?) (a := .leaf .text s) rfl,
          List.flatMap_cons, hhear, ← ih]
        split
        · rename_i hempty
          rw [String.isEmpty_iff.mp hempty]
          rfl
        · rw [List.filterMap_cons_some (f := run?) (a := .leaf .text (Text.trim s)) rfl,
            List.flatMap_cons]
      · rw [trim_texts_other hother, List.filterMap_cons, List.filterMap_cons]
        cases hrun : n.run? with
        | none => exact ih
        | some run =>
            have hspoken : Text.trimmed.hear run = run.chars := by
              cases n with
              | element tag children => cases hrun
              | leaf kind s => cases kind <;> cases hrun <;> first | rfl | cases hother
            rw [List.flatMap_cons, List.flatMap_cons, ih, hspoken]

theorem runs_marks_of (h : ns.any isElement = false) :
    (marksOf ns).filterMap Mark.run? = ns.filterMap run? := by
  induction ns with
  | nil => rfl
  | cons n ns ih =>
      rw [List.any_cons, Bool.or_eq_false_iff] at h
      rw [marksOf, List.filterMap_append, ih h.2, List.filterMap_cons]
      cases n with
      | element tag children => cases h.1
      | leaf kind s => cases kind <;> rfl

/-- Leaves have nothing in them to settle. -/
theorem settled_all_of_leaves (h : ns.any isElement = false) (kept : Bool) :
    settledAll kept ns = ns := by
  induction ns with
  | nil => rfl
  | cons n ns ih =>
      rw [List.any_cons, Bool.or_eq_false_iff] at h
      rw [settledAll, ih h.2]
      cases n with
      | element tag children => cases h.1
      | leaf kind s => rfl

end Node

namespace PlacedElement

variable {e : PlacedElement}

/-- The text of an element without child elements: its character data, or what is left of it when
each text is trimmed. -/
theorem text_settled (h : e.children.any Node.isElement = false) :
    (textOf (Node.settledElement e).children).toList =
      if e.region.keepsSpace then e.region.runs.flatMap Run.chars
      else e.region.runs.flatMap Text.trimmed.hear := by
  have hruns : e.region.runs = e.children.filterMap Node.run? := Node.runs_marks_of h
  rw [Node.settledElement, Node.settled_all_of_leaves h, hruns, keeps_space_region, settle, kept]
  split
  · exact Node.text_of_runs e.children
  · exact Node.text_of_trim_texts e.children

theorem words_settled (h : e.children.any Node.isElement = false) :
    (textOf (Node.settledElement e).children).toList.filter (!isBlank ·) =
      e.region.characters.filter (!isBlank ·) := by
  rw [text_settled h, Region.characters, Mark.characters_eq_runs, ← Region.runs]
  split
  · rfl
  · rw [List.filter_flatMap, List.filter_flatMap]
    congr 1
    funext run
    rw [TextReader.hear]
    split
    · rfl
    · exact Text.words_of_trim_chars run.chars

theorem keeps_spacing_settled (h : e.children.any Node.isElement = false) :
    KeepsSpacing e.region.characters (textOf (Node.settledElement e).children).toList ↔
      e.region.keepsSpace ∨ ∀ gap ∈ Jsx.gaps e.region.runs, Text.trimmed.KeepsGap gap := by
  rw [text_settled h, Region.characters, Mark.characters_eq_runs, ← Region.runs]
  split
  · rename_i hkeeps
    exact iff_of_true ⟨rfl, fun _ _ hapart => hapart⟩ (.inl hkeeps)
  · rename_i hkeeps
    rw [Jsx.keeps_spacing_iff, or_iff_right hkeeps]
    exact Text.trimmed.stay_apart_iff e.region.runs

end PlacedElement

namespace Document

/-- The text of an element without child elements has all characters of its character data that are
not white space. Those that are apart in the character data stay apart exactly if the element keeps
its white space, or if each gap between different texts has white space in a CDATA part, as far as
it has white space at all. -/
theorem word_gaps_iff {source : String} {doc : Document} (h : parse source = .ok doc) :
    List.Forall₂ (fun (r : Region) (e : PlacedElement) => e.outer = r.outer ∧ e.tag = r.tag ∧
        (r.inner.any Mark.isOpening = false →
          (textOf e.children).toList.filter (!isBlank ·) = r.characters.filter (!isBlank ·) ∧
          (KeepsSpacing r.characters (textOf e.children).toList ↔
            r.keepsSpace ∨ ∀ gap ∈ Jsx.gaps r.runs, Text.trimmed.KeepsGap gap)))
      (Markup.regions source) doc.placed := by
  obtain ⟨raw, helements, hregions⟩ := placed_of_parse h
  rw [helements, hregions, List.forall₂_map_left_iff, List.forall₂_map_right_iff,
    List.forall₂_same]
  intro e _
  refine ⟨rfl, rfl, fun hnone => ?_⟩
  have hleaves : e.children.any Node.isElement = false := by
    rw [← Node.opening_marks_of]
    exact hnone
  exact ⟨PlacedElement.words_settled hleaves, PlacedElement.keeps_spacing_settled hleaves⟩

/-- White space in a CDATA part between two texts, and a comment next to white space at the end of
an element. -/
theorem word_gaps_title :
    let source := "<title> Hello <![CDATA[ ]]> World <!-- a badge --></title>"
    let doc : Document := ⟨[.element ⟨"title", []⟩ [.leaf .text "Hello", .leaf .cdata " ",
      .leaf .text "World", .leaf .comment " a badge "]]⟩
    parse source = .ok doc ∧
      ∃ r e, Markup.regions source = [r] ∧ doc.placed = [e] ∧
        r.characters = " Hello   World ".toList ∧ textOf e.children = "Hello World" ∧
        KeepsSpacing r.characters (textOf e.children).toList := by
  intro source doc
  have hdoc : parse source = .ok doc := by decide +kernel
  have hregions : Markup.regions source = [⟨[], ⟨"title", []⟩, [.leaf .text " Hello ",
      .leaf .cdata " ", .leaf .text " World ", .leaf .comment " a badge "]⟩] := by
    decide +kernel
  have hall := word_gaps_iff hdoc
  rw [hregions] at hall
  cases hall with
  | cons htitle hrest =>
      obtain ⟨-, -, hspacing⟩ := htitle
      exact ⟨hdoc, _, _, hregions, rfl, by decide +kernel, by decide +kernel,
        (hspacing (by decide)).2.mpr (by decide +kernel)⟩

/-- A comment parts two texts, and white space next to it is trimmed: the words are joined. -/
theorem words_joined_at_comment :
    let source := "<svg><title>Hello <!-- x -->World</title></svg>"
    let doc : Document := ⟨[.element ⟨"svg", []⟩ [.element ⟨"title", []⟩ [.leaf .text "Hello",
      .leaf .comment " x ", .leaf .text "World"]]]⟩
    parse source = .ok doc ∧
      ∃ r ∈ Markup.regions source, ∃ e ∈ doc.placed, r.tag = ⟨"title", []⟩ ∧ e.tag = r.tag ∧
        r.inner.any Mark.isOpening = false ∧ r.characters = "Hello World".toList ∧
        textOf e.children = "HelloWorld" ∧
        ¬ KeepsSpacing r.characters (textOf e.children).toList := by
  intro source doc
  refine ⟨by decide +kernel, ?_⟩
  refine ⟨⟨[⟨"svg", []⟩], ⟨"title", []⟩, [.leaf .text "Hello ", .leaf .comment " x ",
    .leaf .text "World"]⟩, by decide +kernel, ⟨[⟨"svg", []⟩], ⟨"title", []⟩,
    [.leaf .text "Hello", .leaf .comment " x ", .leaf .text "World"]⟩, by decide +kernel, rfl, rfl,
    rfl, by decide +kernel, by decide +kernel, fun hkept => ?_⟩
  -- `W` is apart from what is in front of it in one text, and not in the other.
  obtain ⟨k, c, hk, hlast, hword⟩ := hkept.2 4 5 ⟨5, 'W', by decide, le_refl 5, by decide +kernel⟩
  obtain rfl : k = 5 := by omega
  have hjoined : (wordsFrom true "HelloWorld".toList)[5]? = some ('W', false) := by decide
  have htext :
      (textOf [Node.leaf .text "Hello", .leaf .comment " x ", .leaf .text "World"]).toList =
      "HelloWorld".toList := by decide +kernel
  rw [htext, hjoined] at hword
  cases hword

end Document

end SvgPress
