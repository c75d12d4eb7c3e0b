import SvgPress.Proofs.Markup.Balance

/-!
Pretty writing against compact writing. Padding stands only in elements without text of their own,
and there reading drops it again, unless the element keeps white space for another reason: by its
name, or because it or an element around it asks for that. Those elements are the only ones that
tell the two layouts apart.
-/

namespace SvgPress

open Markup

theorem filter_join_texts (ns : List Node) :
    (joinTexts ns).filter (!·.isLeaf .text) = ns.filter (!·.isLeaf .text) := by
  have htext (s : String) : (Node.leaf .text s).isLeaf .text = true := rfl
  have hfront (s : String) (ms : List Node) :
      (joinFront s ms).filter (!·.isLeaf .text) = ms.filter (!·.isLeaf .text) := by
    unfold joinFront
    split <;> simp [htext]
  induction ns with
  | nil => rfl
  | cons n ns ih =>
      rcases n.text_or_other with ⟨s, rfl⟩ | hother
      · rw [List.filter_cons_of_neg (by simp [htext]), ← ih]
        by_cases hs : s = ""
        · rw [hs, join_texts_empty]
        · rw [join_texts_text hs, hfront]
      · rw [join_texts_other hother, List.filter_cons_of_pos (by simp [hother]),
          List.filter_cons_of_pos (by simp [hother]), ih]

theorem any_shows_text_join_texts (ns : List Node) :
    (joinTexts ns).any Node.showsText = ns.any Node.showsText := by
  have hfront (s : String) (ms : List Node) :
      (joinFront s ms).any Node.showsText =
        ((Node.leaf .text s).showsText || ms.any Node.showsText) := by
    unfold joinFront
    split
    · rename_i t more
      have happend : (Node.leaf .text (s ++ t)).showsText =
          ((Node.leaf .text s).showsText || (Node.leaf .text t).showsText) := by
        simp [Node.showsText, Text.isBlankText, List.all_append]
      rw [List.any_cons, List.any_cons, happend, Bool.or_assoc]
    · rw [List.any_cons]
  induction ns with
  | nil => rfl
  | cons n ns ih =>
      rcases n.text_or_other with ⟨s, rfl⟩ | hother
      · by_cases hs : s = ""
        · rw [hs, join_texts_empty, ih]
          rfl
        · rw [join_texts_text hs, hfront, ih, List.any_cons]
      · rw [join_texts_other hother, List.any_cons, ih, List.any_cons]

/-- Trimming leaves no text where none shows. -/
theorem trim_texts_of_blank {ns : List Node} (h : ns.any Node.showsText = false) :
    trimTexts ns = ns.filter (!·.isLeaf .text) := by
  have htext (s : String) : (Node.leaf .text s).isLeaf .text = true := rfl
  induction ns with
  | nil => rfl
  | cons n ns ih =>
      rw [List.any_cons, Bool.or_eq_false_iff] at h
      rcases n.text_or_other with ⟨s, rfl⟩ | hother
      · have hs : Text.trim s = "" := blank_text_iff_trim.mp (by simpa [Node.showsText] using h.1)
        rw [trim_texts_text, hs, if_pos (by rfl), List.filter_cons_of_neg (by simp [htext]), ih h.2]
      · rw [trim_texts_other hother, List.filter_cons_of_pos (by simp [hother]), ih h.2]

theorem shows_text_of_blank {s : String} (h : ∀ c ∈ s.toList, Text.isBlank c) :
    (Node.leaf .text s).showsText = false := by
  simpa [Node.showsText, Text.isBlankText] using h

theorem Node.shows_text_of_other {n : Node} (h : n.isLeaf .text = false) : n.showsText = false := by
  unfold showsText
  split
  · cases h
  · rfl

namespace Layout

/-- What padding adds to the children of an element does not show. -/
theorem any_shows_text_spread (layout : Layout) (depth : Nat) {ns : List Node}
    (h : ns.any (Node.isLeaf .text) = false) :
    (layout.spread depth ns).any Node.showsText = false := by
  have hpad (d : Nat) := shows_text_of_blank (layout.blank_pad d)
  have hnewline := shows_text_of_blank layout.blank_newline
  have haround (n : Node) (hn : n ∈ ns) :
      (layout.around (depth + 1) n).any Node.showsText = false := by
    have hother : n.isLeaf .text = false := by
      simpa using List.any_eq_false.mp h n hn
    simp [around, hpad, hnewline, Node.shows_text_of_other hother]
  unfold spread
  split
  · rfl
  · rw [List.any_append, List.any_cons, hnewline, List.any_flatMap]
    simp only [Bool.false_or, List.any_cons, List.any_nil, hpad, Bool.or_false]
    rw [List.any_eq_false]
    exact fun n hn => by simp [haround n hn]

theorem filter_spread (layout : Layout) (depth : Nat) (ns : List Node) :
    (layout.spread depth ns).filter (!·.isLeaf .text) = ns.filter (!·.isLeaf .text) := by
  have htext (s : String) : (Node.leaf .text s).isLeaf .text = true := rfl
  unfold spread
  split
  · rename_i hempty
    rw [List.isEmpty_iff.mp hempty]
  · rw [List.filter_append, List.filter_cons_of_neg (by simp [htext]), Node.filter_around,
      List.filter_cons_of_neg (by simp [htext]), List.filter_nil, List.append_nil]

/-- Pretty padding is there. -/
theorem head_join_texts_spread {layout : Layout} (hpretty : layout.pretty) (depth : Nat)
    {ns : List Node} (hne : ns.isEmpty = false) :
    ∃ s more, joinTexts (layout.spread depth ns) = .leaf .text s :: more := by
  have hnewline : layout.newline ≠ "" := by simp [newline, hpretty]
  rw [spread, if_neg (by simp [hne]), List.cons_append, join_texts_text hnewline]
  unfold joinFront
  split
  · exact ⟨_, _, rfl⟩
  · exact ⟨_, _, rfl⟩

end Layout

/-- An element that keeps its white space whatever stands in it keeps the padding. -/
theorem settle_spread_of_keeps {tag : Tag} {kept : Bool}
    (hkeeps : textElements.contains tag.name || tag.preservesSpace || kept) (ns : List Node) :
    settle tag kept ns = ns := by
  refine settle_of_keeps ?_
  rw [keepsOwnSpace]
  simp only [Bool.or_eq_true] at hkeeps ⊢
  rcases hkeeps with (hname | hasks) | hkept
  · exact .inl (.inl (.inl hname))
  · exact .inl (.inl (.inr hasks))
  · exact .inr hkept

/-- Any other element without text of its own drops the padding, and nothing else. -/
theorem settle_spread_of_not_keeps {tag : Tag} {kept : Bool}
    (hkeeps : (textElements.contains tag.name || tag.preservesSpace || kept) = false)
    (layout : Layout) (depth : Nat) {ns : List Node} (htext : ns.any (Node.isLeaf .text) = false) :
    settle tag kept (joinTexts (layout.spread depth ns)) = ns := by
  have hshows : (joinTexts (layout.spread depth ns)).any Node.showsText = false := by
    rw [any_shows_text_join_texts, layout.any_shows_text_spread depth htext]
  have hmixed : (keepsOwnSpace tag (joinTexts (layout.spread depth ns)) || kept) = false := by
    rw [keepsOwnSpace, isMixed, hshows, Bool.and_false, Bool.or_false]
    exact hkeeps
  rw [settle_of_not_keeps hmixed, trim_texts_of_blank hshows, filter_join_texts,
    layout.filter_spread, List.filter_eq_self]
  exact fun n hn => by simpa using List.any_eq_false.mp htext n hn

namespace Node

mutual

/-- Whether pretty writing puts white space where reading keeps it: into an element without text of
its own that has children and keeps its white space. Inside an element with text there is no
padding. -/
def gainsSpace (kept : Bool) : Node → Bool
  | .leaf .. => false
  | .element tag children =>
    !children.any (isLeaf .text) &&
      ((!children.isEmpty && (textElements.contains tag.name || tag.preservesSpace || kept)) ||
        gainSpace (kept || tag.preservesSpace) children)
termination_by structural n => n

def gainSpace (kept : Bool) : List Node → Bool
  | [] => false
  | n :: rest => n.gainsSpace kept || gainSpace kept rest
termination_by structural ns => ns

end

mutual

/-- A node is read back from pretty text as it is exactly if it gains no white space. -/
theorem reread_pretty_iff : (n : Node) → (layout : Layout) → layout.pretty → (depth : Nat) →
    (kept : Bool) → n.Everywhere IsSettled kept →
    (n.reread layout depth kept = n ↔ n.gainsSpace kept = false)
  | .leaf .., _, _, _, _, _ => by simp [reread, gainsSpace]
  | .element tag children, layout, hpretty, depth, kept, h => by
      have hcompact := reread_compact (.element tag children) depth kept h
      obtain ⟨-, hchildren⟩ := h
      cases htext : children.any (isLeaf .text) with
      | true =>
          have hinside : layout.inside children = .compact := if_pos htext
          have hsame : Layout.compact.inside children = .compact := if_pos htext
          rw [reread, hsame] at hcompact
          rw [reread, hinside, hcompact]
          simp [gainsSpace, htext]
      | false =>
          have hinside : layout.inside children = layout := if_neg (by simp [htext])
          have hread := reread_all_pretty_iff children layout hpretty (depth + 1)
            (kept || tag.preservesSpace) hchildren
          have hnone : (rereadAll layout (depth + 1) (kept || tag.preservesSpace)
              children).any (isLeaf .text) = false := by
            rw [reread_all_eq_map, List.any_map, ← htext]
            congr 1
            funext n
            exact is_leaf_reread .text layout (depth + 1) _ n
          rw [reread, hinside]
          simp only [gainsSpace, htext, Bool.not_false, Bool.true_and, element.injEq, true_and]
          cases hkeeps : textElements.contains tag.name || tag.preservesSpace || kept with
          | false =>
              rw [settle_spread_of_not_keeps hkeeps layout depth hnone, hread]
              simp
          | true =>
              rw [settle_spread_of_keeps hkeeps]
              cases children with
              | nil => simp [rereadAll, Layout.spread, joinTexts, gainSpace]
              | cons first more =>
                  obtain ⟨s, rest, hhead⟩ := Layout.head_join_texts_spread hpretty depth
                    (show (rereadAll layout (depth + 1) (kept || tag.preservesSpace)
                      (first :: more)).isEmpty = false from rfl)
                  rw [hhead]
                  have hfirst : Node.leaf .text s ≠ first := by
                    rintro rfl
                    simp [isLeaf] at htext
                  simp [hfirst]

theorem reread_all_pretty_iff : (ns : List Node) → (layout : Layout) → layout.pretty →
    (depth : Nat) → (kept : Bool) → EverywhereIn IsSettled kept ns →
    (rereadAll layout depth kept ns = ns ↔ gainSpace kept ns = false)
  | [], _, _, _, _, _ => by simp [rereadAll, gainSpace]
  | n :: ns, layout, hpretty, depth, kept, h => by
      rw [rereadAll, List.cons_eq_cons, reread_pretty_iff n layout hpretty depth kept h.1,
        reread_all_pretty_iff ns layout hpretty depth kept h.2, gainSpace, Bool.or_eq_false_iff]

end

end Node

theorem Node.followed_of_read {kept : Bool} {n : Node} (h : n.IsRead kept)
    (hunquoted : n.HasTag Tag.IsUnquoted) : n.IsFollowed := by
  cases n with
  | leaf kind s => exact h
  | element tag children => exact h.1.plain hunquoted

theorem Node.legible_of_writable {n : Node} (h : n.IsFollowed) (hwritable : n.IsWritable) :
    n.IsLegible := by
  cases n with
  | leaf kind s =>
      rcases h with ⟨hreadable, -⟩ | ⟨hkind, hs⟩
      · exact hreadable
      · exact absurd hs (hwritable hkind)
  | element tag children => exact ⟨h, hwritable⟩

theorem Node.settled_of_read {kept : Bool} {n : Node} (h : n.IsRead kept) : n.IsSettled kept := by
  cases n with
  | leaf kind s => trivial
  | element tag children => exact h.2

namespace Document

/-- Whether everything in a document can be read back from what is written for it. -/
def IsWritable (doc : Document) : Prop :=
  Node.EverywhereIn (fun _ n => n.IsWritable) false doc.nodes

instance (doc : Document) : Decidable doc.IsWritable :=
  inferInstanceAs (Decidable (Node.EverywhereIn (fun _ n => n.IsWritable) false doc.nodes))

/-- Whether pretty writing puts white space where reading keeps it. -/
def gainsSpace (doc : Document) : Bool :=
  Node.gainSpace false doc.nodes

/-- Pretty and compact text of a document that was read have the same meaning exactly if neither has
a meaning at all, or if no element that keeps its white space is padded. Names are asked to hold no
quotation mark, which would hide the end of a tag. -/
theorem pretty_agrees_iff {source : String} {doc : Document} (h : parse source = .ok doc)
    (hnames : ∀ tag ∈ doc.tags, tag.IsUnquoted) (indent : Nat) :
    (parse (doc.write ⟨true, indent⟩)).toOption = (parse (doc.write ⟨false, indent⟩)).toOption ↔
      ¬ doc.IsWritable ∨ doc.gainsSpace = false := by
  obtain ⟨hroot, htext, hnodes⟩ := read_of_parse h
  have hfollowed : Node.EverywhereIn (fun _ n => n.IsFollowed) false doc.nodes :=
    Node.EverywhereIn.imp (fun _ _ hn => Node.followed_of_read hn.1 hn.2) _ _
      (Node.EverywhereIn.and _ _ hnodes (Node.everywhere_in_of_tags _ _ hnames))
  have hsettled : Node.EverywhereIn Node.IsSettled false doc.nodes :=
    Node.EverywhereIn.imp (fun _ _ => Node.settled_of_read) _ _ hnodes
  by_cases hwritable : doc.IsWritable
  · have hlegible : Node.EverywhereIn (fun _ n => n.IsLegible) false doc.nodes :=
      Node.EverywhereIn.imp (fun _ _ hn => Node.legible_of_writable hn.1 hn.2) _ _
        (Node.EverywhereIn.and _ _ hfollowed hwritable)
    have hpretty := Node.reread_all_pretty_iff doc.nodes ⟨true, indent⟩ rfl 0 false hsettled
    rw [write_not_pretty, parse_write htext hlegible, parse_write htext hlegible, if_pos hroot,
      if_pos hroot, reread, reread, Node.reread_all_compact _ _ _ hsettled]
    simp only [Option.some.injEq, Document.mk.injEq, hpretty, hwritable, not_true_eq_false,
      false_or, gainsSpace]
  · simp only [hwritable, not_false_eq_true, true_or, iff_true]
    rw [parse_write_unwritable htext hfollowed hwritable,
      parse_write_unwritable htext hfollowed hwritable]

/-- An element that keeps its white space and holds text is not padded, and nothing in it is. -/
theorem pretty_agrees_mixed :
    let doc : Document := ⟨[.leaf .comment " a ", .element ⟨"svg", []⟩ [.element ⟨"g", []⟩ [],
      .element ⟨"text", []⟩ [.leaf .text "a ", .element ⟨"tspan", []⟩ [.element ⟨"b", []⟩ []]]]]⟩
    parse "<!-- a --> <svg> <g/><text>a <tspan><b/></tspan></text></svg>" = .ok doc ∧
      (parse (doc.write ⟨true, 2⟩)).toOption = (parse (doc.write ⟨false, 2⟩)).toOption := by
  intro doc
  have hparse :
      parse "<!-- a --> <svg> <g/><text>a <tspan><b/></tspan></text></svg>" = .ok doc := by
    decide +kernel
  refine ⟨hparse, (pretty_agrees_iff hparse ?_ 2).mpr (.inr (by decide +kernel))⟩
  unfold Tag.IsUnquoted
  decide +kernel

/-- The spans of a text element are padded, and their padding is kept. -/
theorem pretty_changes_spans :
    let source := "<svg><text><tspan>A</tspan><tspan>B</tspan></text></svg>"
    ∃ doc, parse source = .ok doc ∧
      (parse (doc.write ⟨true, 2⟩)).toOption ≠ (parse (doc.write ⟨false, 2⟩)).toOption := by
  refine ⟨⟨[.element ⟨"svg", []⟩ [.element ⟨"text", []⟩
    [.element ⟨"tspan", []⟩ [.leaf .text "A"], .element ⟨"tspan", []⟩ [.leaf .text "B"]]]]⟩, ?_⟩
  decide +kernel

/-- The condition on names is needed: nothing in this document gains white space, but its quotation
marks make one tag of two, and the padding between them becomes a part of it. -/
theorem pretty_changes_quoted_names :
    let doc : Document := ⟨[.element ⟨"svg", []⟩
      [.element ⟨"a", [⟨"k\"", "x\""⟩, ⟨"m'", "y"⟩]⟩ [],
        .element ⟨"b='z\"'", [⟨"k2\"", "x\""⟩, ⟨"m2'", "y"⟩]⟩ []]]⟩
    parse "<svg><a k\"='x\"' m'='y'/><b='z\"' k2\"='x\"' m2'='y'/></svg>" = .ok doc ∧
      doc.gainsSpace = false ∧
      (parse (doc.write ⟨true, 2⟩)).toOption ≠ (parse (doc.write ⟨false, 2⟩)).toOption := by
  decide +kernel

end Document

end SvgPress
