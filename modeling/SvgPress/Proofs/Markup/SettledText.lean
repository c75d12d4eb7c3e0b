import SvgPress.Proofs.Markup.Regions

/-!
The texts of a document that was read. Pieces of character data have been joined, so no text is
empty and no two stand side by side; and where neither the element nor one around it keeps white
space, each text begins and ends with something else. Emptied texts are dropped only where other
nodes part what is left.
-/

namespace SvgPress

open Node

/-- An element whose attributes and texts are as reading leaves them. -/
structure PlacedElement.IsSettled (e : PlacedElement) : Prop where
  distinct : (e.tag.attributes.map (·.name)).Nodup
  nonempty : ∀ s, .leaf .text s ∈ e.children → s ≠ ""
  apart : e.children.IsChain fun m n => ¬ (m.isLeaf .text ∧ n.isLeaf .text)
  /-- White space at the ends of texts is left to text elements, to mixed content, and to where it
  is asked for. -/
  trimmed : e.tag.name ∉ textElements → isMixed e.children = false →
    (∀ tag ∈ e.tag :: e.outer, tag.attribute? "xml:space" ≠ some "preserve") →
      ∀ s, .leaf .text s ∈ e.children → Text.IsTrimmed s.toList

namespace Node

mutual

/-- What holds everywhere in a tree holds of each of its elements where it stands. -/
theorem Everywhere.placed {p : Bool → Node → Prop} : (n : Node) → (outer : List Tag) →
    n.Everywhere p (outer.any (·.preservesSpace)) → ∀ e ∈ n.placed outer,
      p (e.outer.any (·.preservesSpace)) (.element e.tag e.children)
  | .leaf .., _, _ => fun e he => absurd he List.not_mem_nil
  | .element tag children, outer, h => by
      have hbelow : EverywhereIn p ((tag :: outer).any (·.preservesSpace)) children := by
        rw [List.any_cons, Bool.or_comm]
        exact h.2
      rw [Node.placed, List.forall_mem_cons]
      exact ⟨h.1, EverywhereIn.placed children (tag :: outer) hbelow⟩

theorem EverywhereIn.placed {p : Bool → Node → Prop} : (ns : List Node) → (outer : List Tag) →
    EverywhereIn p (outer.any (·.preservesSpace)) ns → ∀ e ∈ placedOf outer ns,
      p (e.outer.any (·.preservesSpace)) (.element e.tag e.children)
  | [], _, _ => fun e he => absurd he List.not_mem_nil
  | n :: ns, outer, h => by
      rw [placedOf, List.forall_mem_append]
      exact ⟨Everywhere.placed n outer h.1, EverywhereIn.placed ns outer h.2⟩

end

end Node

/-- A text that trimming leaves behind is a trimmed one. -/
theorem trimmed_of_mem_trim_texts {ns : List Node} {s : String}
    (h : .leaf .text s ∈ trimTexts ns) : Text.IsTrimmed s.toList := by
  rw [trimTexts, List.mem_filterMap] at h
  obtain ⟨n, -, hn⟩ := h
  rcases n.text_or_other with ⟨t, rfl⟩ | hother
  · dsimp only at hn
    split at hn
    · cases hn
    · cases hn
      rw [Text.to_list_trim]
      exact Text.is_trimmed_trim_chars t.toList
  · split at hn
    · cases hother
    · cases hn
      cases hother

/-- The texts of a settled element are trimmed unless white space is kept in it. -/
theorem trimmed_of_settled {tag : Tag} {kept : Bool} {ns : List Node}
    (h : settle tag kept ns = ns) (hkept : (keepsOwnSpace tag ns || kept) = false) {s : String}
    (hs : .leaf .text s ∈ ns) : Text.IsTrimmed s.toList := by
  rw [settle_of_not_keeps hkept] at h
  rw [← h] at hs
  exact trimmed_of_mem_trim_texts hs

namespace Document

/-- Reading leaves no text at top level, and every element with settled texts. -/
theorem settled_of_parse {source : String} {doc : Document} (h : parse source = .ok doc) :
    doc.IsTextless ∧ ∀ e ∈ doc.placed, e.IsSettled := by
  have hread := read_of_parse h
  refine ⟨hread.textless, fun e he => ?_⟩
  obtain ⟨htag, hjoined, hsettled⟩ := EverywhereIn.placed doc.nodes [] hread.nodes e he
  refine ⟨htag.distinct, fun s hs hempty => hjoined.1 (hempty ▸ hs), hjoined.2, ?_⟩
  intro hname hmixed hspace s hs
  have hasks : ∀ tag ∈ e.tag :: e.outer, tag.preservesSpace = false := fun tag htag => by
    rw [Tag.preservesSpace, beq_eq_false_iff_ne]
    exact hspace tag htag
  rw [List.forall_mem_cons] at hasks
  have hkept : (keepsOwnSpace e.tag e.children || e.outer.any (·.preservesSpace)) = false := by
    rw [keepsOwnSpace, hmixed, hasks.1, List.contains_eq_mem, decide_eq_false hname,
      List.any_eq_false.mpr fun tag htag => by rw [hasks.2 tag htag]; exact Bool.false_ne_true]
    rfl
  exact trimmed_of_settled hsettled hkept hs

/-- Texts in pieces, white space beside elements, in mixed content, in a text element, and below an
element that asks for it. -/
theorem settled_of_parse_legend :
    let source :=
      "<svg> <g a='1' b='2'> x &amp; y <!-- z --> </g><d> m <e> n </e></d><text> t </text>" ++
      "<h xml:space='preserve'><i> o </i></h> </svg>"
    let doc : Document := ⟨[.element ⟨"svg", []⟩
      [.element ⟨"g", [⟨"a", "1"⟩, ⟨"b", "2"⟩]⟩ [.leaf .text "x & y", .leaf .comment " z "],
        .element ⟨"d", []⟩ [.leaf .text " m ", .element ⟨"e", []⟩ [.leaf .text "n"]],
        .element ⟨"text", []⟩ [.leaf .text " t "],
        .element ⟨"h", [⟨"xml:space", "preserve"⟩]⟩
          [.element ⟨"i", []⟩ [.leaf .text " o "]]]]⟩
    parse source = .ok doc ∧ doc.IsTextless ∧ ∀ e ∈ doc.placed, e.IsSettled := by
  intro source doc
  have hdoc : parse source = .ok doc := by decide +kernel
  exact ⟨hdoc, settled_of_parse hdoc⟩

end Document

end SvgPress
