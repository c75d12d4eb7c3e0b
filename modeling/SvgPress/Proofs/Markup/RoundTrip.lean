import SvgPress.Proofs.Markup.Names
import SvgPress.Proofs.Markup.NormalForm

/-!
Reading undoes compact writing. A document whose names are names of the markup language, whose
leaves do not hold what would close them, and whose text is joined and settled is read back node by
node. One thing more has to be asked of an instruction: it must not begin with `>`, since the reader
takes the question mark that opens an instruction for the one that closes it.
-/

namespace SvgPress

open Markup

namespace Markup

/-- The target of an instruction: all up to the first white space. -/
def target (content : List Char) : List Char :=
  content.takeWhile (!isSpace ·)

theorem declares_iff_target {content : List Char} :
    declares content ↔ target content = "xml".toList := by
  have hxml : ∀ c ∈ "xml".toList, !isSpace c := by decide
  unfold declares
  constructor
  · intro h
    split at h
    · rename_i hstrip
      rw [stripFront?_eq hstrip]
      exact (span_exact (!isSpace ·) _ [] hxml (by simp)).1
    · rename_i c rest hstrip
      rw [stripFront?_eq hstrip]
      exact (span_exact (!isSpace ·) _ (c :: rest) hxml (by simpa using h)).1
    · cases h
  · intro h
    have hsplit : content = "xml".toList ++ content.dropWhile (!isSpace ·) := by
      rw [← h, target, List.takeWhile_append_dropWhile]
    have hhead := List.head?_dropWhile_not (!isSpace ·) content
    generalize content.dropWhile (!isSpace ·) = rest at hsplit hhead
    rw [hsplit, strip_front_append]
    cases rest with
    | nil => rfl
    | cons c rest => simpa using hhead

end Markup

/-- What a document tree must be for it to be the meaning of some text: names of the markup
language, distinct attribute names, leaves without what would close them, and in every element
joined text, trimmed unless white space is kept there. -/
def Node.IsWellFormed (kept : Bool) : Node → Prop
  | .element tag children =>
    isXmlName tag.name.toList ∧ (∀ a ∈ tag.attributes, isXmlName a.name.toList) ∧
      (tag.attributes.map (·.name)).Nodup ∧ IsJoined children ∧
      ((keepsOwnSpace tag children || kept) = true ∨
        ∀ s, .leaf .text s ∈ children → Text.IsTrimmed s.toList)
  | .leaf .text _ => True
  | .leaf .cdata s => ¬ "]]>".toList <:+: s.toList
  | .leaf .comment s => ¬ "-->".toList <:+: s.toList
  | .leaf .declaration s => target s.toList = "xml".toList ∧ ¬ "?>".toList <:+: s.toList
  | .leaf .instruction s =>
    target s.toList ≠ "xml".toList ∧ target s.toList ≠ [] ∧ ¬ "?>".toList <:+: s.toList
  | .leaf .doctype s =>
    s ≠ "" ∧ Text.IsTrimmed s.toList ∧ ∀ c ∈ s.toList, c ≠ '<' ∧ c ≠ '>' ∧ c ≠ '['

/-- A document with a root and nothing but markup outside it, of well-formed nodes. -/
structure Document.IsWellFormed (doc : Document) : Prop where
  root : doc.nodes.any Node.isElement
  textless : doc.IsTextless
  nodes : Node.EverywhereIn Node.IsWellFormed false doc.nodes

/-- A name of the markup language neither is empty nor ends in a slash. -/
theorem legible_of_xml_name {tag : Tag} (h : isXmlName tag.name.toList) (children : List Node) :
    tag.isLegible children := by
  have hne : tag.name ≠ "" := by
    intro hname
    rw [hname] at h
    cases h
  have hlast : tag.name.toList.getLast? ≠ some '/' := by
    intro hlast
    have hchar := name_char_of_xml_name h '/' (List.mem_of_getLast? hlast)
    exact name_char_ne hchar (by simp) rfl
  unfold Tag.isLegible
  split <;> simp [hne, hlast]

theorem Node.legible_of_well_formed {kept : Bool} {n : Node} (h : n.IsWellFormed kept)
    (hhead : ∀ s, n = .leaf .instruction s → s.toList.head? ≠ some '>') : n.IsLegible := by
  cases n with
  | element tag children =>
      obtain ⟨hname, hkeys, hdistinct, -, -⟩ := h
      exact ⟨⟨plain_name_of_xml_name hname, fun a ha => plain_key_of_xml_name (hkeys a ha),
        hdistinct⟩, legible_of_xml_name hname children⟩
  | leaf kind s =>
      cases kind with
      | text => trivial
      | cdata => exact h
      | comment => exact h
      | declaration => exact ⟨declares_iff_target.mpr h.1, h.2⟩
      | instruction =>
          refine ⟨?_, hhead s rfl, h.2.2⟩
          rw [Bool.eq_false_iff]
          exact fun hdeclares => h.1 (declares_iff_target.mp hdeclares)
      | doctype =>
          refine ⟨by simpa using h.1, h.2.1, ?_⟩
          exact nesting_of_no_bracket (fun c hc => ⟨(h.2.2 c hc).1, (h.2.2 c hc).2.1⟩) 0

theorem trim_texts_of_trimmed {ns : List Node} (hempty : Node.leaf .text "" ∉ ns)
    (h : ∀ s, .leaf .text s ∈ ns → Text.IsTrimmed s.toList) : trimTexts ns = ns := by
  induction ns with
  | nil => rfl
  | cons n ns ih =>
      simp only [List.mem_cons, not_or] at hempty
      have hrest := ih hempty.2 fun s hs => h s (List.mem_cons_of_mem n hs)
      rcases n.text_or_other with ⟨s, rfl⟩ | hother
      · have htrim : Text.trim s = s := by
          rw [Text.trim, Text.trim_chars_eq_self_iff.mpr (h s List.mem_cons_self),
            String.ofList_toList]
        have hs : s ≠ "" := fun hs => hempty.1 (by rw [hs])
        rw [trim_texts_text, htrim, if_neg (by simpa using hs), hrest]
      · rw [trim_texts_other hother, hrest]

theorem Node.settled_of_well_formed {kept : Bool} {n : Node} (h : n.IsWellFormed kept) :
    n.IsSettled kept := by
  cases n with
  | leaf kind s => trivial
  | element tag children =>
      obtain ⟨-, -, -, hjoined, hspace⟩ := h
      refine ⟨hjoined, ?_⟩
      cases hkeeps : keepsOwnSpace tag children || kept with
      | true => exact settle_of_keeps hkeeps
      | false =>
          rcases hspace with hspace | htrimmed
          · simp [hkeeps] at hspace
          · rw [settle_of_not_keeps hkeeps, trim_texts_of_trimmed hjoined.1 htrimmed]

/-- A node that is not an instruction beginning with `>`. -/
def Node.StaysOpen (n : Node) : Prop :=
  ∀ s, n = .leaf .instruction s → s.toList.head? ≠ some '>'

namespace Document

/-- Reading undoes compact writing, for every well-formed document in which no instruction begins
with `>`, and for no other. -/
theorem parse_write_compact_iff {doc : Document} (h : doc.IsWellFormed) (indent : Nat) :
    parse (doc.write ⟨false, indent⟩) = .ok doc ↔
      Node.EverywhereIn (fun _ => Node.StaysOpen) false doc.nodes := by
  constructor
  · intro hparse
    refine Node.EverywhereIn.imp ?_ _ _ (read_of_parse hparse).nodes
    rintro kept n hread s rfl
    obtain ⟨⟨-, hhead, -⟩, -⟩ | ⟨hkind, -⟩ := hread
    · exact hhead
    · cases hkind
  · intro hopen
    have hlegible : Node.EverywhereIn (fun _ n => n.IsLegible) false doc.nodes :=
      Node.EverywhereIn.imp (fun _ _ hn => Node.legible_of_well_formed hn.1 hn.2) _ _
        (Node.EverywhereIn.and _ _ h.nodes hopen)
    have hsettled : Node.EverywhereIn Node.IsSettled false doc.nodes :=
      Node.EverywhereIn.imp (fun _ _ => Node.settled_of_well_formed) _ _ h.nodes
    rw [parse_eq_ok_iff, write_not_pretty, parse_write h.textless hlegible, if_pos h.root, reread,
      Node.reread_all_compact _ _ _ hsettled]

/-- A document with every kind of node. -/
def sample : Document :=
  ⟨[.leaf .declaration "xml version=\"1.0\"", .leaf .comment ">-a", .leaf .doctype "svg",
    .leaf .instruction "go a > b", .element ⟨"svg", [⟨"id", "<'&\"\n"⟩, ⟨"x:y", ""⟩]⟩
      [.element ⟨"g", []⟩ [.leaf .text "&lt; a\tb>", .element ⟨"b", []⟩ [], .leaf .text " \r"],
        .leaf .cdata "]>", .leaf .text "]]>"]]⟩

theorem well_formed_sample : sample.IsWellFormed := by
  refine ⟨rfl, ?_, ?_⟩
  · unfold IsTextless
    decide
  · have hcdata : ¬ "]]>".toList <:+: "]>".toList := by decide +kernel
    have hcomment : ¬ "-->".toList <:+: ">-a".toList := by decide +kernel
    have hsvg : Node.EverywhereIn Node.IsWellFormed false
        [.element ⟨"g", []⟩ [.leaf .text "&lt; a\tb>", .element ⟨"b", []⟩ [], .leaf .text " \r"],
          .leaf .cdata "]>", .leaf .text "]]>"] := by
      refine ⟨⟨⟨by decide +kernel, by simp, .nil, by simp [IsJoined, Node.isLeaf],
        .inl (by decide +kernel)⟩, trivial,
        ⟨⟨by decide +kernel, by simp, .nil, joined_nil, .inr (by simp)⟩, trivial⟩, trivial,
        trivial⟩, hcdata, trivial, trivial⟩
    refine ⟨⟨by decide +kernel, by decide +kernel⟩, hcomment,
      ⟨by decide +kernel, ?_, by decide +kernel⟩,
      ⟨by decide +kernel, by decide +kernel, by decide +kernel⟩,
      ⟨⟨by decide +kernel, by decide +kernel, by decide +kernel, ?_, .inl (by decide +kernel)⟩,
        hsvg⟩, trivial⟩
    · exact Text.trim_chars_eq_self_iff.mp (by decide +kernel)
    · simp [IsJoined, Node.isLeaf]

theorem parse_write_compact_sample : parse (sample.write ⟨false, 4⟩) = .ok sample := by
  have hopen {n : Node} (h : ∀ s, n ≠ .leaf .instruction s) : n.StaysOpen :=
    fun s hs => absurd hs (h s)
  refine (parse_write_compact_iff well_formed_sample 4).mpr ?_
  have hlast : Node.StaysOpen (.leaf .instruction "go a > b") := by
    rintro s hs
    obtain rfl : "go a > b" = s := by simpa using hs
    decide +kernel
  simp only [sample, Node.EverywhereIn, Node.Everywhere, and_true]
  exact ⟨hopen (by simp), hopen (by simp), hopen (by simp), hlast, hopen (by simp),
    ⟨hopen (by simp), hopen (by simp), ⟨hopen (by simp), hopen (by simp)⟩⟩, hopen (by simp),
    hopen (by simp)⟩

/-- An instruction that begins with `>` is lost, although it does not hold what closes it. -/
theorem instruction_not_read_back :
    let doc : Document := ⟨[.leaf .instruction ">a", .element ⟨"svg", []⟩ []]⟩
    doc.IsWellFormed ∧ parse (doc.write ⟨false, 0⟩) ≠ .ok doc := by
  refine ⟨⟨rfl, ?_, ?_⟩, by decide +kernel⟩
  · unfold IsTextless
    decide
  · refine ⟨⟨by decide +kernel, by decide +kernel, by decide +kernel⟩,
      ⟨⟨by decide +kernel, by simp, .nil, joined_nil, ?_⟩, trivial⟩, trivial⟩
    exact .inr (by simp)

end Document

end SvgPress
