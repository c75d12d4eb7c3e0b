import SvgPress.Proofs.Jsx.Indenting
import SvgPress.Proofs.Jsx.Tree

/-!
Components around converted markup. Each line of the JSX goes one level deeper, without regard to
what stands in it. So a component is read as the JSX is read, but for the literal texts, for values
that go over several lines in quotation marks, and for object literals of several lines.
-/

namespace SvgPress.Jsx

/-- A meaning as it is read one level deeper. Strings in braces have their line feeds escaped. -/
def Meaning.deeper : Meaning → Meaning
  | .string s =>
    if '"' ∈ s.toList ∨ '&' ∈ s.toList then .string s
    else .string (String.ofList (Jsx.deeper s.toList))
  | .code source => .code (String.ofList (Jsx.deeper source.toList))

def deeperAttributes (attributes : Meanings) : Meanings :=
  attributes.map fun (name, meaning) => (name, meaning.deeper)

/-- A piece as it is read one level deeper. -/
def Piece.deeper : Piece → Piece
  | .opening name attributes => .opening name (deeperAttributes attributes)
  | .single name attributes => .single name (deeperAttributes attributes)
  | .closing name => .closing name
  | .literal s => .literal (String.ofList (Jsx.deeper s.toList))
  | .braces (.string s) => .braces (.string s)
  | .braces (.code source) => .braces (.code (String.ofList (Jsx.deeper source.toList)))

section Spelling

variable {cs : List Char}

theorem deeper_cons {c : Char} (hfeed : c ≠ '\n') (hreturn : c ≠ '\r') (cs : List Char) :
    deeper (c :: cs) = c :: deeper cs :=
  deeper_append hfeed hreturn [] cs

/-- A text without line feeds and carriage returns stays, whatever follows it. -/
theorem deeper_steady (h : ∀ c ∈ cs, c ≠ '\n' ∧ c ≠ '\r') (ds : List Char) :
    deeper (cs ++ ds) = cs ++ deeper ds := by
  induction cs with
  | nil => rfl
  | cons c cs ih =>
      rw [List.forall_mem_cons] at h
      rw [List.cons_append, deeper_cons h.1.1 h.1.2, ih h.2, List.cons_append]

theorem deeper_ne_nil (h : cs ≠ []) : deeper cs ≠ [] := by
  induction cs with
  | nil => exact absurd rfl h
  | cons c cs ih =>
      rw [deeper]
      split
      · exact List.cons_ne_nil _ _
      · split
        · rename_i hreturn
          refine ih ?_
          rintro rfl
          exact absurd hreturn.2 (by simp)
        · exact List.cons_ne_nil _ _

theorem steady_quote (s : String) : ∀ c ∈ (Json.quote s).toList, c ≠ '\n' ∧ c ≠ '\r' := by
  have hplain {c : Char} (h : ¬ c.toNat < 0x20) : c ≠ '\n' ∧ c ≠ '\r' := by
    constructor <;>
      · rintro rfl
        exact h (by decide)
  rw [Json.quote, String.toList_ofList, Json.quoteChars, List.forall_mem_cons,
    List.forall_mem_append, List.forall_mem_singleton]
  refine ⟨by decide, fun c hc => ?_, by decide⟩
  obtain ⟨d, -, hd⟩ := List.mem_flatMap.mp hc
  rcases Json.escape_char_cases d with ⟨hwritten, -, -, hd'⟩ | ⟨letter, more, hwritten, -, hmore, -⟩
  · rw [hwritten, List.mem_singleton] at hd
    exact hplain (hd ▸ hd')
  · rw [hwritten, List.mem_cons] at hd
    rcases hd with rfl | hd
    · decide
    · exact hplain (hmore c hd)

theorem steady_name {name : String} (h : ∀ c ∈ name.toList, isNamePart c) :
    ∀ c ∈ name.toList, c ≠ '\n' ∧ c ≠ '\r' := by
  intro c hc
  have hpart := h c hc
  constructor <;>
    · rintro rfl
      exact absurd hpart (by decide)

theorem deeper_expression (s : String) (rest : List Char) :
    deeper ((expression s).toList ++ rest) = (expression s).toList ++ deeper rest := by
  refine deeper_steady ?_ rest
  rw [to_list_expression, List.forall_mem_cons, List.forall_mem_append, List.forall_mem_singleton]
  exact ⟨by decide, steady_quote s, by decide⟩

/-- Code in braces, with what follows it. -/
theorem deeper_braces (source rest : List Char) :
    deeper ('\x7b' :: (source ++ '\x7d' :: rest)) =
      '\x7b' :: (deeper source ++ '\x7d' :: deeper rest) := by
  rw [deeper_cons (by decide) (by decide), deeper_append (by decide) (by decide)]

/-- A value one level deeper is written as it is read there. -/
theorem deeper_meaning (meaning : Meaning) (rest : List Char) :
    deeper (meaning.spell ++ rest) = meaning.deeper.spell ++ deeper rest := by
  cases meaning with
  | string s =>
      rw [Meaning.deeper]
      by_cases hquoted : '"' ∈ s.toList ∨ '&' ∈ s.toList
      · rw [if_pos hquoted, Meaning.spell, to_list_attribute_value, if_pos hquoted,
          deeper_expression]
      · have hdeeper : ¬ ('"' ∈ deeper s.toList ∨ '&' ∈ deeper s.toList) := by
          rw [not_or] at hquoted ⊢
          exact ⟨fun h => (mem_deeper h).elim hquoted.1 (by decide),
            fun h => (mem_deeper h).elim hquoted.2 (by decide)⟩
        have hsplit : '"' :: (s.toList ++ ['"']) ++ rest = '"' :: (s.toList ++ '"' :: rest) := by
          simp
        rw [if_neg hquoted, Meaning.spell, Meaning.spell, to_list_attribute_value,
          to_list_attribute_value, String.toList_ofList, if_neg hquoted, if_neg hdeeper, hsplit,
          deeper_cons (by decide) (by decide), deeper_append (by decide) (by decide)]
        simp
  | code source =>
      have hsplit (source : List Char) (rest : List Char) :
          '\x7b' :: (source ++ ['\x7d']) ++ rest = '\x7b' :: (source ++ '\x7d' :: rest) := by simp
      rw [Meaning.deeper, Meaning.spell, Meaning.spell, String.toList_ofList, hsplit, hsplit,
        deeper_braces]

theorem deeper_attributes {attributes : Meanings} (h : AreClear attributes) (rest : List Char) :
    deeper (spellAttributes attributes ++ rest) =
      spellAttributes (deeperAttributes attributes) ++ deeper rest := by
  induction attributes with
  | nil => rfl
  | cons a attributes ih =>
      obtain ⟨name, meaning⟩ := a
      rw [AreClear, List.forall_mem_cons] at h
      have hsplit (meaning : Meaning) (attributes : Meanings) (rest : List Char) :
          spellAttributes ((name, meaning) :: attributes) ++ rest =
            ' ' :: (name.toList ++
              '=' :: (meaning.spell ++ (spellAttributes attributes ++ rest))) := by
        simp [spellAttributes]
      rw [deeperAttributes, List.map_cons, hsplit, hsplit, deeper_cons (by decide) (by decide),
        deeper_steady (steady_name h.1.1), deeper_cons (by decide) (by decide), deeper_meaning,
        ih h.2]
      rfl

/-- A clear piece one level deeper is written as it is read there, unless it is literal text. -/
theorem deeper_piece {p : Piece} (h : p.IsClear) (hliteral : ∀ s, p ≠ .literal s)
    (rest : List Char) : deeper (p.spell ++ rest) = p.deeper.spell ++ deeper rest := by
  cases p with
  | opening name attributes =>
      have hsplit (attributes : Meanings) (rest : List Char) :
          (Piece.opening name attributes).spell ++ rest =
            '<' :: (name.toList ++ (spellAttributes attributes ++ '>' :: rest)) := by
        simp [Piece.spell]
      rw [Piece.deeper, hsplit, hsplit, deeper_cons (by decide) (by decide),
        deeper_steady (steady_name h.1), deeper_attributes h.2,
        deeper_cons (by decide) (by decide)]
  | single name attributes =>
      have hsplit (attributes : Meanings) (rest : List Char) :
          (Piece.single name attributes).spell ++ rest =
            '<' :: (name.toList ++ (spellAttributes attributes ++ ' ' :: '/' :: '>' :: rest)) := by
        simp [Piece.spell]
      rw [Piece.deeper, hsplit, hsplit, deeper_cons (by decide) (by decide),
        deeper_steady (steady_name h.1), deeper_attributes h.2,
        deeper_cons (by decide) (by decide), deeper_cons (by decide) (by decide),
        deeper_cons (by decide) (by decide)]
  | closing name =>
      have hsplit (rest : List Char) : (Piece.closing name).spell ++ rest =
          '<' :: '/' :: (name.toList ++ '>' :: rest) := by
        simp [Piece.spell]
      rw [Piece.deeper, hsplit, hsplit, deeper_cons (by decide) (by decide),
        deeper_cons (by decide) (by decide), deeper_steady (steady_name h),
        deeper_cons (by decide) (by decide)]
  | literal s => exact absurd rfl (hliteral s)
  | braces meaning =>
      cases meaning with
      | string s => exact deeper_expression s rest
      | code source =>
          have hsplit (source rest : List Char) :
              '\x7b' :: (source ++ ['\x7d']) ++ rest = '\x7b' :: (source ++ '\x7d' :: rest) := by
                simp
          rw [Piece.deeper, Piece.spell, Piece.spell, String.toList_ofList, hsplit, hsplit,
            deeper_braces]

/-- A piece that is no literal text begins with a bracket or a brace. -/
theorem head_spell {p : Piece} (h : ∀ s, p ≠ .literal s) :
    ∃ c cs, p.spell = c :: cs ∧ c ≠ '\n' ∧ c ≠ '\r' := by
  cases p with
  | opening _ _ | single _ _ | closing _ => exact ⟨'<', _, rfl, by decide, by decide⟩
  | literal s => exact absurd rfl (h s)
  | braces meaning =>
      cases meaning with
      | string s => exact ⟨'\x7b', _, to_list_expression s, by decide, by decide⟩
      | code source => exact ⟨'\x7b', _, rfl, by decide, by decide⟩

/-- Pieces one level deeper are written as they are read there. -/
theorem deeper_spell_all {ps : List Piece} (hjoined : AreJoined ps) (hclear : ∀ p ∈ ps, p.IsClear) :
    deeper (spellAll ps) = spellAll (ps.map Piece.deeper) := by
  induction ps with
  | nil => rfl
  | cons p ps ih =>
      rw [List.forall_mem_cons] at hclear
      by_cases hliteral : ∃ s, p = .literal s
      · obtain ⟨s, rfl⟩ := hliteral
        obtain ⟨-, hhead, hps⟩ := hjoined
        have hspell : (Piece.deeper (.literal s)).spell = deeper s.toList := by
          rw [Piece.deeper, Piece.spell, String.toList_ofList]
        rw [spell_all_cons, List.map_cons, spell_all_cons, hspell, ← ih hps hclear.2]
        cases ps with
        | nil => simp [Piece.spell, deeper]
        | cons q ps =>
            obtain ⟨c, cs, hq, hfeed, hreturn⟩ := head_spell (p := q) (by
              rintro t rfl
              exact hhead t rfl)
            rw [spell_all_cons, hq, List.cons_append, deeper_cons hfeed hreturn, Piece.spell,
              deeper_append hfeed hreturn]
      · have hother : ∀ s, p ≠ .literal s := fun s hs => hliteral ⟨s, hs⟩
        have hps : AreJoined ps := by
          cases p with
          | literal s => exact absurd rfl (hother s)
          | opening _ _ | single _ _ | closing _ | braces _ => exact hjoined
        rw [spell_all_cons, List.map_cons, spell_all_cons, deeper_piece hclear.1 hother,
          ih hps hclear.2]

end Spelling

section Clear

theorem literal_of_deeper {p : Piece} {t : String} (h : p.deeper = .literal t) :
    ∃ s, p = .literal s := by
  cases p with
  | literal s => exact ⟨s, rfl⟩
  | opening _ _ | single _ _ | closing _ => cases h
  | braces meaning => cases meaning <;> cases h

/-- Pieces that begin with a tag or an expression do so one level deeper. -/
theorem head_deeper {ps : List Piece} (h : ∀ s, ps.head? ≠ some (.literal s)) (t : String) :
    (ps.map Piece.deeper).head? ≠ some (.literal t) := by
  rw [List.head?_map]
  intro ht
  obtain ⟨p, hp, hdeeper⟩ := Option.map_eq_some_iff.mp ht
  obtain ⟨s, rfl⟩ := literal_of_deeper hdeeper
  exact h s hp

theorem joined_deeper {ps : List Piece} (h : AreJoined ps) : AreJoined (ps.map Piece.deeper) := by
  induction ps with
  | nil => trivial
  | cons p ps ih =>
      cases p with
      | literal s =>
          obtain ⟨hs, hhead, hps⟩ := h
          have hsome : s.toList ≠ [] := by simpa using hs
          exact ⟨by simpa using deeper_ne_nil hsome, head_deeper hhead, ih hps⟩
      | opening _ _ | single _ _ | closing _ => exact ih h
      | braces meaning => cases meaning <;> exact ih h

theorem deeper_literal_clear {s : String} (h : (Piece.literal s).IsClear) :
    (Piece.literal s).deeper.IsClear := by
  intro c hc
  rw [String.toList_ofList] at hc
  rcases mem_deeper hc with hc | rfl
  · exact h c hc
  · decide

theorem deeper_clear_of_stands {a : Attribute} (h : Stands a) :
    (∀ c ∈ (meant a).1.toList, isNamePart c) ∧ (meant a).2.deeper.IsClear := by
  refine ⟨((stands_iff a).mp h).1, ?_⟩
  unfold Stands at h
  unfold meant
  cases hstyle : style? a with
  | none =>
      simp only [Meaning.deeper]
      split <;> trivial
  | some object =>
      rw [hstyle] at h
      obtain ⟨rest, hobject⟩ := List.head?_eq_some_iff.mp (head_style hstyle)
      have hhead : (String.ofList (deeper object.toList)).toList.head? ≠ some '"' := by
        rw [String.toList_ofList, hobject, deeper_cons (by decide) (by decide)]
        simp
      refine ⟨?_, Meaning.of_source_code hhead⟩
      rw [String.toList_ofList]
      exact IsClosed.deeper h

theorem deeper_meanings_clear {tag : Tag} (h : StandsOut tag) :
    AreClear (deeperAttributes (meanings tag)) := by
  rw [AreClear, deeperAttributes, meanings, List.map_map, List.forall_mem_map]
  exact fun a ha => deeper_clear_of_stands (h.2 a ha)

/-- The parts of elements stay clear one level deeper if their tags stand out. -/
theorem deeper_clear {tags : List Tag} (h : ∀ tag ∈ tags, StandsOut tag) {p : Piece}
    (hp : p.IsPart tags) : p.deeper.IsClear := by
  have hclear := hp.clear h
  cases hp with
  | opening htag => exact ⟨(h _ htag).1, deeper_meanings_clear (h _ htag)⟩
  | single htag => exact ⟨(h _ htag).1, deeper_meanings_clear (h _ htag)⟩
  | closing htag => exact hclear
  | text s =>
      revert hclear
      unfold textPiece
      split
      · exact fun _ => trivial
      · exact deeper_literal_clear
  | feed => exact deeper_literal_clear hclear
  | margin indent depth => exact deeper_literal_clear hclear

/-- So do the parts of elements when their literal texts are put together. -/
theorem deeper_joined_clear {tags : List Tag} (h : ∀ tag ∈ tags, StandsOut tag) {ps : List Piece}
    (hps : ∀ p ∈ ps, p.IsPart tags) : ∀ p ∈ joined ps, p.deeper.IsClear := by
  intro p hp
  have hread := pieces_spell_all fun q hq => (hps q hq).clear h
  rcases mem_joined hp with ⟨s, rfl⟩ | hpart
  · exact deeper_literal_clear (pieces_clear hread _ hp)
  · exact deeper_clear h (hps p hpart)

end Clear

section Values

theorem deeper_eq_iff (s : String) : String.ofList (deeper s.toList) = s ↔ '\n' ∉ s.toList := by
  rw [← deeper_eq_self_iff]
  constructor
  · intro h
    have hchars := congrArg String.toList h
    rwa [String.toList_ofList] at hchars
  · intro h
    rw [h, String.ofList_toList]

/-- Exactly the values that are written without a line feed are read one level deeper as they
are. -/
theorem deeper_meaning_iff (meaning : Meaning) :
    meaning.deeper = meaning ↔ '\n' ∉ meaning.spell := by
  cases meaning with
  | string s =>
      rw [Meaning.deeper, Meaning.spell, to_list_attribute_value]
      split
      · refine iff_of_true rfl fun hfeed => ?_
        rw [to_list_expression, List.mem_cons, List.mem_append, List.mem_singleton] at hfeed
        rcases hfeed with hfeed | hfeed | hfeed
        · exact absurd hfeed (by decide)
        · exact (steady_quote s _ hfeed).1 rfl
        · exact absurd hfeed (by decide)
      · rw [Meaning.string.injEq, deeper_eq_iff]
        simp
  | code source =>
      rw [Meaning.deeper, Meaning.spell, Meaning.code.injEq, deeper_eq_iff]
      simp

theorem deeper_meant_iff {a : Attribute} (h : Stands a) :
    (meant a).2.deeper = (meant a).2 ↔ '\n' ∉ (writeAttribute a).toList := by
  have hname : '\n' ∉ (meant a).1.toList := fun hfeed =>
    (steady_name ((stands_iff a).mp h).1 _ hfeed).1 rfl
  rw [deeper_meaning_iff, to_list_write_attribute]
  simp [hname]

theorem deeper_meanings_iff {tag : Tag} (h : StandsOut tag) :
    deeperAttributes (meanings tag) = meanings tag ↔
      ∀ a ∈ tag.attributes, '\n' ∉ (writeAttribute a).toList := by
  rw [deeperAttributes, meanings, List.map_map, List.map_inj_left]
  refine forall₂_congr fun a ha => ?_
  rw [← deeper_meant_iff (h.2 a ha), Function.comp_apply, Prod.ext_iff]
  exact and_iff_right rfl

/-- The tags of pieces one level deeper. -/
theorem tags_deeper (ps : List Piece) : (ps.map Piece.deeper).filterMap Piece.tag? =
    (ps.filterMap Piece.tag?).map fun (name, attributes) =>
      (name, deeperAttributes attributes) := by
  rw [List.filterMap_map, List.map_filterMap]
  congr 1
  funext p
  cases p with
  | opening _ _ | single _ _ | closing _ | literal _ => rfl
  | braces meaning => cases meaning <;> rfl

end Values

/-- The pieces of a laid element begin with its tag. -/
theorem head_joined_laid (indent depth : Nat) (tag : Tag) (children : List Node) (s : String) :
    (joined (laid indent depth (.element tag children))).head? ≠ some (.literal s) := by
  rw [laid]
  split
  · simp [joined, Piece.onto]
  · split
    · simp [joined, Piece.onto]
    · simp [joined, Piece.onto]

/-- A first line that begins with a tag or an expression is not empty. -/
theorem pad_spell_all {ps : List Piece} (hhead : ∀ s, ps.head? ≠ some (.literal s)) :
    pad (spellAll ps) = [' ', ' '] := by
  refine if_neg ?_
  cases ps with
  | nil => decide
  | cons p ps =>
      obtain ⟨c, cs, hp, hfeed, hreturn⟩ := head_spell (p := p) (by
        rintro t rfl
        exact hhead t rfl)
      simp [BeginsEmpty, hp, hfeed, hreturn]

/-- Pieces that begin with a tag or an expression are read with two spaces in front, each one level
deeper. -/
theorem read_deeper {ps : List Piece} (hjoined : AreJoined ps) (hclear : ∀ p ∈ ps, p.IsClear)
    (hdeeper : ∀ p ∈ ps, p.deeper.IsClear) (hhead : ∀ s, ps.head? ≠ some (.literal s)) :
    read? (String.ofList (pad (spellAll ps) ++ deeper (spellAll ps))) =
      some (.literal "  " :: ps.map Piece.deeper) := by
  have hspell : pad (spellAll ps) ++ deeper (spellAll ps) =
      spellAll (.literal "  " :: ps.map Piece.deeper) := by
    rw [pad_spell_all hhead, deeper_spell_all hjoined hclear]
    rfl
  have hall : ∀ p ∈ .literal "  " :: ps.map Piece.deeper, p.IsClear := by
    rw [List.forall_mem_cons, List.forall_mem_map]
    exact ⟨by rw [Piece.IsClear]; decide, hdeeper⟩
  have hwhole : AreJoined (.literal "  " :: ps.map Piece.deeper) :=
    ⟨by decide, head_deeper hhead, joined_deeper hjoined⟩
  rw [read?, String.toList_ofList, hspell, pieces_spell_all hall, joined_of_are_joined hwhole]

/-- Markup that can be read is converted. Where every tag stands out, a component around the JSX is
read as the JSX is, each piece one level deeper, and its tags have the attributes of the markup
exactly if no attribute is written with a line feed in it. -/
theorem wrapped_attributes_iff {markup : String} {doc : Document}
    (h : Document.parse markup = .ok doc) (indent : Nat) (name : String) :
    ∃ tag children jsx body, doc.root? = some (tag, children) ∧ convert indent markup = .ok jsx ∧
      (Component.ofJsx name jsx).source = "const " ++ name ++ " = () => (\n" ++ body ++ "\n);\n" ∧
      ((∀ t ∈ (Node.element tag children).tags, StandsOut t) → ∃ ps, read? jsx = some ps ∧
        read? body = some (.literal "  " :: ps.map Piece.deeper) ∧
        ((ps.map Piece.deeper).filterMap Piece.tag? = (Node.element tag children).tags.map readTag ↔
          ∀ t ∈ (Node.element tag children).tags, ∀ a ∈ t.attributes,
            '\n' ∉ (writeAttribute a).toList)) := by
  obtain ⟨tag, children, hroot, hconvert⟩ := convert_pieces h indent
  have hparts := parts_of_laid indent 0 (.element tag children)
  have hitems := items_laid indent 0 (.element tag children)
  have hhead := head_joined_laid indent 0 tag children
  obtain ⟨front, hend⟩ := spell_laid_ends indent 0 tag children
  generalize laid indent 0 (.element tag children) = ps at hconvert hparts hitems hhead hend
  have hjsx : (String.ofList (spellAll ps)).toList = spellAll ps := String.toList_ofList
  have hsource : (Component.ofJsx name (String.ofList (spellAll ps))).source = _ :=
    Component.source_of_jsx name (by simp [hend]) (by simp [hend])
  rw [hjsx] at hsource
  refine ⟨tag, children, _, _, hroot, hconvert, hsource, fun hout => ?_⟩
  have hclear : ∀ p ∈ ps, p.IsClear := fun p hp => (hparts p hp).clear hout
  have hread := pieces_spell_all hclear
  refine ⟨joined ps, by rw [read?, hjsx, hread], ?_, ?_⟩
  · have hbody := read_deeper (are_joined_joined ps) (pieces_clear hread) (fun p hp => ?_) hhead
    · rw [spell_joined] at hbody
      exact hbody
    · exact deeper_joined_clear hout hparts p hp
  · rw [tags_deeper, ← tags_of_items ((items_joined ps).trans hitems), tags_arranged, List.map_map,
      List.map_inj_left]
    refine forall₂_congr fun t ht => ?_
    rw [← deeper_meanings_iff (hout t ht), Function.comp_apply, readTag, Prod.ext_iff]
    exact and_iff_right rfl

/-- Line feeds in a value that cannot be written in quotation marks, and in text. -/
theorem wrapped_attributes_icon :
    let markup := "<svg><g id='a&#10;\"'/><text>b\nc</text></svg>"
    let root : Node := .element ⟨"svg", []⟩ [.element ⟨"g", [⟨"id", "a\n\""⟩]⟩ [],
      .element ⟨"text", []⟩ [.leaf .text "b\nc"]]
    Document.parse markup = .ok ⟨[root]⟩ ∧ ∃ jsx body ps, convert 2 markup = .ok jsx ∧
      (Component.ofJsx "Icon" jsx).source = "const Icon = () => (\n" ++ body ++ "\n);\n" ∧
      read? jsx = some ps ∧ read? body = some (.literal "  " :: ps.map Piece.deeper) ∧
      (ps.map Piece.deeper).filterMap Piece.tag? = root.tags.map readTag := by
  intro markup root
  have hparse : Document.parse markup = .ok ⟨[root]⟩ := by decide +kernel
  obtain ⟨tag, children, jsx, body, hroot, hconvert, hsource, hread⟩ :=
    wrapped_attributes_iff hparse 2 "Icon"
  cases hroot
  obtain ⟨ps, hps, hbody, htags⟩ := hread (by decide +kernel)
  exact ⟨hparse, jsx, body, ps, hconvert, hsource, hps, hbody, htags.mpr (by decide +kernel)⟩

/-- A value of two lines is written in quotation marks, and its second line is moved with the lines
of the JSX. -/
theorem value_changed_in_component :
    let markup := "<svg><path d='M0 0&#10;L1 1'/></svg>"
    let jsx := "<svg>\n  <path d=\"M0 0\nL1 1\" />\n</svg>"
    let body := "  <svg>\n    <path d=\"M0 0\n  L1 1\" />\n  </svg>"
    Document.parse markup = .ok ⟨[.element ⟨"svg", []⟩ [.element ⟨"path",
        [⟨"d", "M0 0\nL1 1"⟩]⟩ []]]⟩ ∧
      convert 2 markup = .ok jsx ∧
      (Component.ofJsx "Icon" jsx).source = "const Icon = () => (\n" ++ body ++ "\n);\n" ∧
      (read? jsx).map (·.filterMap Piece.tag?) =
        some [("svg", []), ("path", [("d", .string "M0 0\nL1 1")])] ∧
      (read? body).map (·.filterMap Piece.tag?) =
        some [("svg", []), ("path", [("d", .string "M0 0\n  L1 1")])] := by
  decide +kernel

end SvgPress.Jsx
