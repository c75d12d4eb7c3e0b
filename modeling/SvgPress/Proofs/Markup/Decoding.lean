import SvgPress.Proofs.Markup.NormalForm

/-!
The two ways of decoding. In character data each reference is decoded on its own, and one that
stands for nothing stays as it is; in an attribute value one such reference keeps all others from
being decoded. The same text therefore means the same in both places exactly if its references are
all of one kind.
-/

namespace SvgPress

open Markup

namespace Entity

/-- What a text with references is made of. -/
inductive Piece where
  | char (c : Char)
  | reference (name : List Char)
  deriving DecidableEq, Repr

namespace Piece

def written : Piece → List Char
  | .char c => [c]
  | .reference name => '&' :: name ++ [';']

/-- The name, if the piece is a reference. -/
def name? : Piece → Option (List Char)
  | .char _ => none
  | .reference name => some name

/-- The character that the piece stands for. -/
def decoded? : Piece → Option Char
  | .char c => some c
  | .reference name => decode? name

/-- What the piece is read as in character data. -/
def shown : Piece → List Char
  | .char c => [c]
  | .reference name => (decodeReference name).toList

end Piece

/-- The pieces of a text, if every ampersand in it begins a reference. -/
def pieces? (cs : List Char) : Option (List Piece) :=
  match cs with
  | [] => some []
  | c :: rest =>
    if c = '&' then
      match _h : takeName? ['&'] rest with
      | none => none
      | some (name, after) => (pieces? after).map (.reference name :: ·)
    else (pieces? rest).map (.char c :: ·)
termination_by cs.length
decreasing_by
  · have := congrArg List.length (takeName?_eq _h)
    simp at this ⊢
    omega
  · simp

/-- The names of the references in a text, if every ampersand in it begins one. -/
def references? (cs : List Char) : Option (List (List Char)) :=
  (pieces? cs).map (·.filterMap Piece.name?)

theorem pieces_char {c : Char} (h : c ≠ '&') (rest : List Char) :
    pieces? (c :: rest) = (pieces? rest).map (.char c :: ·) := by
  rw [pieces?, if_neg h]

theorem pieces_unclosed {rest : List Char} (h : takeName? ['&'] rest = none) :
    pieces? ('&' :: rest) = none := by
  rw [pieces?, if_pos rfl]
  split
  · rfl
  · simp_all

theorem pieces_reference {rest name after : List Char}
    (h : takeName? ['&'] rest = some (name, after)) :
    pieces? ('&' :: rest) = (pieces? after).map (.reference name :: ·) := by
  rw [pieces?, if_pos rfl]
  split
  · simp_all
  · rename_i name' after' h'
    obtain ⟨rfl, rfl⟩ : name = name' ∧ after = after' := by simpa [h] using h'
    rfl

theorem decode_all_char {c : Char} (h : c ≠ '&') (rest : List Char) :
    decodeAll? (c :: rest) = (decodeAll? rest).map (c :: ·) := by
  rw [decodeAll?, if_neg h]

theorem decode_all_reference {rest name after : List Char}
    (h : takeName? ['&'] rest = some (name, after)) :
    decodeAll? ('&' :: rest) =
      (decode? name).bind fun d => (decodeAll? after).map (d :: ·) := by
  rw [decodeAll?, if_pos rfl]
  split
  · simp_all
  · rename_i name' after' h'
    obtain ⟨rfl, rfl⟩ : name = name' ∧ after = after' := by simpa [h] using h'
    cases decode? name <;> rfl

/-- The three ways a text can begin: with a character, with an ampersand that begins nothing, or
with a reference. -/
theorem pieces_induction {motive : List Char → Prop} (nil : motive [])
    (char : ∀ c rest, c ≠ '&' → motive rest → motive (c :: rest))
    (unclosed : ∀ rest, takeName? ['&'] rest = none → motive ('&' :: rest))
    (reference : ∀ rest name after, takeName? ['&'] rest = some (name, after) → motive after →
      motive ('&' :: rest)) (cs : List Char) : motive cs := by
  induction cs using pieces?.induct with
  | case1 => exact nil
  | case2 rest h => exact unclosed rest h
  | case3 rest name after h ih => exact reference rest name after h ih
  | case4 c rest h ih => exact char c rest h ih

/-- The pieces make up the text. -/
theorem written_pieces {cs : List Char} {ps : List Piece} (h : pieces? cs = some ps) :
    ps.flatMap Piece.written = cs := by
  induction cs using pieces_induction generalizing ps with
  | nil =>
      obtain rfl : [] = ps := by simpa [pieces?] using h
      rfl
  | char c rest hc ih =>
      rw [pieces_char hc] at h
      obtain ⟨more, hmore, rfl⟩ := Option.map_eq_some_iff.mp h
      rw [List.flatMap_cons, ih hmore]
      rfl
  | unclosed rest hnone =>
      rw [pieces_unclosed hnone] at h
      cases h
  | reference rest name after hname ih =>
      rw [pieces_reference hname] at h
      obtain ⟨more, hmore, rfl⟩ := Option.map_eq_some_iff.mp h
      rw [List.flatMap_cons, ih hmore, takeName?_eq hname]
      simp [Piece.written]

theorem decode_reference_ne_empty (name : List Char) : decodeReference name ≠ "" := by
  unfold decodeReference
  split
  · simp [← String.toList_inj]
  · simp [← String.toList_inj]

theorem Piece.shown_ne_nil (p : Piece) : p.shown ≠ [] := by
  cases p with
  | char c => simp [shown]
  | reference name => simpa [shown] using decode_reference_ne_empty name

theorem Piece.shown_of_decoded {p : Piece} {c : Char} (h : p.decoded? = some c) :
    p.shown = [c] := by
  cases p with
  | char d => simpa [decoded?, shown] using h
  | reference name =>
      have hname : decode? name = some c := h
      rw [shown, decodeReference, hname, String.toList_ofList]

theorem Piece.shown_of_not_decoded {p : Piece} (h : p.decoded? = none) : p.shown = p.written := by
  cases p with
  | char d => cases h
  | reference name =>
      have hname : decode? name = none := h
      rw [shown, decodeReference, hname, String.toList_ofList, written]

/-- An attribute value is decoded, as character data is, if each of its pieces can be; otherwise not
at all. -/
theorem decode_all_of_pieces {cs : List Char} {ps : List Piece} (h : pieces? cs = some ps) :
    decodeAll? cs =
      if ps.all (·.decoded?.isSome) then some (ps.flatMap Piece.shown) else none := by
  induction cs using pieces_induction generalizing ps with
  | nil =>
      obtain rfl : [] = ps := by simpa [pieces?] using h
      simp [decodeAll?]
  | char c rest hc ih =>
      rw [pieces_char hc] at h
      obtain ⟨more, hmore, rfl⟩ := Option.map_eq_some_iff.mp h
      rw [decode_all_char hc, ih hmore, List.all_cons, List.flatMap_cons]
      have hfirst : (Piece.char c).decoded?.isSome = true := rfl
      rw [hfirst, Bool.true_and]
      split
      · rfl
      · rfl
  | unclosed rest hnone =>
      rw [pieces_unclosed hnone] at h
      cases h
  | reference rest name after hname ih =>
      rw [pieces_reference hname] at h
      obtain ⟨more, hmore, rfl⟩ := Option.map_eq_some_iff.mp h
      rw [decode_all_reference hname, ih hmore, List.all_cons, List.flatMap_cons]
      cases hdecode : decode? name with
      | none =>
          have hfirst : (Piece.reference name).decoded?.isSome = false :=
            congrArg Option.isSome hdecode
          rw [hfirst, Bool.false_and]
          rfl
      | some d =>
          have hfirst : (Piece.reference name).decoded? = some d := hdecode
          rw [hfirst, Piece.shown_of_decoded hfirst, Option.isSome_some, Bool.true_and]
          split
          · rfl
          · rfl

/-- What a reference stands for is shorter than the reference. -/
theorem Piece.length_shown_le (p : Piece) :
    p.shown.length ≤ p.written.length ∧
      (p.shown.length = p.written.length → ∀ name ∈ p.name?, decode? name = none) := by
  cases p with
  | char c => exact ⟨Nat.le_refl _, fun _ name hname => by cases hname⟩
  | reference name =>
      cases hdecode : (Piece.reference name).decoded? with
      | none =>
          rw [shown_of_not_decoded hdecode]
          refine ⟨Nat.le_refl _, fun _ other hother => ?_⟩
          cases hother
          exact hdecode
      | some c =>
          rw [shown_of_decoded hdecode, written]
          simp

theorem length_shown_le (ps : List Piece) :
    (ps.flatMap Piece.shown).length ≤ (ps.flatMap Piece.written).length := by
  induction ps with
  | nil => exact Nat.le_refl _
  | cons p ps ih =>
      rw [List.flatMap_cons, List.flatMap_cons, List.length_append, List.length_append]
      exact Nat.add_le_add p.length_shown_le.1 ih

theorem Piece.shown_of_unnamed {p : Piece} (h : ∀ name ∈ p.name?, decode? name = none) :
    p.shown = p.written := by
  cases p with
  | char c => rfl
  | reference name => exact shown_of_not_decoded (h name rfl)

theorem forall_name_cons {motive : List Char → Prop} (p : Piece) (ps : List Piece) :
    (∀ name ∈ (p :: ps).filterMap Piece.name?, motive name) ↔
      (∀ name ∈ p.name?, motive name) ∧ ∀ name ∈ ps.filterMap Piece.name?, motive name := by
  cases p with
  | char c => simp [Piece.name?]
  | reference name => simp [Piece.name?]

/-- Decoding each reference on its own changes nothing exactly if none of them stands for a
character. -/
theorem shown_eq_written_iff (ps : List Piece) :
    ps.flatMap Piece.shown = ps.flatMap Piece.written ↔
      ∀ name ∈ ps.filterMap Piece.name?, decode? name = none := by
  induction ps with
  | nil => simp
  | cons p ps ih =>
      rw [forall_name_cons, ← ih, List.flatMap_cons, List.flatMap_cons]
      constructor
      · intro heq
        have hlength := congrArg List.length heq
        rw [List.length_append, List.length_append] at hlength
        obtain ⟨hle, hnames⟩ := p.length_shown_le
        have hmore := length_shown_le ps
        have hfirst : p.shown.length = p.written.length := by omega
        exact ⟨hnames hfirst, (List.append_inj heq hfirst).2⟩
      · rintro ⟨hnames, hmore⟩
        rw [Piece.shown_of_unnamed hnames, hmore]

theorem all_decoded_iff (ps : List Piece) :
    ps.all (·.decoded?.isSome) = true ↔
      ∀ name ∈ ps.filterMap Piece.name?, (decode? name).isSome := by
  induction ps with
  | nil => simp
  | cons p ps ih =>
      rw [forall_name_cons, ← ih, List.all_cons, Bool.and_eq_true]
      cases p with
      | char c => simp [Piece.decoded?, Piece.name?]
      | reference name => simp [Piece.decoded?, Piece.name?]

/-- An attribute value means what the same text means as character data exactly if all its
references stand for characters or none does. -/
theorem decode_value_eq_shown_iff {cs : List Char} {ps : List Piece} (h : pieces? cs = some ps) :
    decodeValue cs = String.ofList (ps.flatMap Piece.shown) ↔
      (∀ name ∈ ps.filterMap Piece.name?, (decode? name).isSome) ∨
        ∀ name ∈ ps.filterMap Piece.name?, decode? name = none := by
  rw [decodeValue, decode_all_of_pieces h, ← all_decoded_iff, String.ofList_inj]
  split
  · rename_i hall
    simp [hall]
  · rename_i hbad
    rw [Option.getD_none, ← shown_eq_written_iff, written_pieces h, eq_comm]
    simp [hbad]

section Text

variable {rest : List Char}

/-- In character data a reference may not run into markup; where there is none, it makes no
difference. -/
theorem take_name_before_markup {cs name after : List Char} (hcs : '<' ∉ cs)
    (h : takeName? ['&'] cs = some (name, after)) :
    takeName? ['&', '<'] (cs ++ rest) = some (name, after ++ rest) := by
  induction cs generalizing name with
  | nil => cases h
  | cons c cs ih =>
      rw [List.mem_cons, not_or] at hcs
      rw [takeName?] at h
      rw [List.cons_append, takeName?]
      split at h
      · rename_i hend
        cases h
        rw [if_pos hend]
      · rename_i hend
        split at h
        · cases h
        · rename_i hstop
          obtain ⟨⟨more, back⟩, hmore, hpair⟩ := Option.map_eq_some_iff.mp h
          cases hpair
          have hnot : ¬ ['&', '<'].contains c = true := by
            simpa [Ne.symm hcs.1] using hstop
          rw [if_neg hend, if_neg hnot, ih hcs.2 hmore]
          rfl

theorem take_name_unclosed {cs : List Char} (hcs : '<' ∉ cs) (h : takeName? ['&'] cs = none) :
    takeName? ['&', '<'] (cs ++ '<' :: rest) = none := by
  induction cs with
  | nil => rfl
  | cons c cs ih =>
      rw [List.mem_cons, not_or] at hcs
      rw [takeName?] at h
      rw [List.cons_append, takeName?]
      split at h
      · cases h
      · rename_i hend
        rw [if_neg hend]
        split at h
        · rename_i hstop
          have hamp : c = '&' := by simpa using hstop
          rw [hamp]
          rfl
        · rw [ih hcs.2 (Option.map_eq_none_iff.mp h)]
          split
          · rfl
          · rfl

end Text

end Entity

namespace Assembly

theorem add_text_eq_add_chars (a : Assembly) {s : String} (h : s ≠ "") :
    a.addText s = a.addChars s.toList := by
  have hne : s.toList.isEmpty = false := by simpa using h
  rw [addChars, hne, String.ofList_toList]
  rfl

/-- Character data up to some markup is read piece by piece, and as one text. -/
theorem resume_pieces (a : Assembly) {cs : List Char} (hcs : '<' ∉ cs) (rest : List Char) :
    a.resume (cs ++ '<' :: rest) =
      (Entity.pieces? cs).bind fun ps =>
        (a.addChars (ps.flatMap Entity.Piece.shown)).resume ('<' :: rest) := by
  induction cs using Entity.pieces_induction generalizing a with
  | nil =>
      rw [Entity.pieces?]
      rfl
  | char c cs hc ih =>
      rw [List.mem_cons, not_or] at hcs
      rw [List.cons_append, resume_char a (Ne.symm hcs.1) hc, ih _ hcs.2, Entity.pieces_char hc]
      cases Entity.pieces? cs with
      | none => rfl
      | some ps =>
          rw [Option.map_some, Option.bind_some, Option.bind_some, List.flatMap_cons,
            add_chars_append]
          rfl
  | unclosed cs h =>
      rw [List.mem_cons, not_or] at hcs
      rw [Entity.pieces_unclosed h, List.cons_append, resume, readFrom, if_neg (by decide),
        if_pos rfl]
      have hnone : Entity.takeName? ['&', '<'] (cs ++ '<' :: rest) = none :=
        Entity.take_name_unclosed hcs.2 h
      split
      · simp [conclude, Reading.stopped, run]
      · simp_all
  | reference cs name after h ih =>
      rw [List.mem_cons, not_or] at hcs
      have hafter : '<' ∉ after := fun hmem => hcs.2 (by
        rw [Entity.takeName?_eq h]
        simp [hmem])
      rw [List.cons_append, resume_reference a (Entity.take_name_before_markup hcs.2 h),
        ih _ hafter, Entity.pieces_reference h]
      cases Entity.pieces? after with
      | none => rfl
      | some ps =>
          rw [Option.map_some, Option.bind_some, Option.bind_some, List.flatMap_cons,
            add_chars_append, add_text_eq_add_chars a (Entity.decode_reference_ne_empty name)]
          rfl

end Assembly

/-! ### An element with the same text in an attribute and as its content -/

/-- The start tag `<text x="..">` is read as a tag with one attribute. -/
theorem Markup.label_takes (opened : List String) {value : List Char} (h : '"' ∉ value)
    (rest : List Char) :
    Takes (markup opened ("text x=\"".toList ++ value ++ "\">".toList ++ rest)) ("text" :: opened)
      (.start "text" (.ok [⟨"x", Entity.decodeValue value⟩])) rest := by
  let content := "text x=".toList ++ '"' :: (value ++ ['"'])
  have hsplit : "text x=\"".toList ++ value ++ "\">".toList ++ rest = content ++ '>' :: rest := by
    simp [content]
  have hpasses : Passes content := by
    refine Passes.append (passes_of_plain (by decide)) ?_
    exact (passes_quoted (.inl rfl) h []).mpr passes_nil
  have hlast : content.getLast? ≠ some '/' := by
    simp [content, List.getLast?_cons]
  have hname : tagName content = "text".toList := rfl
  have hvalue := span_exact (· != '"') value ['"']
    (fun c hc => by
      rw [bne_iff_ne]
      rintro rfl
      exact h hc) (by simp)
  have hattributes : tagAttributes content = .ok [⟨"x", Entity.decodeValue value⟩] := by
    have hbehind : content.dropWhile (!isSpace ·) = ' ' :: 'x' :: '=' :: '"' :: (value ++ ['"']) :=
      rfl
    rw [tagAttributes, hbehind, attributes_from_cons 'x' '"' rfl rfl rfl rfl (.inl rfl) hvalue.2,
      hvalue.1, attributesFrom]
    rfl
  have htakes := start_tag_takes opened (hpasses.tag_content rest) hlast
  rw [hname, hattributes] at htakes
  rw [hsplit, markup_start_tag opened _ (by simp)]
  · exact htakes
  · simp [content]

/-- An element as written with a text both as the value of its attribute and as its content. -/
def Markup.labelled (s : String) : String :=
  "<text x=\"" ++ s ++ "\">" ++ s ++ "</text>"

namespace Document

/-- The text of an element and its attribute, the same as written, are read with a meaning each. -/
theorem parse_labelled {s : String} (hne : s ≠ "") (hlt : '<' ∉ s.toList)
    (hquote : '"' ∉ s.toList) :
    (parse (labelled s)).toOption =
      (Entity.pieces? s.toList).map fun ps =>
        ⟨[.element ⟨"text", [⟨"x", Entity.decodeValue s.toList⟩]⟩
          [.leaf .text (String.ofList (ps.flatMap Entity.Piece.shown))]]⟩ := by
  let tag : Tag := ⟨"text", [⟨"x", Entity.decodeValue s.toList⟩]⟩
  have hplain : tag.IsPlain :=
    ⟨(by decide : isPlainName "text".toList),
      by simp [tag, isPlainKey, isNamePart, isSpace], by simp [tag]⟩
  have hsource : (labelled s).toList =
      '<' :: ("text x=\"".toList ++ s.toList ++ "\">".toList ++
        (s.toList ++ '<' :: "/text>".toList)) := by
    simp [labelled]
  have hclose (latest : List Node) :
      (Assembly.mk [⟨tag, latest⟩] []).resume ('<' :: "/text>".toList) =
        some ⟨[.element tag latest.reverse]⟩ := by
    have hleave := Assembly.resume_leave hplain latest [] [] []
    have hchars : tag.writeClosing.toList ++ [] = '<' :: "/text>".toList := by
      simp [Tag.to_list_write_closing, tag]
    rw [Assembly.settled_eq, settle_of_keeps rfl, hchars, Assembly.resume_nil] at hleave
    exact hleave
  rw [parse_to_option _ (by simp [hsource]), hsource,
    Assembly.resume_takes _ (label_takes _ hquote _)]
  have henter : Assembly.empty.step (.start "text" (.ok tag.attributes)) = .ok ⟨[⟨tag, []⟩], []⟩ :=
    rfl
  rw [henter]
  dsimp only
  rw [Assembly.resume_pieces _ hlt]
  cases hps : Entity.pieces? s.toList with
  | none => rfl
  | some ps =>
      have hshown : (ps.flatMap Entity.Piece.shown).isEmpty = false := by
        rw [List.isEmpty_eq_false_iff, ne_eq, List.flatMap_eq_nil_iff]
        intro hnone
        cases ps with
        | nil => exact hne (String.toList_eq_nil_iff.mp (Entity.written_pieces hps).symm)
        | cons p ps => exact p.shown_ne_nil (hnone p List.mem_cons_self)
      rw [Option.bind_some, Assembly.addChars, hshown]
      exact hclose _

/-- For a text without `<` and double quotes, `<text x="..">..</text>` with the text in both places
can be read exactly if every ampersand in it begins a reference. The attribute and the text of the
element are then equal exactly if all references stand for characters or none does. -/
theorem value_and_text_agree_iff {s : String} (hne : s ≠ "") (hlt : '<' ∉ s.toList)
    (hquote : '"' ∉ s.toList) :
    ((∃ doc, parse (labelled s) = .ok doc) ↔ (Entity.references? s.toList).isSome) ∧
      ∀ doc, parse (labelled s) = .ok doc →
        ∃ names tag children value, Entity.references? s.toList = some names ∧
          doc.root? = some (tag, children) ∧ tag.attribute? "x" = some value ∧
          (value = textOf children ↔
            (∀ name ∈ names, (Entity.decode? name).isSome) ∨
              ∀ name ∈ names, Entity.decode? name = none) := by
  have hparse := parse_labelled hne hlt hquote
  rw [Entity.references?]
  cases hps : Entity.pieces? s.toList with
  | none =>
      rw [hps, Option.map_none] at hparse
      have hnone (doc : Document) : parse (labelled s) ≠ .ok doc := by
        rw [Ne, parse_eq_ok_iff, hparse]
        simp
      exact ⟨by simpa using hnone, fun doc hdoc => absurd hdoc (hnone doc)⟩
  | some ps =>
      rw [hps, Option.map_some] at hparse
      refine ⟨by simpa using ⟨_, parse_eq_ok_iff.mpr hparse⟩, fun doc hdoc => ?_⟩
      rw [parse_eq_ok_iff, hparse] at hdoc
      cases hdoc
      refine ⟨_, _, _, _, rfl, rfl, rfl, ?_⟩
      rw [← Entity.decode_value_eq_shown_iff hps]
      simp [textOf, Node.characterData]

theorem value_and_text_agree_known :
    let s := "a &lt;&#x62;; &amp;gt; 'c'"
    let doc : Document := ⟨[.element ⟨"text", [⟨"x", "a <b; &gt; 'c'"⟩]⟩
      [.leaf .text "a <b; &gt; 'c'"]]⟩
    Entity.references? s.toList = some ["lt".toList, "#x62".toList, "amp".toList] ∧
      parse (labelled s) = .ok doc ∧ ∃ tag children value, doc.root? = some (tag, children) ∧
        tag.attribute? "x" = some value ∧ value = textOf children := by
  intro s doc
  have hnames : Entity.references? s.toList = some ["lt".toList, "#x62".toList, "amp".toList] := by
    decide +kernel
  have hdoc : parse (labelled s) = .ok doc := by decide +kernel
  obtain ⟨-, hagree⟩ := value_and_text_agree_iff (s := s) (by decide) (by decide) (by decide)
  obtain ⟨names, tag, children, value, hfound, hroot, hvalue, hiff⟩ := hagree doc hdoc
  obtain rfl : _ = names := Option.some.inj (hnames.symm.trans hfound)
  exact ⟨hnames, hdoc, tag, children, value, hroot, hvalue, hiff.mpr (.inl (by decide))⟩

/-- A reference that stands for nothing keeps the one before it from being decoded in the attribute
only. -/
theorem value_and_text_differ :
    let s := "&lt;&ns;"
    let doc : Document := ⟨[.element ⟨"text", [⟨"x", "&lt;&ns;"⟩]⟩ [.leaf .text "<&ns;"]]⟩
    s ≠ "" ∧ '<' ∉ s.toList ∧ '"' ∉ s.toList ∧ parse (labelled s) = .ok doc ∧
      ∃ tag children value, doc.root? = some (tag, children) ∧ tag.attribute? "x" = some value ∧
        value ≠ textOf children := by
  refine ⟨by decide, by decide, by decide, by decide +kernel, _, _, _, rfl, rfl, by decide⟩

end Document

end SvgPress
