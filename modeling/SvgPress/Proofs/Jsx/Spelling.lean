import SvgPress.Proofs.Jsx.Pieces

/-!
Pieces as they are written, and read back. A piece that is clear is read as itself, whatever follows
it. Literal texts that stand side by side are read as one, and empty ones are not read at all.
-/

namespace SvgPress.Jsx

/-- The value of an attribute as it is written. -/
def Meaning.spell : Meaning → List Char
  | .string s => (attributeValue s).toList
  | .code source => '\x7b' :: (source.toList ++ ['\x7d'])

/-- Attributes as they are written, with a space before each. -/
def spellAttributes (attributes : Meanings) : List Char :=
  attributes.flatMap fun (name, meaning) => ' ' :: (name.toList ++ '=' :: meaning.spell)

def Piece.spell : Piece → List Char
  | .opening name attributes => '<' :: (name.toList ++ (spellAttributes attributes ++ ['>']))
  | .single name attributes =>
      '<' :: (name.toList ++ (spellAttributes attributes ++ [' ', '/', '>']))
  | .closing name => '<' :: '/' :: (name.toList ++ ['>'])
  | .literal text => text.toList
  | .braces (.string s) => (expression s).toList
  | .braces (.code source) => '\x7b' :: (source.toList ++ ['\x7d'])

def spellAll (ps : List Piece) : List Char :=
  ps.flatMap Piece.spell

@[simp] theorem spell_all_nil : spellAll [] = [] := rfl

@[simp] theorem spell_all_cons (p : Piece) (ps : List Piece) :
    spellAll (p :: ps) = p.spell ++ spellAll ps := rfl

@[simp] theorem spell_all_append (ps qs : List Piece) :
    spellAll (ps ++ qs) = spellAll ps ++ spellAll qs :=
  List.flatMap_append

theorem to_list_expression (s : String) :
    (expression s).toList = '\x7b' :: ((Json.quote s).toList ++ ['\x7d']) := by
  simp [expression, String.toList_append]

/-- A value is written in quotation marks if it has nothing that quotation marks would change. -/
theorem to_list_attribute_value (s : String) :
    (attributeValue s).toList =
      if '"' ∈ s.toList ∨ '&' ∈ s.toList then (expression s).toList
      else '"' :: (s.toList ++ ['"']) := by
  unfold attributeValue
  have hany : (s.toList.any fun c => c == '"' || c == '&') = true ↔
      '"' ∈ s.toList ∨ '&' ∈ s.toList := by
    simp only [List.any_eq_true, Bool.or_eq_true, beq_iff_eq]
    constructor
    · rintro ⟨c, hc, rfl | rfl⟩
      · exact .inl hc
      · exact .inr hc
    · rintro (hc | hc)
      · exact ⟨_, hc, .inl rfl⟩
      · exact ⟨_, hc, .inr rfl⟩
  by_cases h : '"' ∈ s.toList ∨ '&' ∈ s.toList
  · rw [if_pos (hany.mpr h), if_pos h]
  · rw [if_neg fun hpos => h (hany.mp hpos), if_neg h]
    simp [String.toList_append]

section Reading

variable {name : String} {attributes : Meanings} {meaning : Meaning}

theorem value_expression (s : String) (rest : List Char) :
    value? ((expression s).toList ++ rest) = some (.string s, rest) := by
  have hsplit : (expression s).toList ++ rest =
      '\x7b' :: ((Json.quote s).toList ++ '\x7d' :: rest) := by
    rw [to_list_expression]
    simp
  rw [hsplit, value?, (closed_quote s).braced, Option.map_some]
  simp only [Meaning.of_source_quote]

theorem value_spell (h : meaning.IsClear) (rest : List Char) :
    value? (meaning.spell ++ rest) = some (meaning, rest) := by
  cases meaning with
  | string s =>
      rw [Meaning.spell, to_list_attribute_value]
      split
      · exact value_expression s rest
      · rename_i hplain
        rw [not_or] at hplain
        obtain ⟨htake, hdrop⟩ := Markup.span_exact (· != '"') s.toList ('"' :: rest)
          (fun c hc => by
            rw [bne_iff_ne]
            rintro rfl
            exact hplain.1 hc)
          (by simp)
        have hsplit : '"' :: (s.toList ++ ['"']) ++ rest = '"' :: (s.toList ++ '"' :: rest) := by
          simp
        rw [hsplit, value?, hdrop, htake]
        simp [hplain.2]
  | code source =>
      have hsplit : Meaning.spell (.code source) ++ rest =
          '\x7b' :: (source.toList ++ '\x7d' :: rest) := by
        simp [Meaning.spell]
      rw [hsplit, value?, h.1.braced, Option.map_some]
      simp only [h.2]

theorem attribute_spell (hname : ∀ c ∈ name.toList, isNamePart c) (h : meaning.IsClear)
    (rest : List Char) :
    attribute? (name.toList ++ '=' :: (meaning.spell ++ rest)) = some ((name, meaning), rest) := by
  obtain ⟨htake, hdrop⟩ := Markup.span_exact isNamePart name.toList
    ('=' :: (meaning.spell ++ rest)) hname (by simp [isNamePart])
  rw [attribute?, hdrop, htake, String.ofList_toList]
  simp only [value_spell h, Option.map_some]

/-- The attributes of a tag that do not end it go on with one of them. -/
theorem attributes_more {cs more rest : List Char} {a : String × Meaning}
    (hcs : cs.dropWhile Markup.isSpace = more) (hhead : ∀ c ∈ more.head?, c ≠ '>' ∧ c ≠ '/')
    (ha : attribute? more = some (a, rest)) :
    attributes? cs =
      (attributes? rest).map fun (others, alone, after) => (a :: others, alone, after) := by
  rw [attributes?]
  split
  · rename_i after hafter
    rw [← hcs, hafter] at hhead
    exact absurd rfl (hhead '>' rfl).1
  · rename_i after hafter
    rw [← hcs, hafter] at hhead
    exact absurd rfl (hhead '/' rfl).2
  · rename_i hopen halone
    rw [hcs]
    split
    · rename_i hnone
      rw [ha] at hnone
      cases hnone
    · rename_i a' rest' hfound
      rw [ha] at hfound
      cases hfound
      rfl

theorem attributes_spell (h : AreClear attributes) {ending : List Char} {alone : Bool}
    {rest : List Char} (hending : attributes? ending = some ([], alone, rest)) :
    attributes? (spellAttributes attributes ++ ending) = some (attributes, alone, rest) := by
  induction attributes with
  | nil => exact hending
  | cons a attributes ih =>
      obtain ⟨name, meaning⟩ := a
      rw [AreClear, List.forall_mem_cons] at h
      obtain ⟨⟨hname, hclear⟩, hothers⟩ := h
      have hsplit : spellAttributes ((name, meaning) :: attributes) ++ ending =
          ' ' :: (name.toList ++
            '=' :: (meaning.spell ++ (spellAttributes attributes ++ ending))) := by
        simp [spellAttributes]
      -- The first character of the name, or the equals sign if the name is empty.
      have hhead (rest : List Char) : ∀ c ∈ (name.toList ++ '=' :: rest).head?,
          Markup.isSpace c = false ∧ c ≠ '>' ∧ c ≠ '/' := by
        intro c hc
        cases hchars : name.toList with
        | nil =>
            rw [hchars] at hc
            cases hc
            decide
        | cons d ds =>
            rw [hchars] at hc
            obtain rfl : d = c := Option.some.inj hc
            have hd := hname d (by rw [hchars]; exact List.mem_cons_self)
            simp only [isNamePart, Bool.and_eq_true, Bool.not_eq_true'] at hd
            refine ⟨hd.1, ?_, ?_⟩ <;>
              · rintro rfl
                exact absurd hd.2 (by decide)
      have hdrop (rest : List Char) :
          (' ' :: (name.toList ++ '=' :: rest)).dropWhile Markup.isSpace =
          name.toList ++ '=' :: rest :=
        (Markup.span_exact Markup.isSpace [' '] (name.toList ++ '=' :: rest) (by decide)
          fun c hc => (hhead rest c hc).1).2
      rw [hsplit, attributes_more (hdrop _) (fun c hc => (hhead _ c hc).2)
        (attribute_spell hname hclear _), ih hothers]
      rfl

theorem attributes_close {cs rest : List Char} (h : cs.dropWhile Markup.isSpace = '>' :: rest) :
    attributes? cs = some ([], false, rest) := by
  rw [attributes?]
  split
  · rename_i after hafter
    cases h.symm.trans hafter
    rfl
  · rename_i after hafter
    cases h.symm.trans hafter
  · rename_i hopen _
    exact absurd h (hopen rest)

theorem attributes_end {cs rest : List Char}
    (h : cs.dropWhile Markup.isSpace = '/' :: '>' :: rest) :
    attributes? cs = some ([], true, rest) := by
  rw [attributes?]
  split
  · rename_i after hafter
    cases h.symm.trans hafter
  · rename_i after hafter
    cases h.symm.trans hafter
    rfl
  · rename_i _ halone
    exact absurd h (halone rest)

/-- A tag begins with its name, which no space, slash or bracket that follows is part of. -/
theorem tag_named (hname : ∀ c ∈ name.toList, isNamePart c) {more : List Char}
    (hhead : ∀ c ∈ more.head?, c = ' ' ∨ c = '>') :
    tag? (name.toList ++ more) = (attributes? more).map fun (attributes, alone, rest) =>
      (if alone then .single name attributes else .opening name attributes, rest) := by
  obtain ⟨htake, hdrop⟩ := Markup.span_exact isNamePart name.toList more hname fun c hc => by
    rcases hhead c hc with rfl | rfl <;> decide
  have hslash : ∀ cs, name.toList ++ more ≠ '/' :: cs := by
    intro cs heq
    cases hchars : name.toList with
    | nil =>
        rw [hchars, List.nil_append] at heq
        rcases hhead '/' (by rw [heq]; rfl) with h | h <;> cases h
    | cons d ds =>
        rw [hchars, List.cons_append, List.cons.injEq] at heq
        have hd := hname d (by rw [hchars]; exact List.mem_cons_self)
        rw [heq.1] at hd
        exact absurd hd (by decide)
  unfold tag?
  split
  · rename_i cs heq
    exact absurd heq (hslash cs)
  · rw [htake, hdrop, String.ofList_toList]

theorem head_spell_attributes (attributes : Meanings) {ending : List Char}
    (h : ∀ c ∈ ending.head?, c = ' ' ∨ c = '>') :
    ∀ c ∈ (spellAttributes attributes ++ ending).head?, c = ' ' ∨ c = '>' := by
  cases attributes with
  | nil => exact h
  | cons a attributes =>
      intro c hc
      cases hc
      exact .inl rfl

theorem tag_opening (hname : ∀ c ∈ name.toList, isNamePart c) (h : AreClear attributes)
    (rest : List Char) : tag? (name.toList ++ (spellAttributes attributes ++ '>' :: rest)) =
      some (.opening name attributes, rest) := by
  rw [tag_named hname (head_spell_attributes attributes (by simp)),
    attributes_spell h (attributes_close rfl)]
  rfl

theorem tag_single (hname : ∀ c ∈ name.toList, isNamePart c) (h : AreClear attributes)
    (rest : List Char) :
    tag? (name.toList ++ (spellAttributes attributes ++ ' ' :: '/' :: '>' :: rest)) =
      some (.single name attributes, rest) := by
  rw [tag_named hname (head_spell_attributes attributes (by simp)),
    attributes_spell h (attributes_end rfl)]
  rfl

theorem tag_closing (hname : ∀ c ∈ name.toList, isNamePart c) (rest : List Char) :
    tag? ('/' :: (name.toList ++ '>' :: rest)) = some (.closing name, rest) := by
  obtain ⟨htake, hdrop⟩ := Markup.span_exact isNamePart name.toList ('>' :: rest) hname (by
    simp [isNamePart])
  simp only [tag?, hdrop, htake, String.ofList_toList]

end Reading

section Pieces

theorem pieces_bracket {rest after : List Char} {p : Piece} (h : tag? rest = some (p, after)) :
    pieces? ('<' :: rest) = (pieces? after).map (p :: ·) := by
  rw [pieces?, if_pos rfl]
  split
  · rename_i hnone
    rw [h] at hnone
    cases hnone
  · rename_i p' after' hfound
    rw [h] at hfound
    cases hfound
    rfl

theorem pieces_brace {rest after source : List Char}
    (h : braced? (.code 0) rest = some (source, after)) :
    pieces? ('\x7b' :: rest) = (pieces? after).map (.braces (.ofSource source) :: ·) := by
  rw [pieces?, if_neg (by decide), if_pos rfl]
  split
  · rename_i hnone
    rw [h] at hnone
    cases hnone
  · rename_i source' after' hfound
    rw [h] at hfound
    cases hfound
    rfl

/-- Literal text in front of pieces. -/
def consLiteral (s : String) : List Piece → List Piece
  | .literal t :: ps => .literal (s ++ t) :: ps
  | ps => if s.isEmpty then ps else .literal s :: ps

/-- A piece in front of others. -/
def Piece.onto : Piece → List Piece → List Piece
  | .literal s, ps => consLiteral s ps
  | p, ps => p :: ps

/-- Pieces with the literal texts that stand side by side made one, and without empty ones. -/
def joined (ps : List Piece) : List Piece :=
  ps.foldr Piece.onto []

theorem cons_literal_append (s t : String) (ps : List Piece) :
    consLiteral (s ++ t) ps = consLiteral s (consLiteral t ps) := by
  have hempty (r : String) : r.isEmpty ↔ r = "" := by simp
  match ps with
  | .literal u :: ps => simp [consLiteral, String.append_assoc]
  | [] | .opening .. :: _ | .single .. :: _ | .closing _ :: _ | .braces _ :: _ =>
      by_cases ht : t = "" <;> by_cases hs : s = "" <;>
        simp [consLiteral, hempty, ht, hs]

/-- Text that does not begin literally has no literal text in front. -/
theorem cons_literal_of_head {cs : List Char} {ps : List Piece} (h : pieces? cs = some ps)
    (hcs : ∀ c ∈ cs.head?, isLiteral c = false) {s : String} (hs : s ≠ "") :
    consLiteral s ps = .literal s :: ps := by
  have hother : ∀ t qs, ps ≠ .literal t :: qs := by
    rintro t qs rfl
    cases cs with
    | nil =>
        rw [pieces?] at h
        cases h
    | cons c rest =>
        have hc := hcs c rfl
        rw [pieces?] at h
        split at h
        · split at h
          · cases h
          · rename_i piece after htag
            obtain ⟨others, -, heq⟩ := Option.map_eq_some_iff.mp h
            cases heq
            unfold tag? at htag
            split at htag
            · split at htag
              · cases htag
              · cases htag
            · obtain ⟨⟨attributes, alone, last⟩, -, heq⟩ := Option.map_eq_some_iff.mp htag
              cases alone <;> cases heq
        · split at h
          · split at h
            · cases h
            · obtain ⟨others, -, heq⟩ := Option.map_eq_some_iff.mp h
              cases heq
          · rw [if_neg (by rw [hc]; decide)] at h
            cases h
  unfold consLiteral
  split
  · rename_i t qs
    exact absurd rfl (hother t qs)
  · rw [if_neg (by simpa using hs)]

theorem pieces_run {c : Char} (hc : isLiteral c) (rest : List Char) :
    pieces? (c :: rest) = (pieces? (rest.dropWhile isLiteral)).map
      (.literal (String.ofList (c :: rest.takeWhile isLiteral)) :: ·) := by
  have hbracket : c ≠ '<' := by
    rintro rfl
    exact absurd hc (by decide)
  have hbrace : c ≠ '\x7b' := by
    rintro rfl
    exact absurd hc (by decide)
  rw [pieces?, if_neg hbracket, if_neg hbrace, if_pos hc]

theorem pieces_char {c : Char} (hc : isLiteral c) (rest : List Char) :
    pieces? (c :: rest) = (pieces? rest).map (consLiteral (String.ofList [c])) := by
  rw [pieces_run hc]
  by_cases hhead : ∀ d ∈ rest.head?, isLiteral d = false
  · have hrun := Markup.span_exact isLiteral [] rest (by simp) hhead
    rw [List.nil_append] at hrun
    rw [hrun.1, hrun.2]
    cases hrest : pieces? rest with
    | none => rfl
    | some ps =>
        rw [Option.map_some, Option.map_some, cons_literal_of_head hrest hhead (by simp)]
  · cases rest with
    | nil => exact absurd (by simp) hhead
    | cons d ds =>
        have hd : isLiteral d := by simpa using hhead
        rw [pieces_run hd, List.takeWhile_cons_of_pos hd, List.dropWhile_cons_of_pos hd,
          Option.map_map]
        congr 1
        funext ps
        rw [Function.comp_apply, consLiteral, ← String.ofList_append, List.singleton_append]

/-- Literal text goes in front of what follows it. -/
theorem pieces_literal {cs : List Char} (h : ∀ c ∈ cs, isLiteral c) (rest : List Char) :
    pieces? (cs ++ rest) = (pieces? rest).map (consLiteral (String.ofList cs)) := by
  induction cs with
  | nil =>
      have hid : consLiteral (String.ofList []) = id := by
        funext ps
        unfold consLiteral
        split
        · simp
        · rfl
      rw [hid, Option.map_id_fun, List.nil_append, id]
  | cons c cs ih =>
      rw [List.forall_mem_cons] at h
      have hcons : String.ofList (c :: cs) = String.ofList [c] ++ String.ofList cs := by
        rw [← String.ofList_append, List.singleton_append]
      rw [List.cons_append, pieces_char h.1, ih h.2, Option.map_map, hcons]
      congr 1
      funext ps
      rw [Function.comp_apply, cons_literal_append]

/-- A clear piece is read back in front of what follows it. -/
theorem pieces_spell {p : Piece} (h : p.IsClear) (rest : List Char) :
    pieces? (p.spell ++ rest) = (pieces? rest).map p.onto := by
  have hbraces {meaning : Meaning} {source : List Char} (hclosed : IsClosed source)
      (hmeaning : Meaning.ofSource source = meaning) :
      pieces? ('\x7b' :: (source ++ '\x7d' :: rest)) =
        (pieces? rest).map (.braces meaning :: ·) := by
    rw [pieces_brace (hclosed.braced rest), hmeaning]
  cases p with
  | opening name attributes =>
      obtain ⟨hname, hattributes⟩ := h
      have hsplit : (Piece.opening name attributes).spell ++ rest =
          '<' :: (name.toList ++ (spellAttributes attributes ++ '>' :: rest)) := by
        simp [Piece.spell]
      rw [hsplit, pieces_bracket (tag_opening hname hattributes rest)]
      rfl
  | single name attributes =>
      obtain ⟨hname, hattributes⟩ := h
      have hsplit : (Piece.single name attributes).spell ++ rest =
          '<' :: (name.toList ++ (spellAttributes attributes ++ ' ' :: '/' :: '>' :: rest)) := by
        simp [Piece.spell]
      rw [hsplit, pieces_bracket (tag_single hname hattributes rest)]
      rfl
  | closing name =>
      have hsplit : (Piece.closing name).spell ++ rest =
          '<' :: '/' :: (name.toList ++ '>' :: rest) := by
        simp [Piece.spell]
      rw [hsplit, pieces_bracket (tag_closing h rest)]
      rfl
  | literal text =>
      rw [Piece.spell, pieces_literal h, String.ofList_toList]
      rfl
  | braces meaning =>
      cases meaning with
      | string s =>
          have hsplit : (Piece.braces (.string s)).spell ++ rest =
              '\x7b' :: ((Json.quote s).toList ++ '\x7d' :: rest) := by
            rw [Piece.spell, to_list_expression]
            simp
          rw [hsplit, hbraces (closed_quote s) (Meaning.of_source_quote s)]
          rfl
      | code source =>
          have hsplit : (Piece.braces (.code source)).spell ++ rest =
              '\x7b' :: (source.toList ++ '\x7d' :: rest) := by
            simp [Piece.spell]
          rw [hsplit, hbraces h.1 h.2]
          rfl

/-- Clear pieces are read back as they are, but for the literal texts, which come together. -/
theorem pieces_spell_all {ps : List Piece} (h : ∀ p ∈ ps, p.IsClear) :
    pieces? (spellAll ps) = some (joined ps) := by
  induction ps with
  | nil =>
      rw [spell_all_nil, pieces?]
      rfl
  | cons p ps ih =>
      rw [List.forall_mem_cons] at h
      rw [spell_all_cons, pieces_spell h.1, ih h.2]
      rfl

theorem spell_cons_literal (s : String) (ps : List Piece) :
    spellAll (consLiteral s ps) = s.toList ++ spellAll ps := by
  unfold consLiteral
  split
  · simp [Piece.spell, String.toList_append]
  · split
    · rename_i hempty
      have hs : s = "" := by simpa using hempty
      simp [hs]
    · rfl

/-- Literal texts are written as before when they are put together. -/
theorem spell_joined (ps : List Piece) : spellAll (joined ps) = spellAll ps := by
  induction ps with
  | nil => rfl
  | cons p ps ih =>
      have hcons : joined (p :: ps) = p.onto (joined ps) := rfl
      rw [hcons, spell_all_cons, ← ih]
      cases p with
      | literal s => exact spell_cons_literal s (joined ps)
      | opening _ _ | single _ _ | closing _ | braces _ => rfl

/-- Whether no literal text is empty or in front of another. -/
def AreJoined : List Piece → Prop
  | [] => True
  | .literal s :: ps => s ≠ "" ∧ (∀ t, ps.head? ≠ some (.literal t)) ∧ AreJoined ps
  | _ :: ps => AreJoined ps

theorem joined_cons_literal {s : String} {ps : List Piece} (h : AreJoined ps) :
    AreJoined (consLiteral s ps) := by
  match ps with
  | .literal t :: ps =>
      obtain ⟨ht, hhead, hps⟩ := h
      exact ⟨by simp [ht], hhead, hps⟩
  | [] | .opening .. :: _ | .single .. :: _ | .closing _ :: _ | .braces _ :: _ =>
      rw [consLiteral]
      · split
        · exact h
        · rename_i hsome
          exact ⟨by simpa using hsome, by simp, h⟩
      · simp

theorem are_joined_joined (ps : List Piece) : AreJoined (joined ps) := by
  induction ps with
  | nil => trivial
  | cons p ps ih =>
      cases p with
      | literal s => exact joined_cons_literal ih
      | opening _ _ | single _ _ | closing _ | braces _ => exact ih

/-- Pieces that are put together stay as they are. -/
theorem joined_of_are_joined {ps : List Piece} (h : AreJoined ps) : joined ps = ps := by
  induction ps with
  | nil => rfl
  | cons p ps ih =>
      have hcons : joined (p :: ps) = p.onto (joined ps) := rfl
      cases p with
      | literal s =>
          obtain ⟨hs, hhead, hps⟩ := h
          rw [hcons, ih hps, Piece.onto, consLiteral.eq_def]
          split
          · exact absurd rfl (hhead _)
          · exact if_neg (by simpa using hs)
      | opening _ _ | single _ _ | closing _ | braces _ =>
          rw [hcons, ih h]
          rfl

/-- Putting pieces together makes no other pieces than literal texts. -/
theorem mem_joined {p : Piece} {ps : List Piece} (h : p ∈ joined ps) :
    (∃ s, p = .literal s) ∨ p ∈ ps := by
  induction ps with
  | nil => exact absurd h List.not_mem_nil
  | cons q ps ih =>
      have hcons : joined (q :: ps) = q.onto (joined ps) := rfl
      rw [hcons] at h
      cases q with
      | literal s =>
          rw [Piece.onto, consLiteral.eq_def] at h
          split at h
          · rename_i t rest hrest
            rw [List.mem_cons] at h
            rcases h with h | h
            · exact .inl ⟨_, h⟩
            · exact (ih (hrest ▸ List.mem_cons_of_mem _ h)).imp_right (List.mem_cons_of_mem _)
          · split at h
            · exact (ih h).imp_right (List.mem_cons_of_mem _)
            · rw [List.mem_cons] at h
              rcases h with h | h
              · exact .inl ⟨_, h⟩
              · exact (ih h).imp_right (List.mem_cons_of_mem _)
      | opening _ _ | single _ _ | closing _ | braces _ =>
          rw [Piece.onto, List.mem_cons] at h
          · rcases h with rfl | h
            · exact .inr List.mem_cons_self
            · exact (ih h).imp_right (List.mem_cons_of_mem _)
          · simp

end Pieces

end SvgPress.Jsx
