import SvgPress.Proofs.Jsx.WrittenNames

/-!
Scripts as tokens: words, strings, marks and elements, without regard to lines. An element is read
tag by tag, with the open ones on a stack, up to the tag that closes the first; the script goes on
behind it. Only so much of the language is read as modules need: there are no comments, and in an
element no other expressions than strings and object literals of strings. What is read at the front
of a text is read there whatever follows.
-/

namespace SvgPress.Jsx

open Text (stripFront? splitChars)

/-! ### Tokens -/

inductive Token where
  | word (text : String)
  | string
  | mark (c : Char)
  /-- The head of a function without parameters, up to its arrow. -/
  | arrow
  | element
  deriving DecidableEq, Repr

/-- What follows the head of a function without parameters, from its second parenthesis on. No line
may end in front of the arrow. -/
def arrow? (cs : List Char) : Option (List Char) := do
  let behind ← stripFront? [')'] (cs.dropWhile Markup.isSpace)
  stripFront? ['=', '>'] (behind.dropWhile (· == ' '))

/-- A token at the front of a text, and what follows it. Elements are left to another reader. -/
def token? (element : List Char → Option (List Char)) : List Char → Option (Token × List Char)
  | [] => none
  | c :: rest =>
    if isStart c then
      some (.word (String.ofList (c :: rest.takeWhile isPart)), rest.dropWhile isPart)
    else if c = '"' then (Json.stringBody [] rest).toOption.map fun p => (.string, p.2)
    else if c = '<' then (element (c :: rest)).map fun after => (.element, after)
    else if c = '(' then
      match arrow? rest with
      | some after => some (.arrow, after)
      | none => some (.mark c, rest)
    else if "=:,;)\x7b\x7d".toList.contains c then some (.mark c, rest)
    else none

/-- The tokens of a text, with white space between them. -/
def tokens? (element : List Char → Option (List Char)) (cs : List Char) : Option (List Token) :=
  let text := cs.dropWhile Markup.isSpace
  match token? element text with
  | none => if text.isEmpty then some [] else none
  | some (token, after) =>
    if after.length < text.length then (tokens? element after).map (token :: ·) else none
termination_by cs.length
decreasing_by
  rename_i hshorter
  exact Nat.lt_of_lt_of_le hshorter (List.dropWhile_sublist Markup.isSpace).length_le

/-! ### Elements -/

/-- Whether a token can be a key of an object literal. -/
def Token.isKey : Token → Bool
  | .word _ => true
  | .string => true
  | _ => false

/-- Whether tokens are the members of an object literal, up to its closing brace: keys with
strings. -/
def areMembers : List Token → Bool
  | [.mark '\x7d'] => true
  | [key, .mark ':', .string, .mark '\x7d'] => key.isKey
  | key :: .mark ':' :: .string :: .mark ',' :: rest => key.isKey && areMembers rest
  | _ => false

/-- Whether a text is an object literal of strings. -/
def isObject (source : List Char) : Bool :=
  match tokens? (fun _ => none) source with
  | some (.mark '\x7b' :: rest) => areMembers rest
  | _ => false

/-- Whether an element can have a name: it is like that of an attribute, with a namespace or
without. -/
def isElementName (name : String) : Bool :=
  let parts := splitChars (· == ':') name.toList
  parts.length ≤ 2 && parts.all fun part => decide (IsAttributeName part)

/-- Whether the value of an attribute can stand in a tag: code has to be an object literal. -/
def Meaning.isWritable : Meaning → Bool
  | .string _ => true
  | .code source => isObject source.toList

/-- Whether attributes can stand in a tag. -/
def areWritable (attributes : Meanings) : Bool :=
  attributes.all fun (name, meaning) =>
    decide (IsAttributeName name.toList) && meaning.isWritable

/-- A piece at the front of a text, and what follows it. Literal text is taken character by
character. -/
def piece? : List Char → Option (Piece × List Char)
  | [] => none
  | c :: rest =>
    if c = '<' then tag? rest
    else if c = '\x7b' then
      (braced? (.code 0) rest).map fun (source, after) => (.braces (.ofSource source), after)
    else if isLiteral c then some (.literal (String.ofList [c]), rest)
    else none

/-- The elements that are open behind a piece, where those before it are given, innermost first. -/
def Piece.enter : Piece → List String → Option (List String)
  | .opening name attributes, names =>
    if isElementName name && areWritable attributes then some (name :: names) else none
  | .single name attributes, names =>
    if isElementName name && areWritable attributes then some names else none
  | .closing name, outer :: names => if name = outer then some names else none
  | .closing _, [] => none
  | .literal _, names => some names
  | .braces (.string _), names => some names
  | .braces (.code _), _ => none

/-- What follows an element, or the elements that are open already. -/
def element? (names : List String) (cs : List Char) : Option (List Char) :=
  match piece? cs with
  | none => none
  | some (p, rest) =>
    match p.enter names with
    | none => none
    | some [] => some rest
    | some (name :: names) =>
        if rest.length < cs.length then element? (name :: names) rest else none
termination_by cs.length

/-- Whether a text is one element and nothing else. -/
def IsElement (text : String) : Prop :=
  tokens? (element? []) text.toList = some [.element]

instance (text : String) : Decidable (IsElement text) :=
  inferInstanceAs (Decidable (_ = _))

/-! ### Texts that go on

What is read at the front of a text is read there whatever follows. -/

section Behind

variable {cs rest : List Char}

theorem span_append {p : Char → Bool} {c : Char} (h : cs.dropWhile p = c :: rest)
    (more : List Char) :
    (cs ++ more).takeWhile p = cs.takeWhile p ∧ (cs ++ more).dropWhile p = c :: (rest ++ more) := by
  have hc : p c = false := by
    have hhead := List.head?_dropWhile_not p cs
    rw [h] at hhead
    exact hhead
  have hsplit : cs ++ more = cs.takeWhile p ++ c :: (rest ++ more) := by
    rw [← List.cons_append, ← List.append_assoc, ← h, List.takeWhile_append_dropWhile]
  rw [hsplit]
  refine Markup.span_exact p (cs.takeWhile p) _ (fun d hd => List.mem_takeWhile_imp hd) ?_
  rintro d ⟨⟩
  exact hc

theorem braced_append {s : Inside} {source : List Char} (h : braced? s cs = some (source, rest))
    (more : List Char) : braced? s (cs ++ more) = some (source, rest ++ more) := by
  obtain ⟨hcs, hsource⟩ := braced_iff.mp h
  exact braced_iff.mpr ⟨by rw [hcs, List.append_assoc, List.cons_append], hsource⟩

theorem value_append {meaning : Meaning} (h : value? cs = some (meaning, rest)) (more : List Char) :
    value? (cs ++ more) = some (meaning, rest ++ more) := by
  unfold value? at h
  split at h
  · rename_i body
    split at h
    · cases h
    · rename_i c after hbody
      obtain ⟨htake, hdrop⟩ := span_append hbody more
      rw [List.cons_append, value?, hdrop, htake]
      dsimp only at h ⊢
      split at h
      · cases h
      · rename_i hplain
        cases h
        rw [if_neg hplain]
  · rename_i body
    obtain ⟨⟨source, after⟩, hfound, heq⟩ := Option.map_eq_some_iff.mp h
    cases heq
    rw [List.cons_append, value?, braced_append hfound more]
    rfl
  · cases h

theorem attribute_append {a : String × Meaning} (h : attribute? cs = some (a, rest))
    (more : List Char) : attribute? (cs ++ more) = some (a, rest ++ more) := by
  unfold attribute? at h
  split at h
  · rename_i written hwritten
    obtain ⟨⟨meaning, after⟩, hfound, heq⟩ := Option.map_eq_some_iff.mp h
    cases heq
    obtain ⟨htake, hdrop⟩ := span_append hwritten more
    simp only [attribute?, hdrop, htake, value_append hfound more, Option.map_some]
  · cases h

/-- An attribute does not begin as the end of a tag does. -/
theorem head_of_attribute {a : String × Meaning} (h : attribute? cs = some (a, rest)) :
    ∀ c ∈ cs.head?, c ≠ '>' ∧ c ≠ '/' := by
  intro c hc
  obtain ⟨more, rfl⟩ := List.head?_eq_some_iff.mp hc
  constructor <;>
    · rintro rfl
      cases h

theorem attributes_append {attributes : Meanings} {alone : Bool}
    (h : attributes? cs = some (attributes, alone, rest)) (more : List Char) :
    attributes? (cs ++ more) = some (attributes, alone, rest ++ more) := by
  fun_induction attributes? cs generalizing attributes alone with
  | case1 cs after hcs =>
      cases h
      exact attributes_close (span_append hcs more).2
  | case2 cs after hcs =>
      cases h
      exact attributes_end (span_append hcs more).2
  | case3 cs hopen halone hnone => cases h
  | case4 cs hopen halone a after hmore ih =>
      obtain ⟨⟨others, alone', last⟩, hfound, heq⟩ := Option.map_eq_some_iff.mp h
      cases heq
      have hhead := head_of_attribute hmore
      cases hcs : cs.dropWhile Markup.isSpace with
      | nil =>
          rw [hcs] at hmore
          cases hmore
      | cons c behind =>
          rw [hcs] at hmore hhead
          rw [attributes_more (span_append hcs more).2 (fun d hd => hhead d hd)
            (attribute_append hmore more), ih hfound]
          rfl

theorem tag_append {piece : Piece} (h : tag? cs = some (piece, rest)) (more : List Char) :
    tag? (cs ++ more) = some (piece, rest ++ more) := by
  unfold tag? at h
  split at h
  · rename_i cs
    split at h
    · rename_i after hafter
      cases h
      obtain ⟨htake, hdrop⟩ := span_append hafter more
      simp only [List.cons_append, tag?, hdrop, htake]
    · cases h
  · rename_i hopen
    obtain ⟨⟨attributes, alone, after⟩, hfound, heq⟩ := Option.map_eq_some_iff.mp h
    cases heq
    cases hcs : cs.dropWhile isNamePart with
    | nil =>
        rw [hcs] at hfound
        exact absurd (length_of_attributes hfound) (Nat.not_lt_zero _)
    | cons c behind =>
        obtain ⟨htake, hdrop⟩ := span_append hcs more
        rw [hcs] at hfound
        unfold tag?
        split
        · rename_i slashed heq
          cases cs with
          | nil => cases hcs
          | cons d cs =>
              cases heq
              exact absurd rfl (hopen cs)
        · rw [hdrop, htake, ← List.cons_append, attributes_append hfound more]
          rfl

theorem piece_append {piece : Piece} (h : piece? cs = some (piece, rest)) (more : List Char) :
    piece? (cs ++ more) = some (piece, rest ++ more) := by
  cases cs with
  | nil => cases h
  | cons c cs =>
      rw [List.cons_append]
      rw [piece?] at h ⊢
      split_ifs at h ⊢
      · exact tag_append h more
      · obtain ⟨⟨source, after⟩, hfound, heq⟩ := Option.map_eq_some_iff.mp h
        cases heq
        rw [braced_append hfound more]
        rfl
      · cases h
        rfl

theorem element_append {names : List String} (h : element? names cs = some rest)
    (more : List Char) :
    element? names (cs ++ more) = some (rest ++ more) := by
  fun_induction element? names cs with
  | case1 names cs hnone => cases h
  | case2 names cs p behind hpiece hrefused => cases h
  | case3 names cs p behind hpiece hclosed =>
      cases h
      rw [element?, piece_append hpiece more]
      dsimp only
      rw [hclosed]
  | case4 names cs p behind hpiece name open_ hopen hshorter ih =>
      rw [element?, piece_append hpiece more]
      dsimp only
      rw [hopen]
      dsimp only
      rw [if_pos (by simpa using hshorter), ih h]
  | case5 names cs p behind hpiece name open_ hopen hstuck => cases h

end Behind

/-! ### Texts as tokens -/

section Lexing

variable {element : List Char → Option (List Char)} {cs after more : List Char} {c : Char}
  {token : Token}

theorem tokens_of_drop {ds : List Char}
    (h : cs.dropWhile Markup.isSpace = ds.dropWhile Markup.isSpace) :
    tokens? element cs = tokens? element ds := by
  rw [tokens?, h]
  conv_rhs => rw [tokens?]

theorem tokens_space (hc : Markup.isSpace c) (cs : List Char) :
    tokens? element (c :: cs) = tokens? element cs :=
  tokens_of_drop (List.dropWhile_cons_of_pos hc)

/-- A token at the front of a text that does not begin with white space. -/
theorem tokens_cons (hc : Markup.isSpace c = false)
    (h : token? element (c :: cs) = some (token, after)) (hlength : after.length ≤ cs.length) :
    tokens? element (c :: cs) = (tokens? element after).map (token :: ·) := by
  have hdrop : (c :: cs).dropWhile Markup.isSpace = c :: cs :=
    List.dropWhile_cons_of_neg (by rw [hc]; decide)
  rw [tokens?, hdrop, h]
  dsimp only
  rw [if_pos (by rw [List.length_cons]; omega)]

theorem space_not_part {c : Char} (h : isPart c) : Markup.isSpace c = false := by
  have hspaces : ∀ d ∈ [' ', '\t', '\r', '\n'], isPart d = false := by decide +kernel
  rw [Bool.eq_false_iff]
  intro hspace
  have hmem : c ∈ [' ', '\t', '\r', '\n'] := by simpa [Markup.isSpace, or_assoc] using hspace
  rw [hspaces c hmem] at h
  cases h

/-- A word goes on as far as characters of identifiers do. -/
theorem tokens_word {name : String} (hname : IsIdentifier name.toList)
    (hmore : ∀ c ∈ more.head?, isPart c = false) :
    tokens? element (name.toList ++ more) = (tokens? element more).map (.word name :: ·) := by
  obtain ⟨first, rest, hsplit, hfirst, hrest⟩ := hname
  obtain ⟨htake, hdrop⟩ := Markup.span_exact isPart rest more hrest hmore
  have htoken : token? element (first :: (rest ++ more)) = some (.word name, more) := by
    rw [token?, if_pos hfirst, htake, hdrop, ← hsplit, String.ofList_toList]
  rw [hsplit, List.cons_append]
  exact tokens_cons (space_not_part (part_of_start hfirst)) htoken (by simp)

theorem tokens_mark (hc : c ∈ "=:,;)\x7b\x7d".toList) (cs : List Char) :
    tokens? element (c :: cs) = (tokens? element cs).map (.mark c :: ·) := by
  have hother : ∀ d ∈ "=:,;)\x7b\x7d".toList, Markup.isSpace d = false ∧ isStart d = false ∧
      d ∉ ['"', '<', '('] := by decide +kernel
  obtain ⟨hspace, hstart, hmarks⟩ := hother c hc
  have hne : c ≠ '"' ∧ c ≠ '<' ∧ c ≠ '(' := by simpa using hmarks
  have htoken : token? element (c :: cs) = some (.mark c, cs) := by
    rw [token?, if_neg (by rw [hstart]; decide), if_neg hne.1, if_neg hne.2.1, if_neg hne.2.2,
      if_pos (List.contains_iff_mem.mpr hc)]
  exact tokens_cons hspace htoken le_rfl

theorem tokens_quote (s : String) (more : List Char) :
    tokens? element ((Json.quote s).toList ++ more) =
      (tokens? element more).map (.string :: ·) := by
  have hstart : isStart '"' = false := by decide +kernel
  have hsplit : (Json.quote s).toList ++ more =
      '"' :: (s.toList.flatMap Json.escapeChar ++ '"' :: more) := by
    simp [Json.quote, Json.quoteChars]
  have htoken : token? element ('"' :: (s.toList.flatMap Json.escapeChar ++ '"' :: more)) =
      some (.string, more) := by
    rw [token?, if_neg (by rw [hstart]; decide), if_pos rfl, Json.string_body_quote]
    rfl
  rw [hsplit]
  refine tokens_cons (by decide) htoken ?_
  simp only [List.length_append, List.length_cons]
  omega

theorem token_parenthesis (cs : List Char) : token? element ('(' :: cs) =
    match arrow? cs with
    | some after => some (.arrow, after)
    | none => some (.mark '(', cs) := by
  have hstart : isStart '(' = false := by decide +kernel
  rw [token?, if_neg (by rw [hstart]; decide), if_neg (by decide), if_neg (by decide), if_pos rfl]

theorem tokens_arrow (cs : List Char) : tokens? element ('(' :: ')' :: ' ' :: '=' :: '>' :: cs) =
    (tokens? element cs).map (.arrow :: ·) := by
  refine tokens_cons (by decide) (token_parenthesis _) ?_
  simp only [List.length_cons]
  omega

theorem tokens_parenthesis (h : arrow? cs = none) :
    tokens? element ('(' :: cs) = (tokens? element cs).map (.mark '(' :: ·) := by
  have htoken : token? element ('(' :: cs) = _ := token_parenthesis cs
  rw [h] at htoken
  exact tokens_cons (by decide) htoken le_rfl

end Lexing

/-! ### Elements as tokens -/

section Elements

variable {cs more : List Char}

/-- No token but an element comes from the reader of elements. -/
theorem element_of_token {element : List Char → Option (List Char)} {after : List Char}
    (h : token? element cs = some (.element, after)) :
    ∃ rest, cs = '<' :: rest ∧ element cs = some after := by
  cases cs with
  | nil => cases h
  | cons c rest =>
      rw [token?] at h
      split_ifs at h with hstart hquote hopen hparenthesis hmark
      · cases h
      · obtain ⟨p, -, heq⟩ := Option.map_eq_some_iff.mp h
        cases heq
      · obtain ⟨after', hafter, heq⟩ := Option.map_eq_some_iff.mp h
        cases heq
        exact ⟨rest, by rw [hopen], hafter⟩
      · split at h <;> cases h
      · cases h

theorem spaces_of_tokens {element : List Char → Option (List Char)}
    (h : tokens? element cs = some []) : cs.dropWhile Markup.isSpace = [] := by
  rw [tokens?] at h
  split at h
  · split_ifs at h with hempty
    exact List.isEmpty_iff.mp hempty
  · split_ifs at h
    obtain ⟨tokens, -, heq⟩ := Option.map_eq_some_iff.mp h
    cases heq

/-- A text that is one element begins with a tag, and nothing but white space is around the
element. -/
theorem IsElement.begins {text : String} (h : IsElement text) : ∃ rest after,
    text.toList.dropWhile Markup.isSpace = '<' :: rest ∧ element? [] ('<' :: rest) = some after ∧
      after.length ≤ rest.length ∧ after.dropWhile Markup.isSpace = [] := by
  rw [IsElement, tokens?] at h
  split at h
  · split_ifs at h
    cases h
  · rename_i token after htoken
    split_ifs at h with hshorter
    obtain ⟨tokens, htokens, heq⟩ := Option.map_eq_some_iff.mp h
    cases heq
    obtain ⟨rest, htext, helement⟩ := element_of_token htoken
    rw [htext] at helement hshorter
    exact ⟨rest, after, htext, helement, Nat.le_of_lt_succ hshorter, spaces_of_tokens htokens⟩

/-- A text of white space and an element that is read to its end. -/
theorem IsElement.of_read {text : String} {front rest : List Char}
    (htext : text.toList = front ++ '<' :: rest)
    (hfront : ∀ c ∈ front, Markup.isSpace c) (h : element? [] ('<' :: rest) = some []) :
    IsElement text := by
  have hstart : isStart '<' = false := by decide +kernel
  have htoken : token? (element? []) ('<' :: rest) = some (.element, []) := by
    rw [token?, if_neg (by rw [hstart]; decide), if_neg (by decide), if_pos rfl, h]
    rfl
  have hdrop : text.toList.dropWhile Markup.isSpace = ('<' :: rest).dropWhile Markup.isSpace := by
    rw [htext, List.dropWhile_append_of_pos hfront]
  rw [IsElement, tokens_of_drop hdrop, tokens_cons (by decide) htoken (Nat.zero_le _), tokens?]
  rfl

theorem IsElement.no_arrow {text : String} (h : IsElement text) (more : List Char) :
    arrow? (text.toList ++ more) = none := by
  obtain ⟨rest, after, htext, -⟩ := h.begins
  rw [arrow?, (span_append htext more).2]
  rfl

/-- An element is read whatever follows it. -/
theorem IsElement.tokens_append {text : String} (h : IsElement text) (more : List Char) :
    tokens? (element? []) (text.toList ++ more) =
      (tokens? (element? []) more).map (.element :: ·) := by
  obtain ⟨rest, after, htext, helement, hlength, hspaces⟩ := h.begins
  have hstart : isStart '<' = false := by decide +kernel
  have htoken : token? (element? []) ('<' :: (rest ++ more)) = some (.element, after ++ more) := by
    rw [token?, if_neg (by rw [hstart]; decide), if_neg (by decide), if_pos rfl, ← List.cons_append,
      element_append helement more]
    rfl
  have hfront : (text.toList ++ more).dropWhile Markup.isSpace =
      ('<' :: (rest ++ more)).dropWhile Markup.isSpace :=
    (span_append htext more).2
  have hback : (after ++ more).dropWhile Markup.isSpace = more.dropWhile Markup.isSpace :=
    List.dropWhile_append_of_pos (List.dropWhile_eq_nil_iff.mp hspaces)
  rw [tokens_of_drop hfront, tokens_cons (by decide) htoken, tokens_of_drop hback]
  simpa using hlength

end Elements

end SvgPress.Jsx
