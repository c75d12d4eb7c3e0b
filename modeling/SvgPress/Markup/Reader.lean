import SvgPress.Markup.Event
import SvgPress.Markup.Entity

/-!
Reading a markup text into events. Each step takes at least one character, and every cut is stated
as an equation on the text, so that reading ends and nothing of the text is lost. Positions count
bytes.
-/

namespace SvgPress.Markup

open Text (byteLength cutAt? dropBack stripFront?)

/-- White space between the parts of a tag. -/
def isSpace (c : Char) : Bool :=
  c == ' ' || c == '\t' || c == '\r' || c == '\n'

theorem stripFront?_eq {mark cs after : List Char} (h : stripFront? mark cs = some after) :
    cs = mark ++ after := by
  induction mark generalizing cs with
  | nil => simpa [stripFront?] using h
  | cons m ms ih =>
    cases cs with
    | nil => simp [stripFront?] at h
    | cons c cs =>
      unfold stripFront? at h
      split at h
      · rename_i hm
        simp [hm, ih h]
      · simp at h

theorem cutAt?_eq {mark cs before after : List Char} (h : cutAt? mark cs = some (before, after)) :
    cs = before ++ mark ++ after := by
  induction cs generalizing before with
  | nil =>
    simp only [cutAt?] at h
    split at h <;> simp_all
  | cons c rest ih =>
    unfold cutAt? at h
    split at h
    · rename_i hs
      simp only [Option.some.injEq, Prod.mk.injEq] at h
      obtain ⟨rfl, rfl⟩ := h
      simpa using stripFront?_eq hs
    · obtain ⟨⟨b, a⟩, hb, hp⟩ := Option.map_eq_some_iff.1 h
      simp only [Prod.mk.injEq] at hp
      obtain ⟨rfl, rfl⟩ := hp
      simp [ih hb]

theorem length_after_cutAt? {mark cs before after : List Char}
    (h : cutAt? mark cs = some (before, after)) : after.length ≤ cs.length := by
  have := congrArg List.length (cutAt?_eq h)
  simp only [List.length_append] at this
  omega

/-- The content of a tag up to the first `>` outside quotes, and the text after it. `quote` is the
quotation mark that is open. -/
def tagContent? (quote : Option Char) : List Char → Option (List Char × List Char)
  | [] => none
  | c :: rest =>
    match quote with
    | some q => (tagContent? (if c = q then none else some q) rest).map (addFront c)
    | none =>
      if c = '>' then some ([], rest)
      else
        (tagContent? (if c = '"' ∨ c = '\'' then some c else none) rest).map (addFront c)
where
  addFront (c : Char) : List Char × List Char → List Char × List Char
    | (content, after) => (c :: content, after)

theorem tagContent?_eq {quote : Option Char} {cs content after : List Char}
    (h : tagContent? quote cs = some (content, after)) : cs = content ++ '>' :: after := by
  induction cs generalizing quote content with
  | nil => simp [tagContent?] at h
  | cons c rest ih =>
    unfold tagContent? at h
    split at h
    · obtain ⟨⟨b, a⟩, hb, hp⟩ := Option.map_eq_some_iff.1 h
      simp only [tagContent?.addFront, Prod.mk.injEq] at hp
      obtain ⟨rfl, rfl⟩ := hp
      simp [ih hb]
    · split at h
      · simp_all
      · obtain ⟨⟨b, a⟩, hb, hp⟩ := Option.map_eq_some_iff.1 h
        simp only [tagContent?.addFront, Prod.mk.injEq] at hp
        obtain ⟨rfl, rfl⟩ := hp
        simp [ih hb]

/-- The content of a doctype up to the `>` that closes it: every `<` inside opens a bracket that
another `>` closes. -/
def doctypeContent? (depth : Nat) : List Char → Option (List Char × List Char)
  | [] => none
  | c :: rest =>
    if c = '>' ∧ depth = 0 then some ([], rest)
    else
      let depth := if c = '<' then depth + 1 else if c = '>' then depth - 1 else depth
      (doctypeContent? depth rest).map fun (content, after) => (c :: content, after)

theorem doctypeContent?_eq {depth : Nat} {cs content after : List Char}
    (h : doctypeContent? depth cs = some (content, after)) : cs = content ++ '>' :: after := by
  induction cs generalizing depth content with
  | nil => simp [doctypeContent?] at h
  | cons c rest ih =>
    unfold doctypeContent? at h
    split at h
    · simp_all
    · obtain ⟨⟨b, a⟩, hb, hp⟩ := Option.map_eq_some_iff.1 h
      simp only [Prod.mk.injEq] at hp
      obtain ⟨rfl, rfl⟩ := hp
      simp [ih hb]

/-- The attributes in the content of a tag, from byte position `position` on. `seen` holds the keys
so far with the positions where they start. The first character of a key is taken as it is; the key
then runs to an equals sign or white space. A repeated key is reported before its value is
looked at. -/
def attributesFrom (position : Nat) (seen : List (List Char × Nat)) (cs : List Char) :
    Except AttributeFault Attributes :=
  let size := position + byteLength cs
  match _hk : cs.dropWhile isSpace with
  | [] => .ok []
  | first :: more =>
    let start := size - byteLength (first :: more)
    let key := first :: more.takeWhile (fun c => c != '=' && !isSpace c)
    match _he : (more.dropWhile (fun c => c != '=' && !isSpace c)).dropWhile isSpace with
    | [] => .error (.missingEquals size)
    | e :: value =>
      if e != '=' then .error (.missingEquals (size - byteLength (e :: value)))
      else
        match seen.lookup key with
        | some previous => .error (.duplicate start previous)
        | none =>
          match _hv : value.dropWhile isSpace with
          | [] => .error (.missingValue size)
          | quote :: body =>
            if quote != '"' && quote != '\'' then
              .error (.unquotedValue (size - byteLength (quote :: body)))
            else
              match _hb : body.dropWhile (· != quote) with
              | [] => .error (.unclosedValue size quote)
              | _ :: rest => do
                let others ← attributesFrom (size - byteLength rest) ((key, start) :: seen) rest
                let value := Entity.decodeValue (body.takeWhile (· != quote))
                .ok (⟨String.ofList key, value⟩ :: others)
termination_by cs.length
decreasing_by
  have h₁ := (List.dropWhile_sublist isSpace (l := cs)).length_le
  have h₂ := (List.dropWhile_sublist (fun c => c != '=' && !isSpace c) (l := more)).length_le
  have h₃ := (List.dropWhile_sublist isSpace
    (l := more.dropWhile (fun c => c != '=' && !isSpace c))).length_le
  have h₄ := (List.dropWhile_sublist isSpace (l := value)).length_le
  have h₅ := (List.dropWhile_sublist (· != quote) (l := body)).length_le
  simp only [_hk, _he, _hv, _hb, List.length_cons] at h₁ h₃ h₄ h₅
  omega

/-- One event with the text after it, which is no longer than the text before it. `size` counts the
bytes taken, and `opened` holds the names of the elements that are open then, innermost first. -/
structure Step (cs : List Char) where
  event : Event
  opened : List String
  size : Nat
  rest : List Char
  shorter : rest.length ≤ cs.length

/-- A fault, with its distance in bytes from the `<`. -/
abbrev StepFault := Nat × MarkupFault

/-- A comment, from its exclamation mark on. The mark `-->` that ends it may overlap the opening
`<!--` nowhere. -/
def comment (opened : List String) (cs : List Char) : Except StepFault (Step cs) :=
  match h : cutAt? "-->".toList (cs.drop 3) with
  | none => .error (0, .commentNotClosed)
  | some (content, rest) =>
    if cs.take 3 = "!--".toList then
      .ok ⟨.leaf .comment (String.ofList content), opened, 7 + byteLength content, rest,
        Nat.le_trans (length_after_cutAt? h) (List.drop_sublist 3 cs).length_le⟩
    else .error (0, .commentNotClosed)

/-- A section of literal character data, from its exclamation mark on. -/
def cdata (opened : List String) (cs : List Char) : Except StepFault (Step cs) :=
  match h : cutAt? "]]>".toList cs with
  | none => .error (0, .cdataNotClosed)
  | some (content, rest) =>
    if content.take 8 = "![CDATA[".toList then
      .ok ⟨.leaf .cdata (String.ofList (content.drop 8)), opened, 4 + byteLength content, rest,
        length_after_cutAt? h⟩
    else .error (0, .cdataNotClosed)

/-- A doctype, from its exclamation mark on. -/
def doctype (opened : List String) (cs : List Char) : Except StepFault (Step cs) :=
  match h : doctypeContent? 0 cs with
  | none => .error (0, .doctypeNotClosed)
  | some (content, rest) =>
    if (content.take 8).map Char.toUpper = "!DOCTYPE".toList then
      match (content.drop 8).dropWhile isSpace with
      | [] => .error (1 + byteLength content, .doctypeWithoutName)
      | name =>
        .ok ⟨.leaf .doctype (String.ofList name), opened, 2 + byteLength content, rest,
          by
            have := congrArg List.length (doctypeContent?_eq h)
            simp only [List.length_append, List.length_cons] at this
            omega⟩
    else .error (0, .doctypeNotClosed)

/-- Whether an instruction is a declaration: its name is exactly `xml`. -/
def declares (content : List Char) : Bool :=
  match stripFront? "xml".toList content with
  | some [] => true
  | some (c :: _) => isSpace c
  | none => false

/-- An instruction or a declaration, from its first question mark on. -/
def instruction (opened : List String) (cs : List Char) : Except StepFault (Step cs) :=
  match h : cutAt? "?>".toList cs with
  | none => .error (0, .instructionNotClosed)
  | some ([], _) => .error (0, .instructionNotClosed)
  | some (mark :: content, rest) =>
    .ok ⟨.leaf (if declares content then .declaration else .instruction) (String.ofList content),
      opened, 3 + byteLength (mark :: content), rest, length_after_cutAt? h⟩

/-- The name in an end tag, of what follows the slash. White space after the name is dropped,
unless there is no name. -/
def closingName (body : List Char) : List Char :=
  if body.all isSpace then body else dropBack isSpace body

/-- An end tag, from its slash on. It must close the innermost open element. -/
def endTag (opened : List String) (cs : List Char) : Except StepFault (Step cs) :=
  match h : tagContent? none cs with
  | none => .error (0, .tagNotClosed)
  | some (content, rest) =>
    let name := String.ofList (closingName (content.drop 1))
    match opened with
    | [] => .error (0, .endWithoutStart name)
    | expected :: outer =>
      if expected = name then
        .ok ⟨.close name, outer, 2 + byteLength content, rest, by
          have := congrArg List.length (tagContent?_eq h)
          simp only [List.length_append, List.length_cons] at this
          omega⟩
      else .error (0, .endMismatch expected name)

/-- The content of a tag without the slash that closes an empty element. -/
def tagBody (content : List Char) : List Char :=
  if content.getLast? = some '/' then content.dropLast else content

/-- The name at the front of the body of a tag. It runs to the first white space, whatever it
holds. -/
def tagName (body : List Char) : List Char :=
  body.takeWhile (!isSpace ·)

/-- The attributes in the body of a tag. -/
def tagAttributes (body : List Char) : Except AttributeFault Attributes :=
  attributesFrom (byteLength (tagName body)) [] (body.dropWhile (!isSpace ·))

/-- A start tag or an empty element. -/
def startTag (opened : List String) (cs : List Char) : Except StepFault (Step cs) :=
  match h : tagContent? none cs with
  | none => .error (0, .tagNotClosed)
  | some (content, rest) =>
    let body := tagBody content
    let name := String.ofList (tagName body)
    let shorter : rest.length ≤ cs.length := by
      have := congrArg List.length (tagContent?_eq h)
      simp only [List.length_append, List.length_cons] at this
      omega
    let size := 2 + byteLength content
    if content.getLast? = some '/' then
      .ok ⟨.empty name (tagAttributes body), opened, size, rest, shorter⟩
    else .ok ⟨.start name (tagAttributes body), name :: opened, size, rest, shorter⟩

/-- What follows a `<`, told apart by its first characters. -/
def markup (opened : List String) (cs : List Char) : Except StepFault (Step cs) :=
  match cs with
  | [] => .error (0, .tagNotClosed)
  | '!' :: '[' :: rest => cdata opened ('!' :: '[' :: rest)
  | '!' :: '-' :: rest => comment opened ('!' :: '-' :: rest)
  | '!' :: 'D' :: rest => doctype opened ('!' :: 'D' :: rest)
  | '!' :: 'd' :: rest => doctype opened ('!' :: 'd' :: rest)
  | '!' :: _ => .error (0, .unknownMarkup)
  | '?' :: rest => instruction opened ('?' :: rest)
  | '/' :: rest => endTag opened ('/' :: rest)
  | c :: rest => startTag opened (c :: rest)

/-- Read the events of a text that begins at a byte position inside the given open elements. -/
def readFrom (position : Nat) (opened : List String) (cs : List Char) : Reading :=
  match cs with
  | [] => .done
  | c :: rest =>
    if c = '<' then
      match markup opened rest with
      | .error (distance, fault) => .stopped (position + distance) fault
      | .ok step => (readFrom (position + step.size) step.opened step.rest).cons step.event
    else if c = '&' then
      match h : Entity.takeName? ['&', '<'] rest with
      | none => .stopped position .referenceNotClosed
      | some (name, after) =>
        (readFrom (position + 2 + byteLength name) opened after).cons
          (.reference (String.ofList name))
    else
      let text := c :: rest.takeWhile (fun d => d != '<' && d != '&')
      (readFrom (position + byteLength text) opened
        (rest.dropWhile (fun d => d != '<' && d != '&'))).cons (.leaf .text (String.ofList text))
termination_by cs.length
decreasing_by
  · have := step.shorter
    simp only [List.length_cons]
    omega
  · have := congrArg List.length (Entity.takeName?_eq h)
    simp only [List.length_append, List.length_cons] at this ⊢
    omega
  · have := (List.dropWhile_sublist (fun d => d != '<' && d != '&') (l := rest)).length_le
    simp only [List.length_cons]
    omega

/-- The events of a text. A byte order mark at its start is dropped and not counted. -/
def read (source : String) : Reading :=
  match source.toList with
  | '\uFEFF' :: cs => readFrom 0 [] cs
  | cs => readFrom 0 [] cs

end SvgPress.Markup
