import SvgPress.Json.Lexer

/-!
Typed reading of JSON text. A decoder consumes the text of one value from left to right and stops
at the first problem, so a value of the wrong type that stands before a malformed part is reported
first. Arrays and objects may nest 127 deep; values that nobody asked for may nest without bound.
-/

namespace SvgPress.Json

/-- Reads one value. The first argument is the nesting budget: entering an array or object takes
one from it, and one must be left. -/
abbrev Decoder (α : Type) := Nat → List Char → Except Fault (α × List Char)

/-- What stands at the next place of an array or object: its end, or one more entry. -/
inductive Entry where
  | closed (rest : List Char)
  | more (rest : List Char)

/-- The next item of an array, or its end. A comma stands between items and nowhere else. -/
def nextItem (first : Bool) (cs : List Char) : Except Fault Entry :=
  match skipGap cs with
  | [] => .error .endOfInput
  | ']' :: rest => .ok (.closed rest)
  | ',' :: rest =>
    if first then .error .malformed
    else
      match skipGap rest with
      | [] => .error .endOfInput
      | ']' :: _ => .error .malformed
      | item => .ok (.more item)
  | item => if first then .ok (.more item) else .error .malformed

/-- The next key of an object, after its opening quote, or the end of the object. -/
def nextKey (first : Bool) (cs : List Char) : Except Fault Entry :=
  match skipGap cs with
  | [] => .error .endOfInput
  | '\x7d' :: rest => .ok (.closed rest)
  | ',' :: rest => if first then .error .malformed else key (skipGap rest)
  | rest => if first then key rest else .error .malformed
where
  key : List Char → Except Fault Entry
    | [] => .error .endOfInput
    | '"' :: rest => .ok (.more rest)
    | _ => .error .malformed

/-- The colon between a key and its value. -/
def colon (cs : List Char) : Except Fault (List Char) :=
  match skipGap cs with
  | [] => .error .endOfInput
  | ':' :: rest => .ok rest
  | _ => .error .malformed

/-- The cause for refusing a value of the wrong type. A scalar is read to its end first, so that a
malformed one is reported as malformed. -/
def refusal : List Char → Fault
  | 'n' :: rest => cause (keyword "ull".toList rest)
  | 't' :: rest => cause (keyword "rue".toList rest)
  | 'f' :: rest => cause (keyword "alse".toList rest)
  | '"' :: rest => cause (stringBody [] rest)
  | '[' :: _ => .mismatch
  | '\x7b' :: _ => .mismatch
  | '-' :: rest => cause (Number.read true rest)
  | c :: rest => if c.isDigit then cause (Number.read false (c :: rest)) else .malformed
  | [] => .endOfInput
where
  cause {α : Type} : Except Fault (α × List Char) → Fault
    | .ok _ => .mismatch
    | .error fault => fault

/-- The items of an array after its opening bracket. Every item takes at least one character, so a
budget of the text's length is never used up. -/
def items {α : Type} (item : List Char → Except Fault (α × List Char)) :
    Nat → Bool → List α → List Char → Except Fault (List α × List Char)
  | 0, _, _, _ => .error .malformed
  | budget + 1, first, acc, cs => do
    match ← nextItem first cs with
    | .closed rest => .ok (acc.reverse, rest)
    | .more rest =>
      let (a, rest) ← item rest
      items item budget false (a :: acc) rest

/-- The members of an object after its opening brace. `member` sees the key and the text from the
colon on. -/
def members {σ : Type} (member : String → σ → List Char → Except Fault (σ × List Char)) :
    Nat → Bool → σ → List Char → Except Fault (σ × List Char)
  | 0, _, _, _ => .error .malformed
  | budget + 1, first, s, cs => do
    match ← nextKey first cs with
    | .closed rest => .ok (s, rest)
    | .more rest =>
      let (key, rest) ← stringBody [] rest
      let (s, rest) ← member key s rest
      members member budget false s rest

/-- Read past a value of any kind. `stack` holds the containers that are open, arrays as `true`;
`atValue` tells whether a value is due or has just ended. -/
def skipOpen : Nat → Bool → List Bool → List Char → Except Fault (Unit × List Char)
  | 0, _, _, _ => .error .malformed
  | budget + 1, true, stack, cs =>
    match skipGap cs with
    | [] => .error .endOfInput
    | 'n' :: rest => do
      let (_, rest) ← keyword "ull".toList rest
      skipOpen budget false stack rest
    | 't' :: rest => do
      let (_, rest) ← keyword "rue".toList rest
      skipOpen budget false stack rest
    | 'f' :: rest => do
      let (_, rest) ← keyword "alse".toList rest
      skipOpen budget false stack rest
    | '"' :: rest => do
      let (_, rest) ← skipString rest
      skipOpen budget false stack rest
    | '-' :: rest => do
      let (_, rest) ← Number.skip rest
      skipOpen budget false stack rest
    | '[' :: rest => do
      match ← nextItem true rest with
      | .closed rest => skipOpen budget false stack rest
      | .more rest => skipOpen budget true (true :: stack) rest
    | '\x7b' :: rest => do
      match ← nextKey true rest with
      | .closed rest => skipOpen budget false stack rest
      | .more rest =>
        let (_, rest) ← skipString rest
        let rest ← colon rest
        skipOpen budget true (false :: stack) rest
    | c :: rest =>
      if c.isDigit then do
        let (_, rest) ← Number.skip (c :: rest)
        skipOpen budget false stack rest
      else .error .malformed
  | _, false, [], cs => .ok ((), cs)
  | budget + 1, false, true :: stack, cs => do
    match ← nextItem false cs with
    | .closed rest => skipOpen budget false stack rest
    | .more rest => skipOpen budget true (true :: stack) rest
  | budget + 1, false, false :: stack, cs => do
    match ← nextKey false cs with
    | .closed rest => skipOpen budget false stack rest
    | .more rest =>
      let (_, rest) ← skipString rest
      let rest ← colon rest
      skipOpen budget true (false :: stack) rest

/-- Read past one value of any kind. -/
def skipValue (cs : List Char) : Except Fault (Unit × List Char) :=
  skipOpen (2 * cs.length + 2) true [] cs

namespace Decoder

variable {α σ : Type}

/-- Any value, with the members of its objects as written. -/
def raw : Decoder Value
  | 0, _ => .error .malformed
  | depth + 1, cs =>
    match skipGap cs with
    | [] => .error .endOfInput
    | 'n' :: rest => (keyword "ull".toList rest).map fun (_, rest) => (.null, rest)
    | 't' :: rest => (keyword "rue".toList rest).map fun (_, rest) => (.bool true, rest)
    | 'f' :: rest => (keyword "alse".toList rest).map fun (_, rest) => (.bool false, rest)
    | '"' :: rest => (stringBody [] rest).map fun (s, rest) => (.string s, rest)
    | '-' :: rest => (Number.read true rest).map fun (n, rest) => (.number n, rest)
    | '[' :: rest =>
      if depth = 0 then .error .malformed
      else (items (raw depth) cs.length true [] rest).map fun (vs, rest) => (.array vs, rest)
    | '\x7b' :: rest =>
      if depth = 0 then .error .malformed
      else
        (members (fun key ms cs => do
          let cs ← colon cs
          let (v, cs) ← raw depth cs
          .ok ((key, v) :: ms, cs)) cs.length true [] rest).map
          fun (ms, rest) => (.object ms.reverse, rest)
    | c :: rest =>
      if c.isDigit then
        (Number.read false (c :: rest)).map fun (n, rest) => (.number n, rest)
      else .error .malformed

/-- Any value, in canonical form. -/
def value : Decoder Value := fun depth cs =>
  (raw depth cs).map fun (v, rest) => (v.canonical, rest)

def string : Decoder String := fun _ cs =>
  match skipGap cs with
  | [] => .error .endOfInput
  | '"' :: rest => stringBody [] rest
  | rest => .error (refusal rest)

def bool : Decoder Bool := fun _ cs =>
  match skipGap cs with
  | [] => .error .endOfInput
  | 't' :: rest => (keyword "rue".toList rest).map fun (_, rest) => (true, rest)
  | 'f' :: rest => (keyword "alse".toList rest).map fun (_, rest) => (false, rest)
  | rest => .error (refusal rest)

/-- A natural number below `2 ^ 64`, written without point and exponent. -/
def natural : Decoder Nat := fun _ cs =>
  match skipGap cs with
  | [] => .error .endOfInput
  | c :: rest =>
    if c.isDigit then do
      let (n, rest) ← Number.read false (c :: rest)
      match n.toNat? with
      | some n => .ok (n, rest)
      | none => .error .mismatch
    else .error (refusal (c :: rest))

/-- A value that may be `null`. -/
def optional (d : Decoder α) : Decoder (Option α) := fun depth cs =>
  match skipGap cs with
  | 'n' :: rest => (keyword "ull".toList rest).map fun (_, rest) => (none, rest)
  | rest => (d depth rest).map fun (a, rest) => (some a, rest)

def array (d : Decoder α) : Decoder (List α) := fun depth cs =>
  match skipGap cs with
  | [] => .error .endOfInput
  | '[' :: rest =>
    if depth ≤ 1 then .error .malformed else items (d (depth - 1)) cs.length true [] rest
  | rest => .error (refusal rest)

/-- An object of arbitrary members, in canonical form. -/
def object : Decoder Object := fun depth cs =>
  match skipGap cs with
  | [] => .error .endOfInput
  | '\x7b' :: rest =>
    if depth ≤ 1 then .error .malformed
    else
      members (fun key o cs => do
        let cs ← colon cs
        let (v, cs) ← value (depth - 1) cs
        .ok (o.put key v, cs)) cs.length true [] rest
  | rest => .error (refusal rest)

/-- Apply a function to what a decoder reads. -/
def map {β : Type} (f : α → β) (d : Decoder α) : Decoder β := fun depth cs =>
  (d depth cs).map fun (a, rest) => (f a, rest)

end Decoder

/-- One field of a record, as a change of the record built so far. -/
structure RecordField (σ : Type) where
  /-- The keys under which the field may stand in an object. -/
  names : List String
  read : Decoder (σ → σ)
  /-- Whether an object may leave the field out. -/
  optionalInObject : Bool := true
  /-- Whether an array may end before the field. -/
  optionalInArray : Bool := false

namespace Decoder

variable {σ : Type}

/-- A record written as an array: its fields in order, and nothing after them. -/
def positional (depth : Nat) :
    List (RecordField σ) → Bool → σ → List Char → Except Fault (σ × List Char)
  | [], _, s, cs =>
    match skipGap cs with
    | [] => .error .endOfInput
    | ']' :: rest => .ok (s, rest)
    | _ => .error .malformed
  | field :: fields, first, s, cs => do
    match ← nextItem first cs with
    | .closed rest =>
      if (field :: fields).all (·.optionalInArray) then .ok (s, rest) else .error .mismatch
    | .more rest =>
      let (change, rest) ← field.read depth rest
      positional depth fields false (change s) rest

/-- One member of a record written as an object. Unknown keys are skipped; a known one may come
only once, under whichever of its names. -/
def recordMember (depth : Nat) (fields : List (RecordField σ)) (key : String)
    (state : σ × List (List String)) (cs : List Char) :
    Except Fault ((σ × List (List String)) × List Char) :=
  match fields.find? (·.names.contains key) with
  | none => do
    let cs ← colon cs
    let (_, cs) ← skipValue cs
    .ok (state, cs)
  | some field =>
    if state.2.contains field.names then .error .mismatch
    else do
      let cs ← colon cs
      let (change, cs) ← field.read depth cs
      .ok ((change state.1, field.names :: state.2), cs)

/-- A record, written as an object or as an array. It starts as `empty`, and every field read
changes it. -/
def record (fields : List (RecordField σ)) (empty : σ) : Decoder σ := fun depth cs =>
  match skipGap cs with
  | [] => .error .endOfInput
  | '[' :: rest =>
    if depth ≤ 1 then .error .malformed else positional (depth - 1) fields true empty rest
  | '\x7b' :: rest =>
    if depth ≤ 1 then .error .malformed
    else do
      let ((s, seen), rest) ←
        members (recordMember (depth - 1) fields) cs.length true (empty, []) rest
      if fields.all fun field => field.optionalInObject || seen.contains field.names then
        .ok (s, rest)
      else .error .mismatch
  | rest => .error (refusal rest)

end Decoder

/-- Read a whole text. Nothing but blanks may follow the value. -/
def decode {α : Type} (d : Decoder α) (text : String) : Except Fault α := do
  let (a, rest) ← d 128 text.toList
  if (skipGap rest).isEmpty then .ok a else .error .malformed

end SvgPress.Json
