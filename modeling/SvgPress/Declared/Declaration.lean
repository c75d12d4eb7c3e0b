import SvgPress.Json.Decoder

/-!
The written form of a declared pass. A rule says by its member `op` what it does; the other members
are looked at when the rule is complete, so that their order does not matter.
-/

namespace SvgPress

open Json

/-- A rule as written, with its patterns as texts. -/
inductive RuleSpec where
  | removeElements (names : List String)
  | removeAttributes (patterns : List String)
  | setAttributes (element : Option String) (attributes : List (String × String))
  deriving DecidableEq, Repr

namespace RuleSpec

/-- What a rule does. -/
inductive Kind where
  | removeElements
  | removeAttributes
  | setAttributes
  deriving DecidableEq, Repr

def Kind.all : List (String × Kind) :=
  [("removeElements", .removeElements), ("removeAttributes", .removeAttributes),
    ("setAttributes", .setAttributes)]

def Kind.decoder : Decoder Kind := fun depth cs => do
  let (name, rest) ← Decoder.string depth cs
  match Kind.all.lookup name with
  | some kind => .ok (kind, rest)
  | none => .error .mismatch

def text : Value → Except Fault String
  | .string s => .ok s
  | _ => .error .mismatch

def texts : Value → Except Fault (List String)
  | .array vs => vs.mapM text
  | _ => .error .mismatch

def optionalText : Value → Except Fault (Option String)
  | .null => .ok none
  | v => (text v).map some

/-- An object of texts. Keys come out in order, and of members with one key the last wins. -/
def textMap : Value → Except Fault (List (String × String))
  | .object members => do
    let _ ← members.mapM fun (_, v) => text v
    (Object.merge [] members).mapM fun (k, v) => do return (k, ← text v)
  | _ => .error .mismatch

/-- A rule from its parts in order, none of which may be left out. -/
def ofParts (kind : Kind) (parts : List Value) : Except Fault RuleSpec :=
  match kind, parts with
  | .removeElements, [names] => return .removeElements (← texts names)
  | .removeAttributes, [patterns] => return .removeAttributes (← texts patterns)
  | .setAttributes, [element, attributes] =>
    return .setAttributes (← optionalText element) (← textMap attributes)
  | _, _ => .error .mismatch

/-- The member with a key, which may come only once. -/
def member? (members : List (String × Value)) (key : String) : Except Fault (Option Value) :=
  match members.filter (·.1 == key) with
  | [] => .ok none
  | [(_, v)] => .ok (some v)
  | _ => .error .mismatch

def member (members : List (String × Value)) (key : String) : Except Fault Value := do
  match ← member? members key with
  | some v => .ok v
  | none => .error .mismatch

/-- A rule from its members. Members that it does not know are ignored. -/
def ofMembers (kind : Kind) (members : List (String × Value)) : Except Fault RuleSpec := do
  match kind with
  | .removeElements => ofParts kind [← member members "names"]
  | .removeAttributes => ofParts kind [← member members "patterns"]
  | .setAttributes =>
    let element ← member? members "element"
    ofParts kind [element.getD .null, ← member members "attributes"]

/-- A rule written as an array: what it does, then its parts. -/
def positional (depth : Nat) (cs : List Char) : Except Fault (RuleSpec × List Char) := do
  match ← nextItem true cs with
  | .closed _ => .error .mismatch
  | .more rest =>
    let (kind, rest) ← Kind.decoder depth rest
    let (parts, rest) ← items (Decoder.raw depth) (rest.length + 1) false [] rest
    .ok (← ofParts kind parts, rest)

/-- One more member of a rule written as an object. -/
def addMember (depth : Nat) (key : String) (state : Option Kind × List (String × Value))
    (cs : List Char) : Except Fault ((Option Kind × List (String × Value)) × List Char) :=
  if key = "op" then
    match state.1 with
    | some _ => .error .mismatch
    | none => do
      let (kind, cs) ← Kind.decoder depth (← colon cs)
      .ok ((some kind, state.2), cs)
  else do
    let (v, cs) ← Decoder.raw depth (← colon cs)
    .ok ((state.1, state.2 ++ [(key, v)]), cs)

def decoder : Decoder RuleSpec := fun depth cs =>
  match skipGap cs with
  | [] => .error .endOfInput
  | '[' :: rest => if depth ≤ 1 then .error .malformed else positional (depth - 1) rest
  | '\x7b' :: rest =>
    if depth ≤ 1 then .error .malformed
    else do
      let ((kind, ms), rest) ←
        members (addMember (depth - 1)) (rest.length + 1) true (none, []) rest
      match kind with
      | some kind => .ok (← ofMembers kind ms, rest)
      | none => .error .mismatch
  | rest => .error (refusal rest)

end RuleSpec

/-- A declared pass as written. -/
structure Declaration where
  name : Option String := none
  engine : Option String := none
  description : String := ""
  params : Option Value := none
  rules : List RuleSpec := []
  deriving Repr

namespace Declaration

def fields : List (RecordField Declaration) :=
  [{ names := ["name"],
     read := (Decoder.optional Decoder.string).map fun v d => { d with name := v } },
    { names := ["engine"],
      read := (Decoder.optional Decoder.string).map fun v d => { d with engine := v } },
    { names := ["description"],
      read := Decoder.string.map fun v d => { d with description := v },
      optionalInArray := true },
    { names := ["params"],
      read := (Decoder.optional Decoder.value).map fun v d => { d with params := v } },
    { names := ["rules"],
      read := (Decoder.array RuleSpec.decoder).map fun v d => { d with rules := v },
      optionalInArray := true }]

def decoder : Decoder Declaration :=
  Decoder.record fields {}

end Declaration

end SvgPress
