import SvgPress.Json.Value

/-!
JSON text of values. Members are written in the order in which the object holds them.
-/

namespace SvgPress.Json

/-- A digit of the lower-case hexadecimal system. -/
def hexDigit (n : Nat) : Char :=
  if n < 10 then Char.ofNat ('0'.toNat + n) else Char.ofNat ('a'.toNat + (n - 10))

/-- How one character stands inside a quoted string. The short escapes come first; the remaining
control characters are written in hexadecimal, and everything else is written as it is. -/
def escapeChar (c : Char) : List Char :=
  if c = '"' then ['\\', '"']
  else if c = '\\' then ['\\', '\\']
  else if c = '\n' then ['\\', 'n']
  else if c = '\r' then ['\\', 'r']
  else if c = '\t' then ['\\', 't']
  else if c.toNat = 0x08 then ['\\', 'b']
  else if c.toNat = 0x0C then ['\\', 'f']
  else if c.toNat < 0x20 then
    ['\\', 'u', '0', '0', hexDigit (c.toNat / 16), hexDigit (c.toNat % 16)]
  else [c]

/-- A text as a quoted JSON string. -/
def quoteChars (cs : List Char) : List Char :=
  '"' :: (cs.flatMap escapeChar ++ ['"'])

def quote (s : String) : String :=
  String.ofList (quoteChars s.toList)

/-- The text of a number: whole numbers in decimal, others with the fewest digits that read
back. -/
def Number.text : Number → String
  | .integer i => toString i
  | .float x => String.ofList (Decimal.scientific x)

namespace Value

mutual

/-- The text of a value without any white space between its parts. -/
def compact : Value → String
  | .null => "null"
  | .bool b => if b then "true" else "false"
  | .number n => n.text
  | .string s => quote s
  | .array items => "[" ++ compactItems items ++ "]"
  | .object members => "\x7b" ++ compactMembers members ++ "\x7d"
termination_by structural v => v

def compactItems : List Value → String
  | [] => ""
  | [v] => v.compact
  | v :: rest => v.compact ++ "," ++ compactItems rest
termination_by structural vs => vs

def compactMembers : List (String × Value) → String
  | [] => ""
  | [(k, v)] => quote k ++ ":" ++ v.compact
  | (k, v) :: rest => quote k ++ ":" ++ v.compact ++ "," ++ compactMembers rest
termination_by structural ms => ms

end

mutual

/-- The text of a value with one item or member a line, indented by two spaces a level. Empty
arrays and objects stay closed up. -/
def pretty (depth : Nat) : Value → String
  | .array [] => "[]"
  | .array items =>
    "[\n" ++ prettyItems (depth + 1) items ++ "\n" ++ Text.spaces (2 * depth) ++ "]"
  | .object [] => "\x7b\x7d"
  | .object members =>
    "\x7b\n" ++ prettyMembers (depth + 1) members ++ "\n" ++ Text.spaces (2 * depth) ++ "\x7d"
  | .null => "null"
  | .bool b => if b then "true" else "false"
  | .number n => n.text
  | .string s => quote s
termination_by structural v => v

def prettyItems (depth : Nat) : List Value → String
  | [] => ""
  | [v] => Text.spaces (2 * depth) ++ v.pretty depth
  | v :: rest => Text.spaces (2 * depth) ++ v.pretty depth ++ ",\n" ++ prettyItems depth rest
termination_by structural vs => vs

def prettyMembers (depth : Nat) : List (String × Value) → String
  | [] => ""
  | [(k, v)] => Text.spaces (2 * depth) ++ quote k ++ ": " ++ v.pretty depth
  | (k, v) :: rest =>
    Text.spaces (2 * depth) ++ quote k ++ ": " ++ v.pretty depth ++ ",\n" ++
      prettyMembers depth rest
termination_by structural ms => ms

end

end Value

end SvgPress.Json
