import SvgPress.Json.Printer
import SvgPress.Markup.Node
import SvgPress.Text.Case

/-!
Attributes as JSX: names in camel case, `style` as an object literal, and values in quotes or, where
quotes would change them, as a string expression.
-/

namespace SvgPress.Jsx

/-- A name with its words joined, each but the first with a capital. Hyphens and colons end a
word. `started` tells whether a letter has been written, `afterMark` whether a word has ended. -/
def camelFrom (started afterMark : Bool) : List Char → List Char
  | [] => []
  | c :: rest =>
    if c = '-' ∨ c = ':' then camelFrom started started rest
    else (if afterMark then Text.upperChar c else [c]) ++ camelFrom true false rest

def camelCase (name : String) : String :=
  String.ofList (camelFrom false false name.toList)

def attributeName (name : String) : String :=
  if name = "class" then "className"
  else if name = "for" then "htmlFor"
  else if Text.startsWith name "data-" || Text.startsWith name "aria-" then name
  else camelCase name

/-- Where a style text is read: inside a quoted part, or outside of quotes with this many
parentheses open. -/
inductive Scan where
  | quoted (mark : Char) (depth : Nat)
  | plain (depth : Nat)
  deriving DecidableEq, Repr

/-- The state after one more character. -/
def Scan.next (s : Scan) (c : Char) : Scan :=
  match s with
  | .quoted mark depth => if c = mark then .plain depth else s
  | .plain depth =>
    if c = '"' ∨ c = '\'' then .quoted c depth
    else if c = '(' then .plain (depth + 1)
    else if c = ')' then .plain (depth - 1)
    else s

/-- A style text cut at the semicolons outside of quotes and parentheses. -/
def declarationsFrom (s : Scan) : List Char → List (List Char)
  | [] => [[]]
  | c :: rest =>
    if c = ';' ∧ s = .plain 0 then [] :: declarationsFrom s rest
    else
      match declarationsFrom (s.next c) rest with
      | part :: parts => (c :: part) :: parts
      | [] => [[c]]

def declarations (style : String) : List String :=
  (declarationsFrom (.plain 0) style.toList).map String.ofList

/-- One declaration as a member of an object literal; custom properties keep their name. -/
def styleEntry? (declaration : String) : Option String := do
  let (property, value) ← Text.splitOnce? declaration ":"
  let property := Text.trim property
  let key := if Text.startsWith property "--" then Json.quote property else camelCase property
  some (key ++ ": " ++ Json.quote (Text.trim value))

/-- A style text as an object literal, if every declaration in it has a value. -/
def styleObject? (style : String) : Option String := do
  let parts := ((declarations style).map Text.trim).filter (!·.isEmpty)
  let entries ← parts.mapM styleEntry?
  some ("\x7b " ++ ", ".intercalate entries ++ " \x7d")

/-- A value as a string expression in braces. -/
def expression (value : String) : String :=
  "\x7b" ++ Json.quote value ++ "\x7d"

/-- An attribute value: between quotes as it is, unless that would end it early or decode an
entity. -/
def attributeValue (value : String) : String :=
  if value.toList.any fun c => c == '"' || c == '&' then expression value
  else "\"" ++ value ++ "\""

def writeAttribute (a : Attribute) : String :=
  match if a.name = "style" then styleObject? a.value else none with
  | some style => "style=\x7b" ++ style ++ "\x7d"
  | none => attributeName a.name ++ "=" ++ attributeValue a.value

end SvgPress.Jsx
