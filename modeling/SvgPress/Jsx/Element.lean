import SvgPress.Jsx.Attribute
import SvgPress.Markup.Assembly

/-!
Elements as JSX. Only elements and character data are kept. An element that holds character data
goes on one line with all that is in it, because line breaks would change the words.
-/

namespace SvgPress.Jsx

/-- Why markup cannot be converted. -/
inductive ConvertFault where
  | badMarkup (fault : ParseFault)
  | noRoot
  deriving DecidableEq, Repr

def ConvertFault.message : ConvertFault → String
  | .badMarkup fault => "Invalid markup: " ++ fault.message
  | .noRoot => "Markup has no root element"

/-- Character data as it is, or as a string expression where it holds a character that means
something else. -/
def textOf (s : String) : String :=
  if s.toList.any "\x7b\x7d<>&".toList.contains then expression s else s

def isCharacterData : Node → Bool
  | .leaf .text _ => true
  | .leaf .cdata _ => true
  | _ => false

/-- Whether a node is written at all. -/
def isShown (n : Node) : Bool :=
  n.isElement || isCharacterData n

/-- A start tag without its closing bracket. -/
def opening (tag : Tag) : String :=
  "<" ++ tag.name ++ String.join (tag.attributes.map fun a => " " ++ writeAttribute a)

def closing (tag : Tag) : String :=
  "</" ++ tag.name ++ ">"

mutual

/-- A node on one line. -/
def writeInline : Node → String
  | .element tag children =>
    if children.any isShown then opening tag ++ ">" ++ writeInlineAll children ++ closing tag
    else opening tag ++ " />"
  | .leaf kind s => if isCharacterData (.leaf kind s) then textOf s else ""
termination_by structural n => n

def writeInlineAll : List Node → String
  | [] => ""
  | n :: rest => writeInline n ++ writeInlineAll rest
termination_by structural ns => ns

end

mutual

/-- An element on lines of its own, indented by its depth; other nodes are not written. -/
def write (indent depth : Nat) : Node → String
  | .element tag children =>
    let pad := Text.spaces (depth * indent)
    if !children.any isShown then pad ++ opening tag ++ " />\n"
    else if children.any isCharacterData then
      pad ++ opening tag ++ ">" ++ writeInlineAll children ++ closing tag ++ "\n"
    else
      pad ++ opening tag ++ ">\n" ++ writeAll indent (depth + 1) children ++ pad ++ closing tag ++
        "\n"
  | .leaf .. => ""
termination_by structural n => n

def writeAll (indent depth : Nat) : List Node → String
  | [] => ""
  | n :: rest => write indent depth n ++ writeAll indent depth rest
termination_by structural ns => ns

end

/-- The JSX of the root element of some markup. -/
def convert (indent : Nat) (markup : String) : Except ConvertFault String :=
  match Document.parse markup with
  | .error fault => .error (.badMarkup fault)
  | .ok doc =>
    match doc.root? with
    | some (tag, children) => .ok (Text.trimEnd (write indent 0 (.element tag children)))
    | none => .error .noRoot

end SvgPress.Jsx
