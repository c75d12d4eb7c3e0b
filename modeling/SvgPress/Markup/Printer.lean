import SvgPress.Markup.Entity
import SvgPress.Markup.Node

/-!
Markup text of a document. Pretty text puts every node on a line of its own, indented by its depth;
an element that holds text directly stays on one line with all it contains, because a line break
inside it would change the text.
-/

namespace SvgPress

/-- How a document is laid out. -/
structure Layout where
  /-- Whether nodes go on lines of their own. -/
  pretty : Bool
  /-- Spaces of indentation for each level. -/
  indent : Nat
  deriving DecidableEq, Repr

namespace Layout

/-- The layout used where nothing else is asked for. -/
def standard : Layout :=
  ⟨true, 2⟩

/-- The layout without any white space added. -/
def compact : Layout :=
  ⟨false, 0⟩

def pad (layout : Layout) (depth : Nat) : String :=
  if layout.pretty then Text.spaces (depth * layout.indent) else ""

def newline (layout : Layout) : String :=
  if layout.pretty then "\n" else ""

end Layout

/-- What is written before the content of a leaf. -/
def LeafKind.opening : LeafKind → String
  | .text => ""
  | .cdata => "<![CDATA["
  | .comment => "<!--"
  | .declaration => "<?"
  | .instruction => "<?"
  | .doctype => "<!DOCTYPE "

/-- What is written after the content of a leaf. -/
def LeafKind.closing : LeafKind → String
  | .text => ""
  | .cdata => "]]>"
  | .comment => "-->"
  | .declaration => "?>"
  | .instruction => "?>"
  | .doctype => ">"

/-- A leaf. Only text is escaped: the other kinds hold their content as it was written. -/
def writeLeaf (kind : LeafKind) (content : String) : String :=
  kind.opening ++ (if kind = .text then Entity.escapeText content else content) ++ kind.closing

def Attribute.write (a : Attribute) : String :=
  " " ++ a.name ++ "=\"" ++ Entity.escapeValue a.value ++ "\""

/-- A start tag without its closing bracket. -/
def Tag.writeOpening (tag : Tag) : String :=
  "<" ++ tag.name ++ String.join (tag.attributes.map Attribute.write)

def Tag.writeClosing (tag : Tag) : String :=
  "</" ++ tag.name ++ ">"

namespace Node

mutual

/-- A node and everything in it without white space added. -/
def writeInline : Node → String
  | .leaf kind content => writeLeaf kind content
  | .element tag children =>
    if children.isEmpty then tag.writeOpening ++ "/>"
    else tag.writeOpening ++ ">" ++ writeInlineAll children ++ tag.writeClosing
termination_by structural n => n

def writeInlineAll : List Node → String
  | [] => ""
  | n :: rest => n.writeInline ++ writeInlineAll rest
termination_by structural ns => ns

end

mutual

/-- A node on the lines that a layout gives it. -/
def write (layout : Layout) (depth : Nat) : Node → String
  | .leaf kind content => layout.pad depth ++ writeLeaf kind content ++ layout.newline
  | .element tag children =>
    layout.pad depth ++ tag.writeOpening ++
      (if children.isEmpty then "/>"
      else if children.any (isLeaf .text) then
        ">" ++ writeInlineAll children ++ tag.writeClosing
      else
        ">" ++ layout.newline ++ writeAll layout (depth + 1) children ++ layout.pad depth ++
          tag.writeClosing) ++
      layout.newline
termination_by structural n => n

def writeAll (layout : Layout) (depth : Nat) : List Node → String
  | [] => ""
  | n :: rest => n.write layout depth ++ writeAll layout depth rest
termination_by structural ns => ns

end

end Node

namespace Document

/-- The markup text of a document. White space at its end is dropped. -/
def write (doc : Document) (layout : Layout) : String :=
  Text.trimEnd (Node.writeAll layout 0 doc.nodes)

end Document

end SvgPress
