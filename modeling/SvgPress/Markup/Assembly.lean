import SvgPress.Markup.Reader

/-!
Assembling a document from events. The open elements form a stack, innermost first; an element's
white space is settled when it closes, since only then is it known whether it mixes text with
elements.
-/

namespace SvgPress

/-- Why a text is no document. -/
inductive ParseFault where
  | badMarkup (position : Nat) (fault : MarkupFault)
  | badAttribute (fault : AttributeFault)
  | unexpectedEnd (name : String)
  | unclosed (name : String)
  | noRoot
  deriving DecidableEq, Repr

def ParseFault.message : ParseFault → String
  | badMarkup position fault =>
    "XML parse error at position " ++ toString position ++ ": " ++ fault.message
  | badAttribute fault => "Malformed attribute: " ++ fault.message
  | unexpectedEnd name => "Unexpected end tag: </" ++ name ++ ">"
  | unclosed name => "Unclosed element: <" ++ name ++ ">"
  | noRoot => "Document has no root element"

/-- The elements whose white space is part of what they show. -/
def textElements : List String :=
  ["text", "tspan", "textPath"]

/-- Whether the element asks by attribute that white space inside it be kept, at every depth. -/
def Tag.preservesSpace (tag : Tag) : Bool :=
  tag.attribute? "xml:space" == some "preserve"

/-- Whether the node is text that is more than white space. -/
def Node.showsText : Node → Bool
  | .leaf .text s => !Text.isBlankText s
  | _ => false

/-- Whether text that is more than white space stands beside elements; the white space then
separates words. -/
def isMixed (children : List Node) : Bool :=
  children.any Node.isElement && children.any Node.showsText

/-- Whether an element keeps the white space of its own text, whatever contains it. -/
def keepsOwnSpace (tag : Tag) (children : List Node) : Bool :=
  textElements.contains tag.name || tag.preservesSpace || isMixed children

/-- Trim the texts among the children, and drop those that nothing is left of. -/
def trimTexts (children : List Node) : List Node :=
  children.filterMap fun
    | .leaf .text s =>
      let s := Text.trim s
      if s.isEmpty then none else some (.leaf .text s)
    | n => some n

/-- An element whose end tag has not come yet, with its children so far, the latest first. -/
structure OpenElement where
  tag : Tag
  latest : List Node
  deriving Repr

/-- A document under way: the open elements, innermost first, and the finished nodes at top level,
the latest first. -/
structure Assembly where
  opened : List OpenElement
  top : List Node
  deriving Repr

namespace Assembly

def empty : Assembly :=
  ⟨[], []⟩

/-- Add a finished node where it belongs. -/
def add (a : Assembly) (node : Node) : Assembly :=
  match a.opened with
  | [] => { a with top := node :: a.top }
  | inner :: outer => { a with opened := { inner with latest := node :: inner.latest } :: outer }

/-- A piece of text joined to the text just before it, if that is what was read last. -/
def joinText (s : String) : List Node → List Node
  | .leaf .text before :: earlier => .leaf .text (before ++ s) :: earlier
  | latest => .leaf .text s :: latest

/-- Add character data. At top level it means nothing and is dropped. -/
def addText (a : Assembly) (s : String) : Assembly :=
  match a.opened with
  | [] => a
  | inner :: outer => { a with opened := { inner with latest := joinText s inner.latest } :: outer }

/-- The children of an element at its end, in order and with its white space settled. -/
def settled (element : OpenElement) (outer : List OpenElement) : List Node :=
  let children := element.latest.reverse
  if keepsOwnSpace element.tag children || outer.any (·.tag.preservesSpace) then children
  else trimTexts children

/-- One event. -/
def step (a : Assembly) : Event → Except ParseFault Assembly
  | .start name attributes =>
    match attributes with
    | .ok attributes => .ok { a with opened := ⟨⟨name, attributes⟩, []⟩ :: a.opened }
    | .error fault => .error (.badAttribute fault)
  | .empty name attributes =>
    match attributes with
    | .ok attributes => .ok (a.add (.element ⟨name, attributes⟩ []))
    | .error fault => .error (.badAttribute fault)
  | .close name =>
    match a.opened with
    | inner :: outer =>
      if inner.tag.name = name then
        .ok ({ a with opened := outer }.add (.element inner.tag (settled inner outer)))
      else .error (.unexpectedEnd name)
    | [] => .error (.unexpectedEnd name)
  | .reference name => .ok (a.addText (Entity.decodeReference name.toList))
  | .leaf .text s => .ok (a.addText (Entity.decodeValue s.toList))
  | .leaf .doctype s => .ok (a.add (.leaf .doctype (Text.trim s)))
  | .leaf kind s => .ok (a.add (.leaf kind s))

/-- The events in turn, up to the first one that does not fit. -/
def run (a : Assembly) : List Event → Except ParseFault Assembly
  | [] => .ok a
  | event :: rest =>
    match a.step event with
    | .ok a => a.run rest
    | .error fault => .error fault

/-- The document, once no element is open and there is a root. -/
def finish (a : Assembly) : Except ParseFault Document :=
  match a.opened with
  | inner :: _ => .error (.unclosed inner.tag.name)
  | [] =>
    if a.top.any Node.isElement then .ok ⟨a.top.reverse⟩ else .error .noRoot

end Assembly

namespace Document

/-- The document that a reading describes. A fault of the reading counts after all that was read
before it. -/
def ofReading (reading : Reading) : Except ParseFault Document :=
  match Assembly.empty.run reading.events with
  | .error fault => .error fault
  | .ok a =>
    match reading.fault with
    | some (position, fault) => .error (.badMarkup position fault)
    | none => a.finish

/-- Read a document. -/
def parse (source : String) : Except ParseFault Document :=
  ofReading (Markup.read source)

end Document

end SvgPress
