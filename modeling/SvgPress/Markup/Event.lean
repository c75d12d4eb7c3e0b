import SvgPress.Markup.Node

/-!
The events that a markup text is read into, and the ways in which reading it can fail. A start tag
carries its attributes or the first problem found in them: that problem counts only when the tag is
reached, so it comes before any later problem of the text.
-/

namespace SvgPress

/-- What can be wrong with the attributes of one tag. Positions count bytes from the first byte of
the tag's name. -/
inductive AttributeFault where
  | missingEquals (position : Nat)
  | missingValue (position : Nat)
  | unquotedValue (position : Nat)
  | unclosedValue (position : Nat) (quote : Char)
  | duplicate (position previous : Nat)
  deriving DecidableEq, Repr

namespace AttributeFault

def position : AttributeFault → Nat
  | missingEquals p | missingValue p | unquotedValue p | unclosedValue p _ | duplicate p _ => p

def reason : AttributeFault → String
  | missingEquals _ => "attribute key must be directly followed by `=` or space"
  | missingValue _ => "`=` must be followed by an attribute value"
  | unquotedValue _ => "attribute value must be enclosed in `\"` or `'`"
  | unclosedValue _ quote =>
    "missing closing quote `" ++ String.ofList [quote] ++ "` in attribute value"
  | duplicate _ previous =>
    "duplicated attribute, previous declaration at position " ++ toString previous

def message (fault : AttributeFault) : String :=
  "position " ++ toString fault.position ++ ": " ++ fault.reason

end AttributeFault

/-- What can be wrong with the markup itself. -/
inductive MarkupFault where
  | tagNotClosed
  | unknownMarkup
  | commentNotClosed
  | cdataNotClosed
  | doctypeNotClosed
  | instructionNotClosed
  | doctypeWithoutName
  | referenceNotClosed
  | endWithoutStart (name : String)
  | endMismatch (expected found : String)
  deriving DecidableEq, Repr

namespace MarkupFault

def message : MarkupFault → String
  | tagNotClosed => "syntax error: tag not closed: `>` not found before end of input"
  | unknownMarkup => "syntax error: unknown or missed symbol in markup"
  | commentNotClosed => "syntax error: comment not closed: `-->` not found before end of input"
  | cdataNotClosed => "syntax error: CDATA not closed: `]]>` not found before end of input"
  | doctypeNotClosed => "syntax error: DOCTYPE not closed: `>` not found before end of input"
  | instructionNotClosed =>
    "syntax error: processing instruction or xml declaration not closed: `?>` not found before " ++
      "end of input"
  | doctypeWithoutName =>
    "ill-formed document: `<!DOCTYPE>` declaration does not contain a name of a document type"
  | referenceNotClosed =>
    "ill-formed document: entity or character reference not closed: `;` not found before end of " ++
      "input"
  | endWithoutStart name =>
    "ill-formed document: close tag `</" ++ name ++ ">` does not match any open tag"
  | endMismatch expected found =>
    "ill-formed document: expected `</" ++ expected ++ ">`, but `</" ++ found ++ ">` was found"

end MarkupFault

/-- One step of reading a document. -/
inductive Event where
  /-- A start tag. -/
  | start (name : String) (attributes : Except AttributeFault Attributes)
  /-- An element without content, in the short form. -/
  | empty (name : String) (attributes : Except AttributeFault Attributes)
  /-- An end tag. -/
  | close (name : String)
  /-- A reference in character data, by the text between `&` and `;`. -/
  | reference (name : String)
  /-- A piece of character data, or any other node without children. -/
  | leaf (kind : LeafKind) (content : String)

/-- The events of a text up to its end, or up to the fault at a byte position where reading
stopped. -/
structure Reading where
  events : List Event
  fault : Option (Nat × MarkupFault)

namespace Reading

def done : Reading :=
  ⟨[], none⟩

def stopped (position : Nat) (fault : MarkupFault) : Reading :=
  ⟨[], some (position, fault)⟩

def cons (event : Event) (reading : Reading) : Reading :=
  { reading with events := event :: reading.events }

end Reading

end SvgPress
