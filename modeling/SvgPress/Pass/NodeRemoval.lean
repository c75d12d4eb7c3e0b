import SvgPress.Pass.Basic
import SvgPress.Text.Blank

/-!
Passes that drop whole nodes by what they are, at every depth: the prolog, comments, and elements
that carry no drawing. Each is a single `Document.prune`, so what survives are the nodes that
neither they nor anything around them made the test reject.
-/

namespace SvgPress.NodeRemoval

/-- Not a leaf of the given kind. -/
def isOther (kind : LeafKind) (n : Node) : Bool :=
  !n.isLeaf kind

/-- Any node but a comment; of the comments those that open with an exclamation mark, which is how
legal notices are marked. -/
def isNoticeOrOther : Node → Bool
  | .leaf .comment content => Text.startsWith content "!"
  | _ => true

/-- Not an element of the given name. -/
def isNotNamed (name : String) (n : Node) : Bool :=
  !n.isNamed name

/-- Whether a description was left empty or written by an editor. -/
def isGenerated (description : String) : Bool :=
  let text := Text.trim description
  text.isEmpty || Text.startsWith text "Created with" || Text.startsWith text "Created using"

/-- Any node but a description that says nothing; no description at all if none is wanted. -/
def isWorthwhile (removeAny : Bool) : Node → Bool
  | .element tag children =>
    tag.name != "desc" || !(removeAny || isGenerated (textOf children))
  | .leaf .. => true

def removeDoctype : Pass :=
  .always "removeDoctype" "removes doctype declaration" (·.prune (isOther .doctype))

def removeDeclaration : Pass :=
  .always "removeXMLProcInst" "removes XML processing instructions"
    (·.prune (isOther .declaration))

def removeComments : Pass :=
  .always "removeComments" "removes comments, keeping `<!--! ... -->` legal notices"
    (·.prune isNoticeOrOther)

def removeMetadata : Pass :=
  .always "removeMetadata" "removes <metadata>" (·.prune (isNotNamed "metadata"))

def removeTitle : Pass :=
  .always "removeTitle" "removes <title>" (·.prune (isNotNamed "title"))

def removeDescriptions : Pass where
  name := "removeDesc"
  description := "removes empty or editor-generated <desc>"
  defaults := some [("removeAny", .bool false)]
  apply := fun params doc => do
    let removeAny ← params.bool "removeAny" false
    return doc.prune (isWorthwhile removeAny)

end SvgPress.NodeRemoval
