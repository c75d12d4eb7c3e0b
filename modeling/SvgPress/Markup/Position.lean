import SvgPress.Markup.Node

/-!
Elements addressed by their position in document order, counted from zero over all elements of the
document.
-/

namespace SvgPress

namespace Node

mutual

/-- The elements of a node and its descendants in document order, each with its children. -/
def elements : Node → List (Tag × List Node)
  | .element tag children => (tag, children) :: elementsOf children
  | .leaf .. => []
termination_by structural n => n

def elementsOf : List Node → List (Tag × List Node)
  | [] => []
  | n :: rest => n.elements ++ elementsOf rest
termination_by structural ns => ns

end

mutual

/-- Change the tags of a node and its descendants, each with its position; `i` is the position of
the first of them. -/
def mapTagsFrom (f : Nat → Tag → Tag) (i : Nat) : Node → Node
  | .element tag children => .element (f i tag) (mapTagsFromOf f (i + 1) children)
  | .leaf kind content => .leaf kind content
termination_by structural n => n

def mapTagsFromOf (f : Nat → Tag → Tag) (i : Nat) : List Node → List Node
  | [] => []
  | n :: rest => n.mapTagsFrom f i :: mapTagsFromOf f (i + n.tags.length) rest
termination_by structural ns => ns

end

end Node

namespace Document

/-- The element at a position. -/
def elementAt? (doc : Document) (i : Nat) : Option (Tag × List Node) :=
  (Node.elementsOf doc.nodes)[i]?

/-- Change the tag at a position; beyond the last element nothing happens. -/
def modifyTagAt (doc : Document) (i : Nat) (f : Tag → Tag) : Document :=
  ⟨Node.mapTagsFromOf (fun j tag => if j = i then f tag else tag) 0 doc.nodes⟩

end Document

end SvgPress
