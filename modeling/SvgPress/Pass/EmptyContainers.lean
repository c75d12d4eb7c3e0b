import SvgPress.Pass.Basic

/-!
Containers with nothing in them. They go from the inside out, so that one which held only empty
containers goes too. The root element stays, whatever it is.
-/

namespace SvgPress.EmptyContainers

/-- The elements that draw nothing by themselves. -/
def containers : List String :=
  ["a", "defs", "g", "glyph", "marker", "mask", "missing-glyph", "pattern", "switch", "symbol"]

/-- Whether an element with these children can go. An empty pattern that takes its content from
another one is of use. -/
def isUseless (tag : Tag) (children : List Node) : Bool :=
  containers.contains tag.name && children.isEmpty &&
    !(tag.name == "pattern" && (tag.hasAttribute "href" || tag.hasAttribute "xlink:href"))

mutual

/-- What becomes of a node: nothing, if it is a container that is empty in the end. -/
def shrink : Node → List Node
  | .element tag children =>
    let kept := shrinkAll children
    if isUseless tag kept then [] else [.element tag kept]
  | .leaf kind content => [.leaf kind content]
termination_by structural n => n

def shrinkAll : List Node → List Node
  | [] => []
  | n :: rest => shrink n ++ shrinkAll rest
termination_by structural ns => ns

end

def removeEmpty : Pass :=
  .always "removeEmptyContainers" "removes empty container elements"
    (·.mapRoot fun tag children => .element tag (shrinkAll children))

end SvgPress.EmptyContainers
