import SvgPress.Pass.Basic

/-!
Groups that can be dissolved. One without attributes gives its children to what is around it; one
around a single element hands its attributes down, if none of them means something else there.
Groups are dissolved from the inside out, and the root element stays.
-/

namespace SvgPress.Groups

/-- Attributes that belong to a group as a whole and cannot be handed to its only child. -/
def pinned : List String :=
  ["id", "class", "style", "clip-path", "mask", "filter"]

/-- Whether the attributes of a group can be handed to an element. A transform can always be
combined; any other attribute must be missing there. -/
def canHandDown (group : Attributes) (child : Tag) : Bool :=
  !group.any fun a =>
    pinned.contains a.name || (a.name != "transform" && child.hasAttribute a.name)

/-- An element with one more attribute from the group around it. The outer transform is applied
last, so it is written first. -/
def handDown (child : Tag) (a : Attribute) : Tag :=
  if a.name = "transform" then
    match child.attribute? "transform" with
    | some own => child.setAttribute "transform" (a.value ++ " " ++ own)
    | none => child.setAttribute "transform" a.value
  else child.setAttribute a.name a.value

/-- What stands in the place of an element once its children are as they should be. -/
def dissolve (tag : Tag) (children : List Node) : List Node :=
  if tag.name != "g" then [.element tag children]
  else if tag.attributes.isEmpty then children
  else
    match children with
    | [.element child below] =>
      if canHandDown tag.attributes child then
        [.element (tag.attributes.foldl handDown child) below]
      else [.element tag children]
    | _ => [.element tag children]

mutual

/-- What stands in the place of a node once the groups in it and the node itself are dissolved. -/
def collapse : Node → List Node
  | .element tag children => dissolve tag (collapseAll children)
  | .leaf kind content => [.leaf kind content]
termination_by structural n => n

def collapseAll : List Node → List Node
  | [] => []
  | n :: rest => collapse n ++ collapseAll rest
termination_by structural ns => ns

end

def collapseGroups : Pass :=
  .always "collapseGroups" "collapses useless groups"
    (·.mapRoot fun tag children => .element tag (collapseAll children))

end SvgPress.Groups
