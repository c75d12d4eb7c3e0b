/-!
The tree of a markup document: tags with their attributes, elements with their children, and the
leaves between them. Passes see a document through two views, the tags in document order and the
nodes that a test keeps.
-/

namespace SvgPress

/-- One attribute with its decoded value. -/
structure Attribute where
  name : String
  value : String
  deriving DecidableEq, Repr, Inhabited

/-- The attributes of one element in source order. A name may occur twice in a tree that was built
by hand; every operation then means the first occurrence. -/
abbrev Attributes := List Attribute

namespace Attributes

/-- The value of the first attribute of that name. -/
def get? (attributes : Attributes) (name : String) : Option String :=
  (List.find? (·.name == name) attributes).map (·.value)

def has (attributes : Attributes) (name : String) : Bool :=
  attributes.any (·.name == name)

/-- Replace the value in place, or add the attribute at the end. -/
def set (attributes : Attributes) (name value : String) : Attributes :=
  match attributes with
  | [] => [⟨name, value⟩]
  | a :: rest => if a.name = name then ⟨name, value⟩ :: rest else a :: set rest name value

/-- Without the first attribute of that name. -/
def remove (attributes : Attributes) (name : String) : Attributes :=
  List.eraseP (·.name == name) attributes

end Attributes

/-- What stands between the angle brackets of an element: its name and its attributes. -/
structure Tag where
  name : String
  attributes : Attributes
  deriving DecidableEq, Repr, Inhabited

namespace Tag

def attribute? (tag : Tag) (name : String) : Option String :=
  tag.attributes.get? name

def hasAttribute (tag : Tag) (name : String) : Bool :=
  tag.attributes.has name

def setAttribute (tag : Tag) (name value : String) : Tag :=
  { tag with attributes := tag.attributes.set name value }

def removeAttribute (tag : Tag) (name : String) : Tag :=
  { tag with attributes := tag.attributes.remove name }

/-- Change each attribute's value; names and order stay. -/
def mapValues (tag : Tag) (f : Attribute → String) : Tag :=
  { tag with attributes := tag.attributes.map fun a => { a with value := f a } }

/-- Keep the attributes that pass a test. -/
def keepAttributes (tag : Tag) (keep : Attribute → Bool) : Tag :=
  { tag with attributes := List.filter keep tag.attributes }

end Tag

/-- The kinds of nodes without children. A declaration is the `<?xml ..?>` at the top of a file,
an instruction any other `<?..?>`. -/
inductive LeafKind where
  | text
  | cdata
  | comment
  | declaration
  | instruction
  | doctype
  deriving DecidableEq, Repr, Inhabited

inductive Node where
  | element (tag : Tag) (children : List Node)
  | leaf (kind : LeafKind) (content : String)
  deriving Repr, Inhabited

namespace Node

def isElement : Node → Bool
  | .element .. => true
  | .leaf .. => false

/-- Whether the node is a leaf of the given kind. -/
def isLeaf (kind : LeafKind) : Node → Bool
  | .leaf k _ => k == kind
  | .element .. => false

/-- Whether the node is an element of the given name. -/
def isNamed (name : String) : Node → Bool
  | .element tag _ => tag.name == name
  | .leaf .. => false

/-- The character data of a leaf, empty for every other kind of node. -/
def characterData : Node → String
  | .leaf .text s => s
  | .leaf .cdata s => s
  | _ => ""

mutual

/-- Structural equality as a test. -/
def same : Node → Node → Bool
  | .element tag children, other =>
    match other with
    | .element tag' children' => tag == tag' && sameAll children children'
    | .leaf .. => false
  | .leaf kind content, other =>
    match other with
    | .leaf kind' content' => kind == kind' && content == content'
    | .element .. => false
termination_by structural n => n

def sameAll : List Node → List Node → Bool
  | [], ns => ns.isEmpty
  | n :: rest, ns =>
    match ns with
    | n' :: rest' => n.same n' && sameAll rest rest'
    | [] => false
termination_by structural ns => ns

end

mutual

theorem same_iff : (a b : Node) → (a.same b = true ↔ a = b)
  | .element tag children, .element tag' children' => by
    simp [same, sameAll_iff children children']
  | .element .., .leaf .. => by simp [same]
  | .leaf .., .element .. => by simp [same]
  | .leaf .., .leaf .. => by simp [same]

theorem sameAll_iff : (as bs : List Node) → (sameAll as bs = true ↔ as = bs)
  | [], bs => by cases bs <;> simp [sameAll]
  | a :: as, [] => by simp [sameAll]
  | a :: as, b :: bs => by simp [sameAll, same_iff a b, sameAll_iff as bs]

end

instance : DecidableEq Node := fun a b =>
  decidable_of_iff (a.same b = true) (same_iff a b)

mutual

/-- The tags of a node and its descendants, in document order. -/
def tags : Node → List Tag
  | .element tag children => tag :: tagsOf children
  | .leaf .. => []
termination_by structural n => n

def tagsOf : List Node → List Tag
  | [] => []
  | n :: rest => n.tags ++ tagsOf rest
termination_by structural ns => ns

end

mutual

/-- Change every tag of a node and its descendants. -/
def mapTags (f : Tag → Tag) : Node → Node
  | .element tag children => .element (f tag) (mapTagsOf f children)
  | .leaf kind content => .leaf kind content
termination_by structural n => n

def mapTagsOf (f : Tag → Tag) : List Node → List Node
  | [] => []
  | n :: rest => n.mapTags f :: mapTagsOf f rest
termination_by structural ns => ns

end

mutual

/-- Keep among the descendants of a node those that pass a test, together with all that contains
them. A node is tested as it was before anything below it went. -/
def prune (keep : Node → Bool) : Node → Node
  | .element tag children => .element tag (pruneAll keep children)
  | .leaf kind content => .leaf kind content
termination_by structural n => n

def pruneAll (keep : Node → Bool) : List Node → List Node
  | [] => []
  | n :: rest => if keep n then n.prune keep :: pruneAll keep rest else pruneAll keep rest
termination_by structural ns => ns

end

end Node

/-- Concatenated character data of the direct children of an element. -/
def textOf (children : List Node) : String :=
  String.join (children.map Node.characterData)

/-- A document: the nodes at top level, among them the root element. -/
structure Document where
  nodes : List Node
  deriving DecidableEq, Repr, Inhabited

namespace Document

/-- The first element at top level, if there is one. -/
def root? (doc : Document) : Option (Tag × List Node) :=
  doc.nodes.findSome? fun
    | .element tag children => some (tag, children)
    | .leaf .. => none

/-- All tags in document order. -/
def tags (doc : Document) : List Tag :=
  Node.tagsOf doc.nodes

def mapTags (doc : Document) (f : Tag → Tag) : Document :=
  ⟨Node.mapTagsOf f doc.nodes⟩

/-- Keep the nodes that pass a test, at every depth. -/
def prune (doc : Document) (keep : Node → Bool) : Document :=
  ⟨Node.pruneAll keep doc.nodes⟩

/-- Change the root element and leave the rest of the document as it is. -/
def mapRoot (doc : Document) (f : Tag → List Node → Node) : Document :=
  ⟨go doc.nodes⟩
where
  go : List Node → List Node
    | [] => []
    | .element tag children :: rest => f tag children :: rest
    | .leaf kind content :: rest => .leaf kind content :: go rest

end Document

end SvgPress
