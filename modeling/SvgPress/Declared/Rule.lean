import SvgPress.Pass.Basic
import SvgPress.Text.Pattern

/-!
Passes made of rules. A rule drops elements, drops attributes or sets attributes; a value that
starts with a dollar sign stands for a parameter. Rules are applied one after the other, and a rule
whose parameter is missing changes nothing and ends the pass.
-/

namespace SvgPress

inductive Rule where
  /-- Drop all elements of these names. -/
  | removeElements (names : List String)
  /-- Drop all attributes whose names match a pattern. -/
  | removeAttributes (patterns : List Text.Pattern)
  /-- Set attributes on all elements of a name, or on the root element if no name is given. -/
  | setAttributes (element : Option String) (attributes : List (String × String))
  deriving Repr

namespace Rule

/-- The value that a written value stands for. A parameter that is no text stands for its JSON
text. -/
def substitute (params : Params) (written : String) : Except PassFault String :=
  match Text.dropPrefix? written "$" with
  | none => .ok written
  | some key =>
    match params.get? key with
    | some (.string s) => .ok s
    | some .null => .error (.missingParam key)
    | some value => .ok value.compact
    | none => .error (.missingParam key)

/-- A tag with attributes set in turn. -/
def setAll (attributes : List (String × String)) (tag : Tag) : Tag :=
  attributes.foldl (fun tag (name, value) => tag.setAttribute name value) tag

def apply (params : Params) (doc : Document) : Rule → Except PassFault Document
  | .removeElements names =>
    .ok <| doc.prune fun
      | .element tag _ => !names.contains tag.name
      | .leaf .. => true
  | .removeAttributes patterns =>
    .ok <| doc.mapTags (·.keepAttributes fun a => !patterns.any (·.matchesIn a.name))
  | .setAttributes element attributes => do
    let values ← attributes.mapM fun (name, written) => do
      return (name, ← substitute params written)
    match element with
    | some name => return doc.mapTags fun tag => if tag.name = name then setAll values tag else tag
    | none => return doc.mapRoot fun tag children => .element (setAll values tag) children

end Rule

/-- A pass that was read from a file. -/
structure DeclaredPass where
  name : String
  description : String
  defaults : Option Params
  rules : List Rule
  deriving Repr

namespace DeclaredPass

/-- Apply rules in order up to the first that fails: the document after the rules before it, and
why it failed. -/
def runRules (params : Params) : List Rule → Document → Document × Option PassFault
  | [], doc => (doc, none)
  | rule :: rules, doc =>
    match rule.apply params doc with
    | .ok doc => runRules params rules doc
    | .error fault => (doc, some fault)

def run (pass : DeclaredPass) (params : Params) (doc : Document) : Document × Option PassFault :=
  runRules params pass.rules doc

def toPass (pass : DeclaredPass) : Pass where
  name := pass.name
  description := pass.description
  defaults := pass.defaults
  apply := fun params doc =>
    match pass.run params doc with
    | (doc, none) => .ok doc
    | (_, some fault) => .error fault

end DeclaredPass

end SvgPress
