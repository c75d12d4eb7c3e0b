import SvgPress.Json.Printer
import SvgPress.Markup.Node

/-!
Passes over documents. A pass has a name, declares its parameters with their defaults, and maps a
document to a document or refuses its parameters. Every parameter is read before the document is
touched, so a pass that fails has changed nothing.
-/

namespace SvgPress

/-- The parameters of a pass: option name to value. -/
abbrev Params := Json.Object

/-- Why a pass failed. -/
inductive PassFault where
  | invalidParam (name reason : String)
  | missingParam (name : String)
  | failed (text : String)
  deriving DecidableEq, Repr

def PassFault.message : PassFault → String
  | .invalidParam name reason => "invalid value for param `" ++ name ++ "`: " ++ reason
  | .missingParam name => "missing param `" ++ name ++ "`"
  | .failed text => text

/-- A named transformation. `defaults` is absent for a pass without parameters. -/
structure Pass where
  name : String
  description : String := ""
  defaults : Option Params := none
  apply : Params → Document → Except PassFault Document

/-- A pass without parameters, which cannot fail. -/
def Pass.always (name description : String) (f : Document → Document) : Pass where
  name := name
  description := description
  apply := fun _ doc => .ok (f doc)

namespace Params

/-- A complaint about the value of a parameter that is of another type than expected. -/
def unexpected {α : Type} (name expected : String) (value : Json.Value) : Except PassFault α :=
  .error (.invalidParam name ("expected " ++ expected ++ ", got " ++ value.compact))

/-- A truth value. Where the parameter is absent or null, the default stands for it; so it does
for the other readers. -/
def bool (params : Params) (name : String) (default : Bool) : Except PassFault Bool :=
  match params.get? name with
  | none => .ok default
  | some .null => .ok default
  | some (.bool b) => .ok b
  | some value => unexpected name "boolean" value

/-- A natural number. -/
def natural (params : Params) (name : String) (default : Nat) : Except PassFault Nat :=
  match params.get? name with
  | none => .ok default
  | some .null => .ok default
  | some (.number n) =>
    match n.toNat? with
    | some n => .ok n
    | none => unexpected name "non-negative integer" (.number n)
  | some value => unexpected name "integer" value

/-- A text. -/
def text (params : Params) (name : String) (default : String) : Except PassFault String :=
  match params.get? name with
  | none => .ok default
  | some .null => .ok default
  | some (.string s) => .ok s
  | some value => unexpected name "string" value

/-- A list of texts, empty by default; a single text is a list of one. -/
def texts (params : Params) (name : String) : Except PassFault (List String) :=
  match params.get? name with
  | none => .ok []
  | some .null => .ok []
  | some (.string s) => .ok [s]
  | some (.array items) =>
    items.mapM fun
      | .string s => .ok s
      | value => unexpected name "string item" value
  | some value => unexpected name "list" value

end Params

end SvgPress
