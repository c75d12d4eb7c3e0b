import SvgPress.Declared.Declaration
import SvgPress.Declared.Rule
import SvgPress.Naming
import SvgPress.Storage.FileTree
import SvgPress.Text.Pattern.Parser
import SvgPress.Version.Requirement

/-!
Loading a declared pass from its file. Everything is checked here; afterwards only a missing
parameter can make the pass fail.
-/

namespace SvgPress

/-- Why a file gives no pass. -/
inductive LoadFault where
  | unreadable (path : Path) (fault : FileFault)
  | badJson (path : Path) (fault : Json.Fault)
  | paramsShape (path : Path)
  | badPattern (path : Path) (pattern : String)
  | badRequirement (path : Path) (requirement : String)
  | versionMismatch (name requirement : String)
  | unnamed (path : Path)
  deriving DecidableEq, Repr

def LoadFault.message : LoadFault → String
  | .unreadable path fault => "Failed to read plugin " ++ path.text ++ ": " ++ fault.message
  | .badJson path fault => "Invalid plugin " ++ path.text ++ ": " ++ fault.message
  | .paramsShape path => "Plugin " ++ path.text ++ ": `params` must be an object"
  | .badPattern path pattern =>
    "Plugin " ++ path.text ++ ": invalid pattern `" ++ pattern ++ "`: " ++
      Text.Pattern.complaint pattern
  | .badRequirement path requirement =>
    "Plugin " ++ path.text ++ ": invalid engine requirement `" ++ requirement ++ "`"
  | .versionMismatch name requirement =>
    "Plugin " ++ name ++ " requires engine " ++ requirement ++ ", current is " ++
      Version.current.text
  | .unnamed path => "Plugin " ++ path.text ++ " has no name"

namespace DeclaredPass

/-- The name of a pass: the declared one, or that of its file if it is blank or missing. -/
def nameOf (path : Path) (d : Declaration) : Except LoadFault String :=
  let name :=
    match d.name with
    | some name => if Text.isBlankText name then Naming.baseName path else name
    | none => Naming.baseName path
  if name.isEmpty then .error (.unnamed path) else .ok name

/-- Whether this version of the library may run the pass. -/
def checkEngine (path : Path) (name : String) : Option String → Except LoadFault Unit
  | none => .ok ()
  | some written =>
    match Version.Requirement.parse? written with
    | none => .error (.badRequirement path written)
    | some requirement =>
      if requirement.meets Version.current then .ok () else .error (.versionMismatch name written)

def paramsOf (path : Path) : Option Json.Value → Except LoadFault (Option Params)
  | none => .ok none
  | some (.object params) => .ok (some params)
  | some _ => .error (.paramsShape path)

/-- A rule with its patterns read. -/
def ruleOf (engine : Text.Pattern.Engine) (path : Path) : RuleSpec → Except LoadFault Rule
  | .removeElements names => .ok (.removeElements names)
  | .removeAttributes patterns => do
    let patterns ← patterns.mapM fun written =>
      match Text.Pattern.parseWhole? engine written with
      | some p => .ok p
      | none => .error (.badPattern path written)
    return .removeAttributes patterns
  | .setAttributes element attributes => .ok (.setAttributes element attributes)

/-- The pass that a declaration describes. -/
def ofDeclaration (path : Path) (d : Declaration) : Except LoadFault DeclaredPass := do
  let name ← nameOf path d
  checkEngine path name d.engine
  let defaults ← paramsOf path d.params
  let rules ← d.rules.mapM (ruleOf .standard path)
  return ⟨name, d.description, defaults, rules⟩

def load (files : Files) (path : Path) : Except LoadFault DeclaredPass :=
  match files.read path with
  | .error fault => .error (.unreadable path fault)
  | .ok text =>
    match Json.decode Declaration.decoder text with
    | .error fault => .error (.badJson path fault)
    | .ok d => ofDeclaration path d

end DeclaredPass

end SvgPress
