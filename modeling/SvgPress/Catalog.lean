import SvgPress.Config.Basic
import SvgPress.Declared.Load
import SvgPress.Pass.Builtin

/-!
The passes that are known by name, and the list of passes that a configuration asks for. Each
entry of the configuration that is enabled and can be found gives one step, in order.
-/

namespace SvgPress

/-- Passes by name; no two have the same. -/
structure Catalog where
  passes : List Pass

namespace Catalog

def empty : Catalog :=
  ⟨[]⟩

/-- Add a pass, in place of any other of that name. -/
def register (catalog : Catalog) (pass : Pass) : Catalog :=
  ⟨catalog.passes.filter (·.name != pass.name) ++ [pass]⟩

/-- The passes that come with the library. -/
def builtin : Catalog :=
  Pass.builtin.foldl register empty

def find? (catalog : Catalog) (name : String) : Option Pass :=
  catalog.passes.find? (·.name == name)

/-- All passes in order of their names. -/
def list (catalog : Catalog) : List Pass :=
  catalog.passes.mergeSort fun a b => decide (a.name ≤ b.name)

/-- Where the file of a declared pass is. -/
def filePath (dir : Option Path) (path : String) : Path :=
  match dir with
  | some dir => dir.join ⟨path⟩
  | none => ⟨path⟩

/-- The pass that an entry of the configuration refers to. A file that gives no pass is
reported. -/
def lookup (catalog : Catalog) (files : Files) (dir : Option Path) (spec : PassSpec) :
    Logged (Option Pass) :=
  match spec.path with
  | some path =>
    match DeclaredPass.load files (filePath dir path) with
    | .ok pass => return some pass.toPass
    | .error fault => do
      Logged.note (.passFileRefused (filePath dir path).text fault.message)
      return none
  | none => return spec.name.bind catalog.find?

end Catalog

/-- One step of a run: a pass with the parameters that it gets. -/
structure Step where
  /-- What the configuration calls it. -/
  label : String
  /-- The pass's own name. -/
  name : String
  params : Option Params
  active : Bool
  pass : Pass

namespace Step

/-- A step that runs a pass with its default parameters. -/
def ofPass (label : String) (active : Bool) (pass : Pass) : Step :=
  ⟨label, pass.name, pass.defaults, active, pass⟩

def param? (step : Step) (name : String) : Option Json.Value :=
  step.params.bind (·.get? name)

def setParam (step : Step) (name : String) (value : Json.Value) : Step :=
  { step with params := some ((step.params.getD []).put name value) }

def apply (step : Step) (doc : Document) : Except PassFault Document :=
  step.pass.apply (step.params.getD []) doc

def toJson (step : Step) : Json.Value :=
  .object
    [("active", .bool step.active), ("name", .string step.name),
      ("params", .ofOption .object step.params), ("pluginName", .string step.label)]

end Step

namespace Config

/-- Default parameters under the configuration: its precision replaces that of a pass which has
one. -/
def defaultsUnder (config : Config) (defaults : Params) : Params :=
  match config.floatPrecision with
  | some n =>
    if defaults.has "floatPrecision" then defaults.put "floatPrecision" (.ofNat n) else defaults
  | none => defaults

/-- The parameters of an entry laid over those of its pass. -/
def paramsFor (config : Config) (spec : PassSpec) (pass : Pass) : Logged (Option Params) := do
  let defaults := pass.defaults.map config.defaultsUnder
  if let some params := defaults then
    Logged.note (.defaultParams spec.label (Json.Value.object params).compact)
  match spec.params with
  | none => return defaults
  | some own =>
    let params := (defaults.getD []).merge own
    Logged.note (.effectiveParams spec.label (Json.Value.object params).compact)
    return some params

/-- The step for one entry, if it is enabled and its pass is known. -/
def stepFor? (config : Config) (catalog : Catalog) (files : Files) (spec : PassSpec) :
    Logged (Option Step) := do
  if !spec.enabled then return none
  match ← catalog.lookup files config.pluginsDir spec with
  | none =>
    Logged.note (.passMissing spec.label)
    return none
  | some pass =>
    Logged.note (.passEnabled spec.label)
    let params ← config.paramsFor spec pass
    return some ⟨spec.label, pass.name, params, true, pass⟩

/-- The steps that the configuration asks for. -/
def steps (config : Config) (catalog : Catalog) (files : Files) : Logged (List Step) :=
  go config.plugins
where
  go : List PassSpec → Logged (List Step)
    | [] => return []
    | spec :: specs => do
      let step ← config.stepFor? catalog files spec
      return step.toList ++ (← go specs)

end Config

end SvgPress
