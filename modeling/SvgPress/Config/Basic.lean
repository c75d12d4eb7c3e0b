import SvgPress.Config.Raw
import SvgPress.Log
import SvgPress.Markup.Printer
import SvgPress.Storage.FileTree

/-!
The configuration with all its defaults. Values that cannot be used are dropped with a warning;
only a file that cannot be read, or does not hold a configuration at all, is refused.
-/

namespace SvgPress

open Json

structure Config where
  enabled : Bool
  full : Bool
  floatPrecision : Option Nat
  prettyOutput : Bool
  indent : Nat
  multipass : Bool
  maxPasses : Nat
  plugins : List PassSpec
  debug : Bool
  fileTimeoutMs : Option Nat
  pluginsDir : Option Path
  outputFileName : String
  componentExtension : String
  deriving Repr, Inhabited

/-- Why a configuration or a list of exports cannot be read. -/
inductive ConfigFault where
  | unreadable (path : Path) (fault : FileFault)
  | badJson (path : Path) (fault : Json.Fault)
  deriving DecidableEq, Repr

def ConfigFault.message : ConfigFault → String
  | .unreadable path fault => "Failed to read config " ++ path.text ++ ": " ++ fault.message
  | .badJson path fault => "Invalid config " ++ path.text ++ ": " ++ fault.message

namespace Config

/-- The greatest precision that can be asked for. -/
def maxPrecision : Nat := Nat.pow 2 32 - 1

/-- The number that a value stands for: its own, or the one that a text holds. -/
def numberOf : Value → Option Binary64
  | .number n => some n.toBinary64
  | .string s => Decimal.read? (Text.trimChars s.toList)
  | _ => none

/-- A precision: a whole number that is not negative and not too large. -/
def precision? (value : Value) : Option Nat :=
  match (numberOf value).bind Binary64.toInt? with
  | some (.ofNat n) => if n ≤ maxPrecision then some n else none
  | _ => none

def precisionOf : Option Value → Logged (Option Nat)
  | none => return none
  | some .null => return none
  | some value =>
    match precision? value with
    | some n => return some n
    | none => do
      Logged.note (.precisionIgnored value.compact)
      return none

/-- How often the passes may run; at least once. -/
def passCountOf : Option Nat → Logged Nat
  | none => return 10
  | some 0 => do
    Logged.note .passCountRaised
    return 1
  | some n => return n

/-- Fill in the defaults. -/
def ofRaw (raw : RawConfig) : Logged Config := do
  let floatPrecision ← precisionOf raw.floatPrecision
  let maxPasses ← passCountOf raw.maxPasses
  return {
    enabled := raw.enabled.getD true
    full := raw.full.getD true
    floatPrecision := floatPrecision
    prettyOutput := raw.prettyOutput.getD true
    indent := raw.indent.getD 2
    multipass := raw.multipass.getD true
    maxPasses := maxPasses
    plugins := raw.plugins.getD []
    debug := raw.debug.getD false
    fileTimeoutMs := raw.fileTimeoutMs
    pluginsDir := raw.pluginsDir.map fun text => ⟨text⟩
    outputFileName := raw.outputFileName.getD "index"
    componentExtension := raw.componentExtension.getD "jsx" }

/-- The passes that run where no configuration says otherwise. -/
def defaultPlugins : List PassSpec :=
  (["removeDoctype", "removeXMLProcInst", "removeComments", "removeMetadata",
    "removeEditorsNSData", "cleanupAttrs", "removeTitle", "removeDesc", "removeUselessDefs",
    "removeEmptyAttrs", "cleanupNumericValues", "convertColors", "convertPathData", "cleanupIDs",
    "collapseGroups", "removeEmptyContainers"].map fun name => { name := some name }) ++
  [{ name := some "removeDimensions", enabled := false },
    { name := some "removeAttrs", enabled := false, params := some [("attrs", .array [])] },
    { name := some "sortAttrs", enabled := false }]

def default : Config :=
  (ofRaw { plugins := some defaultPlugins }).value

/-- The configuration that a text holds. -/
def parse (text : String) : Except Fault (Logged Config) :=
  (decode RawConfig.decoder text).map ofRaw

/-- The configuration in a file, or the default one if the file is not there. -/
def read (files : Files) (path : Path) : Except ConfigFault (Logged Config) :=
  if files.has path then
    match files.read path with
    | .error fault => .error (.unreadable path fault)
    | .ok text =>
      match parse text with
      | .error fault => .error (.badJson path fault)
      | .ok config => .ok config
  else .ok (return default)

/-- The directory of declared passes. A relative one is seen from the configuration's own
directory, which is also the default. -/
def pluginsDirFrom (path : Path) (dir : Option Path) : Option Path :=
  match dir, path.parent? with
  | some dir, some base => some (base.join dir)
  | some dir, none => some dir
  | none, base => base

/-- The configuration in a file, ready for use. -/
def load (files : Files) (path : Path) : Except ConfigFault (Logged Config) :=
  (read files path).map fun logged => do
    let config ← logged
    if config.plugins.isEmpty then Logged.note (.noPasses path.text)
    return { config with pluginsDir := pluginsDirFrom path config.pluginsDir }

/-- How markup is laid out. -/
def layout (config : Config) : Layout :=
  ⟨config.prettyOutput, config.indent⟩

/-- The name of the file for the components of one directory. -/
def moduleFileName (config : Config) : String :=
  config.outputFileName ++ "." ++ config.componentExtension

def toJson (config : Config) : Value :=
  .object
    [("componentExtension", .string config.componentExtension),
      ("debug", .bool config.debug),
      ("enabled", .bool config.enabled),
      ("fileTimeoutMs", .ofOption .ofNat config.fileTimeoutMs),
      ("floatPrecision", .ofOption .ofNat config.floatPrecision),
      ("full", .bool config.full),
      ("indent", .ofNat config.indent),
      ("maxPasses", .ofNat config.maxPasses),
      ("multipass", .bool config.multipass),
      ("outputFileName", .string config.outputFileName),
      ("plugins", .array (config.plugins.map PassSpec.toJson)),
      ("pluginsDir", .ofOption (fun (p : Path) => .string p.text) config.pluginsDir),
      ("prettyOutput", .bool config.prettyOutput)]

end Config

end SvgPress
