import SvgPress.Json.Decoder
import SvgPress.Pass.Basic

/-!
The configuration as users write it. Every member may be left out or be null.
-/

namespace SvgPress

open Json

/-- One entry of the list of passes: a pass known by name, or the file of a declared one. With
both, the file counts and the name is only a label. -/
structure PassSpec where
  name : Option String := none
  path : Option String := none
  enabled : Bool := true
  params : Option Params := none
  deriving Repr, Inhabited

namespace PassSpec

/-- What the entry is called in messages. -/
def label (spec : PassSpec) : String :=
  (spec.name.or spec.path).getD "<unnamed>"

def fields : List (RecordField PassSpec) :=
  [{ names := ["name"],
     read := (Decoder.optional Decoder.string).map fun v s => { s with name := v },
     optionalInArray := true },
    { names := ["path"],
      read := (Decoder.optional Decoder.string).map fun v s => { s with path := v },
      optionalInArray := true },
    { names := ["enabled"],
      read := Decoder.bool.map fun v s => { s with enabled := v },
      optionalInArray := true },
    { names := ["params"],
      read := (Decoder.optional Decoder.object).map fun v s => { s with params := v },
      optionalInArray := true }]

def decoder : Decoder PassSpec :=
  Decoder.record fields {}

/-- The entry as JSON; absent parts are left out. -/
def toJson (spec : PassSpec) : Value :=
  .object <|
    [("enabled", .bool spec.enabled)] ++ (spec.name.map fun s => ("name", .string s)).toList ++
      (spec.params.map fun o => ("params", .object o)).toList ++
      (spec.path.map fun s => ("path", .string s)).toList

end PassSpec

/-- The configuration before defaults are filled in. -/
structure RawConfig where
  enabled : Option Bool := none
  full : Option Bool := none
  /-- A number or a text that holds one. -/
  floatPrecision : Option Value := none
  prettyOutput : Option Bool := none
  indent : Option Nat := none
  multipass : Option Bool := none
  maxPasses : Option Nat := none
  plugins : Option (List PassSpec) := none
  debug : Option Bool := none
  fileTimeoutMs : Option Nat := none
  pluginsDir : Option String := none
  outputFileName : Option String := none
  componentExtension : Option String := none
  deriving Repr

namespace RawConfig

/-- A field that may be null. -/
def field {α : Type} (names : List String) (d : Decoder α)
    (set : Option α → RawConfig → RawConfig) : RecordField RawConfig where
  names := names
  read := (Decoder.optional d).map set

def fields : List (RecordField RawConfig) :=
  [field ["enabled"] Decoder.bool fun v c => { c with enabled := v },
    field ["full"] Decoder.bool fun v c => { c with full := v },
    field ["floatPrecision"] Decoder.value fun v c => { c with floatPrecision := v },
    field ["prettyOutput", "pretty"] Decoder.bool fun v c => { c with prettyOutput := v },
    field ["indent"] Decoder.natural fun v c => { c with indent := v },
    field ["multipass"] Decoder.bool fun v c => { c with multipass := v },
    field ["maxPasses"] Decoder.natural fun v c => { c with maxPasses := v },
    field ["plugins"] (Decoder.array PassSpec.decoder) fun v c => { c with plugins := v },
    field ["debug"] Decoder.bool fun v c => { c with debug := v },
    field ["fileTimeoutMs"] Decoder.natural fun v c => { c with fileTimeoutMs := v },
    field ["pluginsDir"] Decoder.string fun v c => { c with pluginsDir := v },
    field ["outputFileName"] Decoder.string fun v c => { c with outputFileName := v },
    field ["componentExtension"] Decoder.string fun v c => { c with componentExtension := v }]

def decoder : Decoder RawConfig :=
  Decoder.record fields {}

end RawConfig

end SvgPress
