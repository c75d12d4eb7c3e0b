/-!
What the library has to say while it works. An entry names what happened; its level, wording and
fields follow from that.
-/

namespace SvgPress.Log

inductive Level where
  | debug
  | info
  | warning
  | error
  deriving DecidableEq, Repr

inductive Entry where
  /-- A precision in the configuration is no natural number. -/
  | precisionIgnored (value : String)
  /-- The configuration asks for no pass over the document at all. -/
  | passCountRaised
  | noPasses (config : String)
  | passMissing (label : String)
  | passEnabled (label : String)
  | defaultParams (label params : String)
  | effectiveParams (label params : String)
  | passFileRefused (path reason : String)
  | prefixSet (file value : String)
  | limitReached (passes : Nat)
  | batchStarted (files : Nat)
  | fileSkipped (file reason : String)
  | batchFinished (processed failed before after : Nat)
  | componentRenamed (file name : String)
  | exportDisabled
  | nothingToExport
  | exportStarted (files : Nat)
  | moduleWritten (path : String) (components : Nat)
  /-- A status line for the user. -/
  | status (text : String)
  deriving DecidableEq, Repr

namespace Entry

def level : Entry → Level
  | precisionIgnored _ => .warning
  | passCountRaised => .warning
  | noPasses _ => .warning
  | passMissing _ => .warning
  | passEnabled _ => .debug
  | defaultParams .. => .debug
  | effectiveParams .. => .debug
  | passFileRefused .. => .error
  | prefixSet .. => .debug
  | limitReached _ => .warning
  | batchStarted _ => .info
  | fileSkipped .. => .error
  | batchFinished .. => .info
  | componentRenamed .. => .warning
  | exportDisabled => .debug
  | nothingToExport => .debug
  | exportStarted _ => .debug
  | moduleWritten .. => .info
  | status _ => .info

def message : Entry → String
  | precisionIgnored _ => "ignoring floatPrecision: expected a non-negative integer"
  | passCountRaised => "maxPasses must be at least 1, using 1"
  | noPasses _ => "no plugins configured"
  | passMissing _ => "Plugin not found"
  | passEnabled _ => "Enabled plugin"
  | defaultParams .. => "default params"
  | effectiveParams .. => "resulting params"
  | passFileRefused .. => "failed to load external plugin"
  | prefixSet .. => "Setting cleanupIDs prefix"
  | limitReached _ => "multipass stopped at iteration limit before converging"
  | batchStarted _ => "processing batch"
  | fileSkipped .. => "file skipped"
  | batchFinished .. => "batch finished"
  | componentRenamed .. => "component name already used in this directory, renamed"
  | exportDisabled => "compression disabled by config"
  | nothingToExport => "no svg exports"
  | exportStarted _ => "Let's go"
  | moduleWritten .. => "module written"
  | status text => text

def fields : Entry → List (String × String)
  | precisionIgnored value => [("value", value)]
  | passCountRaised => []
  | noPasses config => [("path", config)]
  | passMissing label => [("plugin", label)]
  | passEnabled label => [("plugin", label)]
  | defaultParams label params => [("plugin", label), ("params", params)]
  | effectiveParams label params => [("plugin", label), ("params", params)]
  | passFileRefused path reason => [("path", path), ("error", reason)]
  | prefixSet file value => [("file", file), ("prefix", value)]
  | limitReached passes => [("passes", toString passes)]
  | batchStarted files => [("files", toString files)]
  | fileSkipped file reason => [("file", file), ("error", reason)]
  | batchFinished processed failed before after =>
    [("processed", toString processed), ("failed", toString failed),
      ("original", toString before), ("compressed", toString after)]
  | componentRenamed file name => [("file", file), ("name", name)]
  | exportDisabled => []
  | nothingToExport => []
  | exportStarted files => [("files", toString files)]
  | moduleWritten path components => [("path", path), ("components", toString components)]
  | status _ => []

end Entry

end SvgPress.Log

namespace SvgPress

/-- A result with the entries that were made on the way to it, in order. -/
structure Logged (α : Type) where
  value : α
  log : List Log.Entry
  deriving Repr

namespace Logged

def note (entry : Log.Entry) : Logged Unit :=
  ⟨(), [entry]⟩

instance : Monad Logged where
  pure a := ⟨a, []⟩
  bind x f := ⟨(f x.value).value, x.log ++ (f x.value).log⟩

end Logged

end SvgPress
