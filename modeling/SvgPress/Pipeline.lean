import SvgPress.Catalog
import SvgPress.Jsx.Element
import SvgPress.Markup.Assembly

/-!
Running steps over a document until nothing changes any more. Identifiers get a prefix from the name
of the file, so that the drawings of a page do not take names from each other.
-/

namespace SvgPress

/-- How a run ended. -/
inductive Outcome where
  /-- The steps were to run once. -/
  | single
  /-- The last of so many passes changed nothing. -/
  | converged (passes : Nat)
  /-- The document still changed in the last pass that was allowed. -/
  | limitReached (passes : Nat)
  deriving DecidableEq, Repr

namespace Outcome

def passes : Outcome → Nat
  | single => 1
  | converged n => n
  | limitReached n => n

def status : Outcome → String
  | single => "single"
  | converged _ => "converged"
  | limitReached _ => "iterationLimit"

def toJson : Outcome → Json.Value
  | single => .object [("status", .string "single")]
  | converged n => .object [("status", .string "converged"), ("passes", .ofNat n)]
  | limitReached n => .object [("status", .string "iterationLimit"), ("passes", .ofNat n)]

end Outcome

/-- How steps are run and the result is written. -/
structure RunOptions where
  multipass : Bool
  maxPasses : Nat
  layout : Layout
  deriving DecidableEq, Repr

def Config.runOptions (config : Config) : RunOptions :=
  ⟨config.multipass, max 1 config.maxPasses, config.layout⟩

/-- The step that failed, and why. -/
structure RunFault where
  label : String
  fault : PassFault
  deriving DecidableEq, Repr

def RunFault.message (f : RunFault) : String :=
  "Plugin " ++ f.label ++ " failed: " ++ f.fault.message

/-- Markup with the way in which it came about. -/
structure Optimized where
  markup : String
  outcome : Outcome
  deriving DecidableEq, Repr

namespace Pipeline

/-- Apply the active steps in order. -/
def once (steps : List Step) (doc : Document) : Except RunFault Document :=
  (steps.filter (·.active)).foldlM
    (fun doc step => (step.apply doc).mapError fun fault => ⟨step.label, fault⟩) doc

/-- Apply a function until it changes nothing, at most `left` times; `done` counts the applications
so far. -/
def converge {ε : Type} (f : Document → Except ε Document) :
    (left done : Nat) → Document → Except ε (Document × Outcome)
  | 0, done, doc => .ok (doc, .limitReached done)
  | left + 1, done, doc => do
    let next ← f doc
    if next = doc then .ok (next, .converged (done + 1))
    else converge f left (done + 1) next

/-- Run steps as the options say; at least one pass is made. -/
def settle (steps : List Step) (options : RunOptions) (doc : Document) :
    Except RunFault (Document × Outcome) :=
  if options.multipass then converge (once steps) (max 1 options.maxPasses) 0 doc
  else (once steps doc).map fun doc => (doc, .single)

/-- Run steps and write the result. A document that did not settle is reported. -/
def run (steps : List Step) (options : RunOptions) (doc : Document) :
    Logged (Except RunFault Optimized) := do
  match settle steps options doc with
  | .error fault => return .error fault
  | .ok (doc, outcome) =>
    if let .limitReached passes := outcome then Logged.note (.limitReached passes)
    return .ok ⟨doc.write options.layout, outcome⟩

/-- The name of the pass whose prefix follows from the file. -/
def prefixed : String :=
  "cleanupIDs"

/-- One step made ready for a file. -/
def stepForFile (path : Path) (step : Step) : Logged Step := do
  if step.name = prefixed then
    let value := Naming.idPrefix path
    Logged.note (.prefixSet path.text value)
    return step.setParam "prefix" (.string value)
  else return step

/-- Steps made ready for a file. -/
def stepsForFile (steps : List Step) (path : Path) : Logged (List Step) :=
  match steps with
  | [] => return []
  | step :: rest => do
    let step ← stepForFile path step
    return step :: (← stepsForFile rest path)

end Pipeline

/-- Why a file gives no component. -/
inductive FileFailure where
  | unreadable (path : Path) (fault : FileFault)
  | unparsable (path : Path) (fault : ParseFault)
  | passFailed (path : Path) (fault : RunFault)
  | unconvertible (path : Path) (fault : Jsx.ConvertFault)
  | timedOut (path : Path) (milliseconds : Nat)
  /-- The task that works on the file never gave a result. -/
  | aborted (path : Path) (reason : String)
  deriving DecidableEq, Repr

namespace FileFailure

def path : FileFailure → Path
  | unreadable path _ => path
  | unparsable path _ => path
  | passFailed path _ => path
  | unconvertible path _ => path
  | timedOut path _ => path
  | aborted path _ => path

def message : FileFailure → String
  | unreadable path fault => "Failed to read " ++ path.text ++ ": " ++ fault.message
  | unparsable path fault => "Failed to parse " ++ path.text ++ ": " ++ fault.message
  | passFailed path fault =>
    "Plugin " ++ fault.label ++ " failed on " ++ path.text ++ ": " ++ fault.fault.message
  | unconvertible path fault =>
    "Failed to convert " ++ path.text ++ " to a component: " ++ fault.message
  | timedOut path milliseconds =>
    "Timed out after " ++ toString milliseconds ++ "ms processing " ++ path.text
  | aborted path reason => "Task processing " ++ path.text ++ " aborted: " ++ reason

end FileFailure

/-- The steps of a configuration, ready for any number of files. -/
structure Optimizer where
  steps : List Step
  options : RunOptions

namespace Optimizer

def ofConfig (config : Config) (catalog : Catalog) (files : Files) : Logged Optimizer := do
  return ⟨← config.steps catalog files, config.runOptions⟩

/-- Optimize the text of one file. -/
def optimize (optimizer : Optimizer) (path : Path) (source : String) :
    Logged (Except FileFailure Optimized) := do
  let steps ← Pipeline.stepsForFile optimizer.steps path
  match Document.parse source with
  | .error fault => return .error (.unparsable path fault)
  | .ok doc =>
    match ← Pipeline.run steps optimizer.options doc with
    | .error fault => return .error (.passFailed path fault)
    | .ok optimized => return .ok optimized

end Optimizer

end SvgPress
