import SvgPress.Hash.Sha256
import SvgPress.Jsx.Component
import SvgPress.Pipeline

/-!
Many files at once. Each file is a task of its own, tasks may end in any order, and a task that
never ends counts as a failure; the result is in the order of the input all the same.
-/

namespace SvgPress

/-- A file that was processed. Sizes are in bytes. -/
structure FileOutput where
  path : Path
  directory : Path
  componentName : String
  sourceSize : Nat
  compressedSize : Nat
  contentHash : String
  outcome : Outcome
  markup : String
  jsx : String
  deriving DecidableEq, Repr

namespace FileOutput

def toJson (file : FileOutput) : Json.Value :=
  .object
    [("path", .string file.path.text), ("directory", .string file.directory.text),
      ("componentName", .string file.componentName), ("originalSize", .ofNat file.sourceSize),
      ("compressedSize", .ofNat file.compressedSize), ("contentHash", .string file.contentHash),
      ("passes", file.outcome.toJson)]

end FileOutput

def FileFailure.toJson (failure : FileFailure) : Json.Value :=
  .object [("path", .string failure.path.text), ("message", .string failure.message)]

/-- How a task ended. -/
abbrev FileResult := Except FileFailure FileOutput

/-- Turns markup into the body of a component. -/
abbrev Converter := String → Except Jsx.ConvertFault String

/-- What becomes of the text of one file. -/
def Optimizer.process (optimizer : Optimizer) (convert : Converter) (path : Path)
    (source : String) : Logged FileResult := do
  match ← optimizer.optimize path source with
  | .error failure => return .error failure
  | .ok optimized =>
    match convert optimized.markup with
    | .error fault => return .error (.unconvertible path fault)
    | .ok jsx =>
      return .ok {
        path := path
        directory := path.parent?.getD ⟨""⟩
        componentName := Naming.componentName path
        sourceSize := source.utf8ByteSize
        compressedSize := optimized.markup.utf8ByteSize
        contentHash := Sha256.fingerprint optimized.markup
        outcome := optimized.outcome
        markup := optimized.markup
        jsx := jsx }

/-- The task for one file. It keeps a log of its own, because it does not run where the batch
does. -/
def Optimizer.task (optimizer : Optimizer) (convert : Converter) (files : Files) (path : Path) :
    Logged FileResult :=
  match files.read path with
  | .error fault => return .error (.unreadable path fault)
  | .ok source => optimizer.process convert path source

/-- The result of a batch: what was processed and what failed, each in the order of the input. -/
structure Batch where
  files : List FileOutput
  failures : List FileFailure
  sourceTotal : Nat
  compressedTotal : Nat
  deriving DecidableEq, Repr

/-- When a batch began and ended. -/
structure Clock where
  started : String
  finished : String
  deriving DecidableEq, Repr

namespace Batch

def empty : Batch :=
  ⟨[], [], 0, 0⟩

/-- The results of `count` tasks by index, from the order in which they came in. A task that is
not among them has none. -/
def slots {α : Type} (count : Nat) (settled : List (Nat × α)) : List (Option α) :=
  settled.foldl (fun slots (i, a) => slots.set i (some a)) (List.replicate count none)

/-- A batch with one more result. A failure is reported. -/
def add (batch : Batch) (path : Path) (result : Option FileResult) : Logged Batch :=
  match result.getD (.error (.aborted path "task panicked or was cancelled")) with
  | .ok file =>
    return { batch with
      files := batch.files ++ [file]
      sourceTotal := batch.sourceTotal + file.sourceSize
      compressedTotal := batch.compressedTotal + file.compressedSize }
  | .error failure => do
    Logged.note (.fileSkipped path.text failure.message)
    return { batch with failures := batch.failures ++ [failure] }

/-- All results of a batch added in the order of the input. -/
def addAll (batch : Batch) : List (Path × Option FileResult) → Logged Batch
  | [] => return batch
  | (path, result) :: rest => do (← batch.add path result).addAll rest

/-- The batch that results from what the tasks for some paths left. -/
def reduce (paths : List Path) (slots : List (Option FileResult)) : Logged Batch := do
  let batch ← empty.addAll (paths.zip slots)
  Logged.note (.batchFinished batch.files.length batch.failures.length batch.sourceTotal
    batch.compressedTotal)
  return batch

/-- Process files. The tasks are independent of one another, so it does not matter that they are
run one after the other here. -/
def process (optimizer : Optimizer) (convert : Converter) (files : Files) (paths : List Path) :
    Logged Batch := do
  Logged.note (.batchStarted paths.length)
  let settled := paths.zipIdx.map fun (path, i) => (i, (optimizer.task convert files path).value)
  reduce paths (slots paths.length settled)

/-- How much smaller the files became, in percent of what they were. -/
def savedPercent (batch : Batch) : Binary64 :=
  if batch.sourceTotal = 0 then .zero false
  else
    let whole := Binary64.ofNat batch.sourceTotal
    ((whole.sub (.ofNat batch.compressedTotal)).div whole).mul (.ofNat 100)

/-- The batch as JSON, its times where a clock is given. -/
def toJson (clock : Option Clock) (batch : Batch) : Json.Value :=
  .object <|
    [("files", .array (batch.files.map FileOutput.toJson)),
      ("failures", .array (batch.failures.map FileFailure.toJson)),
      ("originalTotalSize", .ofNat batch.sourceTotal),
      ("compressedTotalSize", .ofNat batch.compressedTotal)] ++
    match clock with
    | some clock =>
      [("startedAt", .string clock.started), ("finishedAt", .string clock.finished)]
    | none => []

end Batch

/-- The components of one directory. -/
structure Module where
  directory : Path
  components : List Jsx.Component
  deriving DecidableEq, Repr

namespace Module

def names (m : Module) : List String :=
  m.components.map (·.name)

def render (m : Module) : String :=
  Jsx.renderModule m.components

/-- The first of a name with the numbers from `n` on that is not taken. Names with different
numbers differ, so it suffices to try as many as are taken, and one more. -/
def numberedName (taken : List String) (name : String) : (tries n : Nat) → String
  | 0, n => name ++ toString n
  | tries + 1, n =>
    if taken.contains (name ++ toString n) then numberedName taken name tries (n + 1)
    else name ++ toString n

/-- The name itself if it is free, else the name with the smallest number from two on that makes
it so. -/
def freeName (taken : List String) (name : String) : String :=
  if taken.contains name then numberedName taken name taken.length 2 else name

/-- A module with one more component, under a name that is free. -/
def add (m : Module) (file : FileOutput) : Logged Module := do
  let name := freeName m.names file.componentName
  if name != file.componentName then Logged.note (.componentRenamed file.path.text name)
  return { m with components := m.components ++ [.ofJsx name file.jsx] }

/-- Modules with one more component, in the module for its directory. A new directory comes
last. -/
def place (file : FileOutput) : List Module → Logged (List Module)
  | [] => do return [← (⟨file.directory, []⟩ : Module).add file]
  | m :: rest =>
    if m.directory.same file.directory then do return (← m.add file) :: rest
    else do return m :: (← place file rest)

def placeAll (modules : List Module) : List FileOutput → Logged (List Module)
  | [] => return modules
  | file :: files => do placeAll (← place file modules) files

end Module

/-- The components of a batch by directory, both in the order of the files. -/
def Batch.modules (batch : Batch) : Logged (List Module) :=
  Module.placeAll [] batch.files

end SvgPress
