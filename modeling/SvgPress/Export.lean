import SvgPress.Batch
import SvgPress.Json.Decoder

/-!
An export: the files that a design tool wrote are processed as a batch, and the components of each
directory go into one module there. What is to be done is decided before anything is written.
-/

namespace SvgPress

open Json

/-- A file that was exported, in some format. -/
structure ExportedFile where
  path : Path
  format : String
  deriving DecidableEq, Repr, Inhabited

/-- All that one export produced. -/
structure ExportList where
  exports : List ExportedFile := []
  deriving DecidableEq, Repr

namespace ExportedFile

def decoder : Decoder ExportedFile :=
  Decoder.record
    [{ names := ["path"], read := Decoder.string.map fun v f => { f with path := ⟨v⟩ },
       optionalInObject := false },
      { names := ["format"], read := Decoder.string.map fun v f => { f with format := v },
        optionalInObject := false }]
    ⟨⟨""⟩, ""⟩

def toJson (file : ExportedFile) : Value :=
  .object [("format", .string file.format), ("path", .string file.path.text)]

end ExportedFile

namespace ExportList

def decoder : Decoder ExportList :=
  Decoder.record
    [{ names := ["exports"],
       read := (Decoder.array ExportedFile.decoder).map fun v l => { l with exports := v },
       optionalInArray := true }]
    {}

/-- The list that a file holds. -/
def load (files : Files) (path : Path) : Except ConfigFault ExportList :=
  match files.read path with
  | .error fault => .error (.unreadable path fault)
  | .ok text =>
    match decode decoder text with
    | .error fault => .error (.badJson path fault)
    | .ok list => .ok list

/-- A list of paths as they are; the format of a file is its extension. -/
def ofPaths (paths : List Path) : ExportList :=
  ⟨paths.map fun path => ⟨path, path.extension?.getD ""⟩⟩

/-- The drawings among the files, in order. -/
def drawings (list : ExportList) : List Path :=
  (list.exports.filter fun file => Text.lowerAscii file.format == "svg").map (·.path)

def toJson (list : ExportList) : Value :=
  .object [("exports", .array (list.exports.map ExportedFile.toJson))]

end ExportList

/-- A module that is to be written. -/
structure ModuleFile where
  target : Path
  text : String
  components : Nat
  deriving DecidableEq, Repr

/-- What an export has to do. -/
inductive ExportPlan where
  | disabled
  | nothing
  | write (batch : Batch) (modules : List ModuleFile)
  deriving DecidableEq, Repr

/-- What came of writing modules: those that were written, and why it ended early if it did. -/
structure WriteResult where
  written : List ModuleFile
  failure : Option (Path × FileFault)
  deriving DecidableEq, Repr

inductive ExportStatus where
  | disabled
  | nothingToExport
  | exported (modules : List Path) (files failures : Nat)
  | failed (message : String)
  deriving DecidableEq, Repr

structure ExportReport where
  status : ExportStatus
  batch : Option Batch
  deriving DecidableEq, Repr

namespace Export

/-- The file for a module of a configuration. -/
def moduleFile (config : Config) (m : Module) : ModuleFile :=
  ⟨m.directory.join ⟨config.moduleFileName⟩, m.render, m.components.length⟩

/-- Process the drawings of an export. -/
def plan (list : ExportList) (config : Config) (catalog : Catalog) (convert : Converter)
    (files : Files) : Logged ExportPlan := do
  if !config.enabled then
    Logged.note .exportDisabled
    return .disabled
  if list.drawings.isEmpty then
    Logged.note .nothingToExport
    return .nothing
  Logged.note (.exportStarted list.drawings.length)
  let optimizer ← Optimizer.ofConfig config catalog files
  let batch ← Batch.process optimizer convert files list.drawings
  let modules ← batch.modules
  return .write batch (modules.map (moduleFile config))

/-- Write modules in order up to the first that cannot be written. -/
def writeModules {m : Type → Type} [Monad m] (write : Path → String → m (Except FileFault Unit)) :
    List ModuleFile → m WriteResult
  | [] => return ⟨[], none⟩
  | file :: files => do
    match ← write file.target file.text with
    | .error fault => return ⟨[], some (file.target, fault)⟩
    | .ok () =>
      let result ← writeModules write files
      return { result with written := file :: result.written }

/-- Write whatever a plan asks for. -/
def carryOut {m : Type → Type} [Monad m]
    (write : Path → String → m (Except FileFault Unit)) : ExportPlan → m WriteResult
  | .write _ modules => writeModules write modules
  | _ => return ⟨[], none⟩

/-- What the user is told about modules that were written. -/
def successText (batch : Batch) (targets : List Path) : String :=
  if targets.isEmpty then
    "No jsx components exported, " ++ toString batch.failures.length ++ " files failed"
  else
    "Successfully exported jsx components to " ++ ", ".intercalate (targets.map (·.text)) ++ " (" ++
      String.ofList (Decimal.fixed 1 batch.savedPercent) ++ "% smaller)"

def failureText (target : Path) (fault : FileFault) : String :=
  "Failed to write module " ++ target.text ++ ": " ++ fault.message

def noteWritten : List ModuleFile → Logged Unit
  | [] => return ()
  | file :: files => do
    Logged.note (.moduleWritten file.target.text file.components)
    noteWritten files

/-- The report on a plan that was carried out, with the texts for the user. -/
def report (result : WriteResult) : ExportPlan → Logged (ExportReport × List String)
  | .disabled => return (⟨.disabled, none⟩, [])
  | .nothing => return (⟨.nothingToExport, none⟩, [])
  | .write batch _ => do
    noteWritten result.written
    let targets := result.written.map (·.target)
    match result.failure with
    | some (target, fault) =>
      let text := failureText target fault
      Logged.note (.status text)
      return (⟨.failed text, some batch⟩, [text])
    | none =>
      let text := successText batch targets
      Logged.note (.status text)
      return (⟨.exported targets batch.files.length batch.failures.length, some batch⟩, [text])

end Export

def ExportStatus.toJson : ExportStatus → Json.Object
  | .disabled => [("status", .string "disabled")]
  | .nothingToExport => [("status", .string "nothingToExport")]
  | .exported modules files failures =>
    [("status", .string "exported"), ("modules", .ofStrings (modules.map (·.text))),
      ("files", .ofNat files), ("failures", .ofNat failures)]
  | .failed message => [("status", .string "failed"), ("message", .string message)]

/-- The report as JSON: the status with its own members first, then the batch if there is one. -/
def ExportReport.toJson (clock : Option Clock) (r : ExportReport) : Json.Value :=
  .object (r.status.toJson ++ (r.batch.map fun b => ("batch", b.toJson clock)).toList)

/-- Writing into a file tree. -/
def FileTree.writer (path : Path) (content : String) : StateM FileTree (Except FileFault Unit) :=
  fun tree =>
    match tree.write path content with
    | .ok tree => (.ok (), tree)
    | .error fault => (.error fault, tree)

end SvgPress
