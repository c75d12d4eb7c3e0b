import Std.Time.DateTime.PlainDateTime
import Std.Time.DateTime.Timestamp
import SvgPress.CommandLine.Inputs

/-!
The program. It fetches the files that a command line needs, lets the library decide, writes what
the library asks for and prints its answer. Entries of the log go to the standard error.
-/

namespace SvgPress.Program

/-- The number of a system error, which may come with a minus sign. -/
def errorNumber (code : UInt32) : Nat :=
  if code.toNat < Nat.pow 2 31 then code.toNat else Nat.pow 2 32 - code.toNat

/-- The cause of a failed operation on a file. -/
def faultOf : IO.Error → FileFault
  | .noFileOrDirectory .. => .notFound
  | .inappropriateType _ code details => numbered code details
  | .invalidArgument _ code details => numbered code details
  | .permissionDenied _ code details => numbered code details
  | e => .refused (toString e)
where
  numbered (code : UInt32) (details : String) : FileFault :=
    match errorNumber code with
    | 20 => .notDirectory
    | 21 => .isDirectory
    | 36 => .nameTooLong
    | n => .refused (details ++ " (os error " ++ toString n ++ ")")

/-- What a path holds. -/
def fetch (path : Path) : IO (Except FileFault String) := do
  match FileTree.check path with
  | .error fault => return .error fault
  | .ok () =>
    match ← (IO.FS.readBinFile ⟨path.text⟩).toBaseIO with
    | .error e => return .error (faultOf e)
    | .ok bytes =>
      match String.fromUTF8? bytes with
      | some text => return .ok text
      | none => return .error .notText

/-- Whether something that was fetched is there: only a missing name says that it is not. -/
def isThere : Except FileFault String → Bool
  | .error .notFound => false
  | .error .notDirectory => false
  | .error .nameTooLong => false
  | .error .nulInPath => false
  | _ => true

/-- The view of some paths as they are now. -/
def snapshot (paths : List Path) : IO Files := do
  let found ← paths.mapM fun path => return (path.text, ← fetch path)
  let contents (path : Path) : Except FileFault String :=
    (found.lookup path.text).getD (.error .notFound)
  return { has := fun path => isThere (contents path), read := contents }

def write (path : Path) (content : String) : IO (Except FileFault Unit) := do
  match FileTree.check path with
  | .error fault => return .error fault
  | .ok () =>
    match ← (IO.FS.writeFile ⟨path.text⟩ content).toBaseIO with
    | .error e => return .error (faultOf e)
    | .ok () => return .ok ()

/-- A number with zeros in front up to a width. -/
def padded (width n : Nat) : String :=
  let digits := toString n
  String.ofList (List.replicate (width - digits.length) '0') ++ digits

/-- The present time in UTC. -/
def now : IO String := do
  let time ← Std.Time.Timestamp.now
  let nanoseconds := time.toNanosecondsSinceUnixEpoch.val.toNat
  let seconds := nanoseconds / 1000000000
  let date := Std.Time.PlainDate.ofEpochDay time.toDaysSinceUnixEpoch
  return padded 4 date.year.toInt.toNat ++ "-" ++ padded 2 date.month.val.toNat ++ "-" ++
    padded 2 date.day.val.toNat ++ "T" ++ padded 2 (seconds / 3600 % 24) ++ ":" ++
    padded 2 (seconds / 60 % 60) ++ ":" ++ padded 2 (seconds % 60) ++ "." ++
    padded 9 (nanoseconds % 1000000000) ++ "Z"

def levelText : Log.Level → String
  | .debug => "DEBUG"
  | .info => " INFO"
  | .warning => " WARN"
  | .error => "ERROR"

/-- Print an entry of the log; details only where they are asked for. -/
def printEntry (details : Bool) (entry : Log.Entry) : IO Unit := do
  if entry.level != .debug || details then
    let fields := entry.fields.map fun (name, value) => " " ++ name ++ "=" ++ value
    IO.eprintln (levelText entry.level ++ " " ++ entry.message ++ String.join fields)

def printReply (reply : CommandLine.Reply) : IO UInt32 := do
  IO.print reply.output
  return UInt32.ofNat reply.exitCode

def run (words : List String) : IO UInt32 := do
  match CommandLine.parse words with
  | .error stop => do
    if stop = .misuse then IO.eprint CommandLine.usage
    printReply (CommandLine.stopped stop)
  | .ok invocation => do
    let settings ← snapshot invocation.settingsFiles
    let files ← snapshot (invocation.settingsFiles ++ invocation.furtherFiles settings)
    let started ← now
    let action ← IO.lazyPure fun _ => invocation.decide files
    let finished ← now
    let reply ← action.value.finish write ⟨started, finished⟩
    let details :=
      match invocation.loadConfig files with
      | .ok config => config.value.debug
      | .error _ => invocation.debug
    (action.log ++ reply.log).forM (printEntry details)
    printReply reply.value

end SvgPress.Program

def main (words : List String) : IO UInt32 :=
  SvgPress.Program.run words
