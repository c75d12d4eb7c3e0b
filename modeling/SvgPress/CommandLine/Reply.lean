import SvgPress.CommandLine.Arguments
import SvgPress.Export

/-!
What the program answers to a command line: text, and a number that tells whether all went well.
-/

namespace SvgPress.CommandLine

structure Reply where
  output : String
  exitCode : Nat
  deriving DecidableEq, Repr

/-- What an invocation comes to before anything is written: an answer, or an export. -/
inductive Action where
  | answer (reply : Reply)
  | carryOut (plan : ExportPlan)
  deriving DecidableEq, Repr

/-- A value as the answer of a command that went well. -/
def printed (value : Json.Value) : Reply :=
  ⟨value.pretty 0 ++ "\n", 0⟩

/-- A fault that keeps a command from running. -/
def refused (fault : ConfigFault) : Reply :=
  ⟨(Json.Value.object [("error", .string fault.message), ("success", .bool false)]).compact ++ "\n",
    1⟩

def usage : String :=
  "Usage: svg2jsx-cli [OPTIONS] <COMMAND>\n\n" ++
    "Commands: about, plugins, resolve, compress [-e <EXPORTS>] [FILES]..., help\n" ++
    "Options: -c, --config <CONFIG>, --plugins-dir <PLUGINS_DIR>, --debug, -h, --help, " ++
    "-V, --version\n"

/-- The answer to a command line that gives nothing to run. A misuse is not answered on the
standard output. -/
def stopped : Stop → Reply
  | .help => ⟨usage, 0⟩
  | .version => ⟨"svg2jsx-cli " ++ Version.current.text ++ "\n", 0⟩
  | .misuse => ⟨"", 2⟩

def about : Json.Value :=
  .object
    [("description", .string ("Exports compressed SVG assets to a ready-to-use .jsx file that " ++
        "contains each compressed SVG as a functional component.")),
      ("name", .string "svg2jsx"), ("version", .string Version.current.text)]

def describe (pass : Pass) : Json.Value :=
  .object
    [("description", .string pass.description), ("name", .string pass.name),
      ("params", .ofOption .object pass.defaults)]

/-- The configuration of an invocation: that of its file, with the options laid over it. -/
def Invocation.loadConfig (invocation : Invocation) (files : Files) :
    Except ConfigFault (Logged Config) :=
  (Config.load files invocation.config).map fun logged => do
    let config ← logged
    return { config with
      pluginsDir := invocation.pluginsDir.or config.pluginsDir
      debug := config.debug || invocation.debug }

/-- The exports that a command speaks of. -/
def exportsOf (files : Files) (paths : List Path) :
    Option Path → Except ConfigFault ExportList
  | some list => ExportList.load files list
  | none => .ok (.ofPaths paths)

/-- What a command comes to under a configuration. -/
def act (files : Files) (config : Config) : Command → Logged Action
  | .about => return .answer (printed about)
  | .plugins => return .answer (printed (.array (Catalog.builtin.list.map describe)))
  | .resolve => do
    let steps ← config.steps Catalog.builtin files
    return .answer (printed (.object
      [("config", config.toJson), ("plugins", .array (steps.map Step.toJson))]))
  | .compress paths list =>
    match exportsOf files paths list with
    | .error fault => return .answer (refused fault)
    | .ok exports => do
      return .carryOut
        (← Export.plan exports config Catalog.builtin (Jsx.convert config.indent) files)

/-- What an invocation comes to. -/
def Invocation.decide (invocation : Invocation) (files : Files) : Logged Action :=
  match invocation.loadConfig files with
  | .error fault => return .answer (refused fault)
  | .ok config => do act files (← config) invocation.command

/-- The answer to an export that was carried out. -/
def reported (clock : Clock) (report : ExportReport) : Reply :=
  let reply := printed (report.toJson (some clock))
  match report.status with
  | .failed _ => { reply with exitCode := 2 }
  | _ => reply

/-- Carry an action out. -/
def Action.finish {m : Type → Type} [Monad m] (write : Path → String → m (Except FileFault Unit))
    (clock : Clock) : Action → m (Logged Reply)
  | .answer reply => return (return reply)
  | .carryOut plan => do
    let result ← Export.carryOut write plan
    return do
      let (report, _) ← Export.report result plan
      return reported clock report

/-- Run a command line. -/
def run {m : Type → Type} [Monad m] (write : Path → String → m (Except FileFault Unit))
    (files : Files) (clock : Clock) (words : List String) : m (Logged Reply) :=
  match parse words with
  | .error stop => return (return stopped stop)
  | .ok invocation => do
    let action := invocation.decide files
    let finished ← action.value.finish write clock
    return ⟨finished.value, action.log ++ finished.log⟩

end SvgPress.CommandLine
