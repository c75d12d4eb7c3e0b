import SvgPress.Storage.Path

/-!
The words of a command line. Options for every command stand before the command, and those of a
command after it.
-/

namespace SvgPress.CommandLine

inductive Command where
  | about
  | plugins
  | resolve
  | compress (files : List Path) (exports : Option Path)
  deriving DecidableEq, Repr

/-- The options that every command has. -/
structure Options where
  config : Option String := none
  pluginsDir : Option String := none
  debug : Bool := false
  deriving DecidableEq, Repr

/-- A command with the options before it. -/
structure Invocation where
  command : Command
  config : Path
  pluginsDir : Option Path
  debug : Bool
  deriving DecidableEq, Repr

/-- Why a command line gives nothing to run. -/
inductive Stop where
  | help
  | version
  | misuse
  deriving DecidableEq, Repr

/-- One word: an option with the value written to it, a cluster of short options, the mark after
which no options come, or anything else. -/
inductive Word where
  | long (name : String) (value : Option String)
  | short (letter : Char) (rest : List Char)
  | mark
  | plain (text : String)
  deriving DecidableEq, Repr

/-- A lone hyphen is a plain word. -/
def Word.ofString (s : String) : Word :=
  match s.toList with
  | ['-', '-'] => .mark
  | '-' :: '-' :: rest =>
    match Text.cutAt? ['='] rest with
    | some (name, value) => .long (String.ofList name) (some (String.ofList value))
    | none => .long (String.ofList rest) none
  | '-' :: letter :: rest => .short letter rest
  | _ => .plain s

/-- The value of an option: the one written to it, or else the next word, which must not look like
an option. No value is empty. The words after it come with it. -/
def takeValue (written : Option String) (words : List String) :
    Except Stop (String × List String) :=
  match written, words with
  | some value, words => nonEmpty value words
  | none, word :: words =>
    match Word.ofString word with
    | .plain value => nonEmpty value words
    | _ => .error .misuse
  | none, [] => .error .misuse
where
  nonEmpty (value : String) (words : List String) : Except Stop (String × List String) :=
    if value.isEmpty then .error .misuse else .ok (value, words)

/-- The value written to a short option: all that follows it, without an equals sign in front. -/
def attached : List Char → Option String
  | [] => none
  | '=' :: rest => some (String.ofList rest)
  | rest => some (String.ofList rest)

/-- Give an option its value; it may have only one. -/
def setOnce (old : Option String) (value : String) : Except Stop (Option String) :=
  match old with
  | none => .ok (some value)
  | some _ => .error .misuse

/-- The words after a command that takes nothing. -/
def noArguments : List String → Except Stop Unit
  | [] => .ok ()
  | word :: rest =>
    match Word.ofString word with
    | .long "help" none => .error .help
    | .short 'h' _ => .error .help
    | .mark => if rest.isEmpty then .ok () else .error .misuse
    | _ => .error .misuse

/-- The files behind the mark, which may look like options. -/
def trailing (files : List Path) : List String → Except Stop (List Path)
  | [] => .ok files
  | word :: rest => if word.isEmpty then .error .misuse else trailing (files ++ [⟨word⟩]) rest

/-- The words after `compress`. A value uses up the word after its option, so the budget of one for
each word is never used up. -/
def compressArguments : Nat → List Path → Option String → List String → Except Stop Command
  | 0, files, exports, _ => .ok (.compress files (exports.map Path.mk))
  | _, files, exports, [] => .ok (.compress files (exports.map Path.mk))
  | budget + 1, files, exports, word :: rest => do
    match Word.ofString word with
    | .long "exports" written =>
      let (value, rest) ← takeValue written rest
      compressArguments budget files (← setOnce exports value) rest
    | .short 'e' written =>
      let (value, rest) ← takeValue (attached written) rest
      compressArguments budget files (← setOnce exports value) rest
    | .long "help" none => .error .help
    | .short 'h' _ => .error .help
    | .mark => return .compress (← trailing files rest) (exports.map Path.mk)
    | .plain text =>
      if text.isEmpty then .error .misuse
      else compressArguments budget (files ++ [⟨text⟩]) exports rest
    | _ => .error .misuse

/-- The names of commands that help can be asked for. -/
def commandNames : List String :=
  ["about", "plugins", "resolve", "compress", "help"]

/-- The words after `help`: nothing or the name of a command. -/
def helpArguments : List String → Stop
  | [] => .help
  | [name] => if commandNames.contains name then .help else .misuse
  | _ => .misuse

/-- A command by its name and the words after it. -/
def command? (name : String) (words : List String) : Option (Except Stop Command) :=
  if name = "about" then some ((noArguments words).map fun _ => .about)
  else if name = "plugins" then some ((noArguments words).map fun _ => .plugins)
  else if name = "resolve" then some ((noArguments words).map fun _ => .resolve)
  else if name = "compress" then some (compressArguments words.length [] none words)
  else if name = "help" then some (.error (helpArguments words))
  else none

/-- The words of a whole command line, with a budget as above. -/
def parseFrom : Nat → Options → List String → Except Stop Invocation
  | 0, _, _ => .error .misuse
  | _, _, [] => .error .misuse
  | budget + 1, options, word :: rest => do
    match Word.ofString word with
    | .plain name =>
      match command? name rest with
      | none => .error .misuse
      | some command =>
        return ⟨← command, ⟨options.config.getD "svgo.json"⟩, options.pluginsDir.map Path.mk,
          options.debug⟩
    | .long "config" written =>
      let (value, rest) ← takeValue written rest
      parseFrom budget { options with config := ← setOnce options.config value } rest
    | .short 'c' written =>
      let (value, rest) ← takeValue (attached written) rest
      parseFrom budget { options with config := ← setOnce options.config value } rest
    | .long "plugins-dir" written =>
      let (value, rest) ← takeValue written rest
      parseFrom budget { options with pluginsDir := ← setOnce options.pluginsDir value } rest
    | .long "debug" none =>
      if options.debug then .error .misuse else parseFrom budget { options with debug := true } rest
    | .long "help" none => .error .help
    | .short 'h' _ => .error .help
    | .long "version" none => .error .version
    | .short 'V' _ => .error .version
    | _ => .error .misuse

def parse (words : List String) : Except Stop Invocation :=
  parseFrom words.length {} words

end SvgPress.CommandLine
