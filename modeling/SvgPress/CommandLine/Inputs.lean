import SvgPress.CommandLine.Reply

/-!
Which files a command line makes the program read. They come to light in two steps: the command
line names the configuration and the list of exports, and these two name all others.
-/

namespace SvgPress

/-- The files of the declared passes that a configuration asks for. -/
def Config.passFiles (config : Config) : List Path :=
  (config.plugins.filter (·.enabled)).filterMap fun spec =>
    spec.path.map (Catalog.filePath config.pluginsDir)

namespace CommandLine

/-- The files that the command line itself names. -/
def Invocation.settingsFiles (invocation : Invocation) : List Path :=
  match invocation.command with
  | .compress _ (some list) => [invocation.config, list]
  | _ => [invocation.config]

/-- The files that the settings name in their turn. Settings that cannot be used name none. -/
def Invocation.furtherFiles (invocation : Invocation) (settings : Files) : List Path :=
  match invocation.loadConfig settings with
  | .error _ => []
  | .ok config =>
    config.value.passFiles ++
      match invocation.command with
      | .compress paths list =>
        match exportsOf settings paths list with
        | .error _ => []
        | .ok exports => exports.drawings
      | _ => []

end CommandLine

end SvgPress
