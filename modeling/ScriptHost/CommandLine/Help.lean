import ScriptHost.CommandLine.Arguments

/-!
Help texts of the program.
-/

namespace ScriptHost.CommandLine

/-- Name and version of the program. -/
def versionText : String := "jshost 0.1.0\n"

/-- The commands, a line each. -/
def commandLines : List String :=
  ["Commands:",
   "  run   Run script files in order, sharing one global scope",
   "  eval  Run a snippet of source text",
   "  repl  Start an interactive session",
   "  help  Print this message or the help of the given subcommand(s)"]

/-- The option that every command knows. -/
def helpOptionLines : List String :=
  ["Options:",
   "  -h, --help  Print help"]

/-- The lines of a help text. -/
def Topic.lines : Topic → List String
  | .overview =>
    ["Embeddable script host", "", "Usage: jshost [OPTIONS] [COMMAND]", ""] ++ commandLines ++
    ["", "Options:",
     "      --max-call-depth <MAX_CALL_DEPTH>",
     "          Nested script calls allowed before a RangeError (at most 128) [default: 100]",
     "      --log-level <LOG_LEVEL>",
     "          Log filter, e.g. `debug` or `jshost=trace`; defaults to RUST_LOG",
     "  -h, --help",
     "          Print help",
     "  -V, --version",
     "          Print version"]
  | .run =>
    ["Run script files in order, sharing one global scope", "", "Usage: jshost run <SCRIPTS>...", "",
     "Arguments:", "  <SCRIPTS>...  ", ""] ++ helpOptionLines
  | .eval =>
    ["Run a snippet of source text", "", "Usage: jshost eval <SOURCE>", "",
     "Arguments:", "  <SOURCE>  ", ""] ++ helpOptionLines
  | .repl =>
    ["Start an interactive session", "", "Usage: jshost repl", ""] ++ helpOptionLines
  | .help =>
    ["Print this message or the help of the given subcommand(s)", "",
     "Usage: jshost help [COMMAND]...", "", "Arguments:",
     "  [COMMAND]...  Print help for the subcommand(s)"]

/-- A help text. -/
def Topic.text (topic : Topic) : String :=
  String.join (topic.lines.map (· ++ "\n"))

end ScriptHost.CommandLine
