import ScriptHost.CommandLine.Help
import ScriptHost.CommandLine.Repl

/-!
The program as a whole: what a command line writes to the two streams, and its exit code.
-/

namespace ScriptHost.CommandLine

/-- What surrounds the program: how the contents of files are had, the bytes of the standard input,
and where the standard output goes. -/
structure Surroundings where
  read : String → Except FileProblem ByteArray
  input : ByteArray
  output : Output

/-- What the program leaves behind. -/
structure Report where
  code : Nat
  output : Output
  diagnostics : Output

/-- Exit code of a misused command line. -/
def misuseCode : Nat := 2

/-- Runs scripts in order in one session, up to the first that fails. -/
def runScripts (fuel : Nat) (read : String → Except FileProblem ByteArray) (s : Session) :
    List String → Except Halt (Nat × Session)
  | [] => .ok (0, s)
  | path :: paths => do
    match ← s.runFile fuel path (read path) with
    | (.success, s) => runScripts fuel read s paths
    | (.failure, s) => return (1, s)

/-- Does what a command asks for in a new session. -/
def execute (fuel : Nat) (surroundings : Surroundings) (config : Config) (command : Command) :
    Except Halt Report := do
  let s := Session.create .empty config surroundings.output (.buffer .empty) .inert []
  let (code, s) ← match command with
    | .run paths => runScripts fuel surroundings.read s paths
    | .eval source => do
      match ← s.runString fuel source with
      | (.success, s) => pure (0, s)
      | (.failure, s) => pure (1, s)
    | .repl => do
      match ← Repl.replies fuel s (Repl.linesOf surroundings.input.toList) with
      | .proceed s => pure (0, s)
      | .leave code s => pure (code, s)
  return ⟨code, s.machine.output, s.diagnostics⟩

/-- Writes a text to the standard output, which may take nothing. -/
def announce (output : Output) (text : String) : Report :=
  match output.write text with
  | .ok output => ⟨0, output, .buffer .empty⟩
  | .error _ => ⟨0, output, .buffer .empty⟩

/-- Runs the program on the arguments after its name. -/
def run (fuel : Nat) (surroundings : Surroundings) (arguments : List String) :
    Except Halt Report :=
  match request arguments with
  | .ok asked => execute fuel surroundings asked.config asked.command
  | .error (.help topic) => .ok (announce surroundings.output topic.text)
  | .error .version => .ok (announce surroundings.output versionText)
  | .error .misuse => .ok ⟨misuseCode, surroundings.output, .buffer .empty⟩

end ScriptHost.CommandLine
