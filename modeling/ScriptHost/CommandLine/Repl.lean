import ScriptHost.Session.Basic

/-!
Reading, evaluating and printing one line after another. Each line is a unit of its own, and a line
that fails leaves the session usable for the next.
-/

namespace ScriptHost.Repl

/-- What a line is: nothing to do, the wish to leave, or source text. -/
inductive Line
  | blank
  | leave
  | source (text : String)
  deriving DecidableEq, Repr

/-- Takes blanks off both ends of a line and tells what is left. -/
def Line.ofString (line : String) : Line :=
  let text := String.ofList (trimBlank line.toList)
  if text = ".exit" ∨ text = ".quit" then .leave
  else if text = "" then .blank
  else .source text

/-- How the reading of lines goes on: with the next line, or not at all, with an exit code. -/
inductive Reply
  | proceed (session : Session)
  | leave (code : Nat) (session : Session)

/-- Exit code after a value that cannot be printed. -/
def unprintableCode : Nat := 101

/-- Evaluates a line and prints its value unless that is undefined. A value that cannot be printed
ends the reading. -/
def reply (fuel : Nat) (s : Session) (line : String) : Except Halt Reply :=
  match Line.ofString line with
  | .blank => .ok (.proceed s)
  | .leave => .ok (.leave 0 s)
  | .source text => do
    match ← s.evaluate fuel text with
    | (none, s) => return .proceed s
    | (some v, s) =>
      if v.isUndefined then return .proceed s
      else
        match s.machine.output.write (v.inspect ++ "\n") with
        | .ok output => return .proceed { s with machine.output := output }
        | .error _ => return .leave unprintableCode s

/-- The lines that bytes hold, each without its line end. A line that is not UTF-8 is none. -/
def linesOf (bytes : List UInt8) : List (Option String) :=
  let pieces := bytes.splitOn 10
  let pieces := if pieces.getLast? = some [] then pieces.dropLast else pieces
  pieces.map fun piece => String.fromUTF8? ⟨piece.toArray⟩

/-- Why a line could not be read. -/
def malformedLine : String := "line editor error: stream did not contain valid UTF-8"

/-- Replies to lines until they end or one of them ends the reading, as one that is not UTF-8
does. -/
def replies (fuel : Nat) (s : Session) : List (Option String) → Except Halt Reply
  | [] => .ok (.proceed s)
  | none :: _ => .ok (.leave 1 (s.report malformedLine))
  | some line :: lines => do
    match ← reply fuel s line with
    | .proceed s => replies fuel s lines
    | .leave code s => return .leave code s

end ScriptHost.Repl
