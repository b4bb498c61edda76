import ScriptHost.CommandLine.Basic

/-!
The program on a real system: files, standard input and the two output streams. Lines of an
interactive session are answered one by one; any other command is answered as a whole.
-/

namespace ScriptHost

/-- Steps that one run may take; a run that never ends is given up after them. -/
def runFuel : Nat := 0x4000000000000000

/-- The contents of the files that a command line names. -/
def readScripts : List String → IO (List (String × Except FileProblem ByteArray))
  | [] => return []
  | path :: paths => do
    let contents ← try
        let bytes ← IO.FS.readBinFile path
        pure (Except.ok bytes)
      catch _ => pure (Except.error FileProblem.cannotOpen)
    return (path, contents) :: (← readScripts paths)

/-- Passes on what a session wrote to its two streams. -/
def passOn (s : Session) : IO Session := do
  IO.print s.machine.output.contents
  IO.eprint s.diagnostics.contents
  (← IO.getStdout).flush
  return s.drained

/-- Ends the program after a run that came to no end. -/
def giveUp : IO UInt32 := do
  IO.eprintln "the run was given up"
  return 101

/-- Replies to the lines of a stream, as many at a time as have arrived whole, after some bytes of
the next line. -/
partial def converse (input : IO.FS.Stream) (pending : ByteArray) (s : Session) : IO UInt32 := do
  let chunk ← input.read 65536
  let bytes := pending ++ chunk
  if !chunk.isEmpty && bytes.toList.getLast? != some 10 then converse input bytes s
  else
    match Repl.replies runFuel s (Repl.linesOf bytes.toList) with
    | .ok (.proceed s) =>
      let s ← passOn s
      if chunk.isEmpty then return 0 else converse input ByteArray.empty s
    | .ok (.leave code s) =>
      discard <| passOn s
      return code.toUInt32
    | .error _ => giveUp

end ScriptHost

open ScriptHost in
/-- Runs the program on the arguments after its name. -/
def main (arguments : List String) : IO UInt32 := do
  match CommandLine.request arguments with
  | .ok ⟨config, .repl⟩ =>
    let s := Session.create .empty config (.buffer .empty) (.buffer .empty) .inert []
    converse (← IO.getStdin) ByteArray.empty s
  | asked =>
    let files ← match asked with
      | .ok ⟨_, .run paths⟩ => readScripts paths
      | _ => pure []
    let read path := (files.lookup path).getD (.error .cannotOpen)
    match CommandLine.run runFuel ⟨read, ByteArray.empty, .buffer .empty⟩ arguments with
    | .ok report =>
      IO.print report.output.contents
      IO.eprint report.diagnostics.contents
      return report.code.toUInt32
    | .error _ => giveUp
