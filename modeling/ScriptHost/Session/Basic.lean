import ScriptHost.Machine.Step

/-!
Sessions of an embedding program. A session has one machine, at most one pending unit, and a stream
to which every failure is reported as one record. A failed load leaves the pending unit as it was;
a run takes the pending unit away, however it ends.
-/

namespace ScriptHost

/-- Outcome of an operation; every failure has been reported. -/
inductive Status
  | success
  | failure
  deriving DecidableEq, Repr

/-- Why the contents of a file cannot be had. -/
inductive FileProblem
  | cannotOpen
  | cannotSeek
  | cannotRead
  deriving DecidableEq, Repr

/-- Why a load made no unit. -/
inductive LoadError
  | file (path : String) (problem : FileProblem)
  | allocation (path : String)
  | encoding (path : String)
  | compile (error : CompileError)
  deriving DecidableEq, Repr

/-- The text of a load error. -/
def LoadError.message : LoadError → String
  | .file path .cannotOpen => "cannot open file: '" ++ path ++ "'"
  | .file path .cannotSeek => "cannot seek in file: '" ++ path ++ "'"
  | .file path .cannotRead => "cannot read data from file: '" ++ path ++ "'"
  | .allocation path => "cannot allocate storage for file contents: '" ++ path ++ "'"
  | .encoding path => "file is not valid UTF-8: '" ++ path ++ "'"
  | .compile e => e.display

/-- The terminated text that the contents of a file hold. -/
def sourceOfFile (path : String) (contents : Except FileProblem ByteArray) :
    Except LoadError String :=
  match contents with
  | .error problem => .error (.file path problem)
  | .ok bytes =>
    match TextBuffer.allocate? bytes.size with
    | none => .error (.allocation path)
    | some buffer =>
      match buffer.fill bytes bytes.size with
      | (none, _) => .error (.encoding path)
      | (some count, buffer) =>
        if count = bytes.size then .ok buffer.terminate.text else .error (.file path .cannotRead)

/-- A session. -/
structure Session where
  machine : Machine
  pending : Option ScriptUnit
  diagnostics : Output
  hosts : HostTable

/-- Why a run came to no end that a session can go on from. -/
inductive Halt
  | outOfFuel
  | stranded (message : String)
  deriving DecidableEq, Repr

namespace Session

/-- A session whose machine keeps its objects in a given store. The host's native functions are
installed by name. -/
def create (store : Store) (config : Config) (output diagnostics : Output)
    (hosts : HostTable) (natives : List String) : Session :=
  let m := natives.foldl (fun m name => m.install (.host name)) (Machine.create store config output)
  ⟨m, none, diagnostics, hosts⟩

/-- Ends a session and gives back the store, in which all objects of its machine are empty. -/
def destroy (s : Session) : Store := s.machine.teardown.store

/-- Reports a failure. A stream that takes nothing is no failure of its own. -/
def report (s : Session) (message : String) : Session :=
  match s.diagnostics.write ("error: " ++ message ++ "\n") with
  | .ok diagnostics => { s with diagnostics := diagnostics }
  | .error _ => s

/-- Compiles a source text under a name; the unit becomes the pending one. -/
def loadNamed (s : Session) (name source : String) : Status × Session :=
  let (result, machine) := s.machine.compile name source
  let s := { s with machine := machine }
  match result with
  | .ok u => (.success, { s with pending := some u })
  | .error e => (.failure, s.report (LoadError.compile e).message)

/-- Loads a unit from a string. -/
def load (s : Session) (source : String) : Status × Session :=
  s.loadNamed stringUnitName source

/-- Loads a unit from the contents of a file, under the path as its name. -/
def loadFile (s : Session) (path : String) (contents : Except FileProblem ByteArray) :
    Status × Session :=
  match sourceOfFile path contents with
  | .ok source => s.loadNamed path source
  | .error e => (.failure, s.report e.message)

/-- Runs the pending unit; the answer is its completion value, or none after a reported fault. -/
def runPending (fuel : Nat) (s : Session) : Except Halt (Option Value × Session) :=
  match s.pending with
  | none => .ok (none, s.report "no compiled unit is loaded")
  | some u =>
    match s.machine.runUnit s.hosts fuel u with
    | none => .error .outOfFuel
    | some (machine, ending) =>
      let s := { s with machine := machine, pending := none }
      match ending with
      | .value v => .ok (some v, s)
      | .fault f => .ok (none, s.report f.display)
      | .stranded message => .error (.stranded message)

/-- Runs the pending unit and drops its completion value. -/
def call (fuel : Nat) (s : Session) : Except Halt (Status × Session) := do
  let (value, s) ← s.runPending fuel
  return (if value.isSome then .success else .failure, s)

/-- Goes on after a load that succeeded. -/
def callLoaded (fuel : Nat) : Status × Session → Except Halt (Status × Session)
  | (.success, s) => s.call fuel
  | (.failure, s) => .ok (.failure, s)

/-- Loads a unit from a string and runs it. -/
def runString (fuel : Nat) (s : Session) (source : String) : Except Halt (Status × Session) :=
  callLoaded fuel (s.load source)

/-- Loads a unit from the contents of a file and runs it. -/
def runFile (fuel : Nat) (s : Session) (path : String) (contents : Except FileProblem ByteArray) :
    Except Halt (Status × Session) :=
  callLoaded fuel (s.loadFile path contents)

/-- Loads a unit from a string and runs it for its completion value. -/
def evaluate (fuel : Nat) (s : Session) (source : String) :
    Except Halt (Option Value × Session) :=
  match s.load source with
  | (.success, s) => s.runPending fuel
  | (.failure, s) => .ok (none, s)

/-- The value of a global name. -/
def getGlobal (s : Session) (name : String) : Option Value :=
  s.machine.store.get? s.machine.global name

/-- The properties of the global object. -/
def globals (s : Session) : Bindings := (s.machine.store.object s.machine.global).properties

/-- Sets a property of the global object. -/
def setGlobal (s : Session) (name : String) (value : Value) : Session :=
  { s with machine.store := s.machine.store.set s.machine.global name value }

/-- Takes all properties from the global object. -/
def clearGlobals (s : Session) : Session :=
  { s with machine.store := s.machine.store.clear s.machine.global }

/-- Forgets what was written to both streams. -/
def drained (s : Session) : Session :=
  { s with machine.output := s.machine.output.drained, diagnostics := s.diagnostics.drained }

theorem pending_loadNamed_of_failure {s t : Session} {name source : String}
    (h : s.loadNamed name source = (.failure, t)) : t.pending = s.pending := by
  simp only [loadNamed] at h
  split at h
  · simp at h
  · obtain ⟨-, rfl⟩ := Prod.mk.inj h
    unfold report
    split <;> rfl

end Session

end ScriptHost
