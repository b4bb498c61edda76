import ScriptHost.Fault
import ScriptHost.Heap.Registry
import ScriptHost.Output
import ScriptHost.Program.Unit
import ScriptHost.Store.Basic

/-!
The state of a machine that runs scripts: the store, the innermost environment and receiver of the
code being run, the counters that bound it, and what outlives a run.
-/

namespace ScriptHost

/-- Greatest number of expressions and statements being evaluated at once. -/
def maxNesting : Nat := 320

/-- Limits laid down when a machine is made. -/
structure Config where
  maxCallDepth : Nat
  deriving DecidableEq, Repr

namespace Config

/-- Greatest limit that may be asked for. -/
def callDepthLimit : Nat := 128

/-- The limits where none are asked for. -/
def default : Config := ⟨100⟩

/-- Asks for a number of calls within one another; too great a number is lowered. -/
def withMaxCallDepth (_ : Config) (depth : Nat) : Config := ⟨min depth callDepthLimit⟩

theorem maxCallDepth_withMaxCallDepth_le (c : Config) (depth : Nat) :
    (c.withMaxCallDepth depth).maxCallDepth ≤ callDepthLimit :=
  Nat.min_le_right ..

end Config

/-- A machine. -/
structure Machine where
  store : Store
  registry : Registry
  global : ObjectId
  environment : Environment
  receiver : Value
  depth : Nat
  nesting : Nat
  maxCallDepth : Nat
  trap : Trap
  scratch : TextBuffer
  output : Output

namespace Machine

/-- The global frame. -/
def globalEnvironment (m : Machine) : Environment := .root m.global

/-- The global object as a value. -/
def globalValue (m : Machine) : Value := .object m.global

/-- Allocates an object that the machine owns. No object is given up while the machine lives, so
every entry of its registry counts as live. -/
def allocate (m : Machine) (kind : ObjectClass) : ObjectId × Machine :=
  let (id, store) := m.store.allocate kind
  (id, { m with store := store, registry := m.registry.record (fun _ => true) id })

/-- A native function of its own identity. -/
def makeNative (m : Machine) (code : NativeCode) : Value × Machine :=
  let (identity, store) := m.store.identify
  (.native identity code, { m with store := store })

/-- A function of its own identity. -/
def makeFunction (m : Machine) (closure : Closure) : Value × Machine :=
  let (identity, store) := m.store.identify
  (.function identity closure, { m with store := store })

/-- A function of the code that is closed over the environment being run in. -/
def close (m : Machine) (code : FunctionCode) : Value × Machine :=
  m.makeFunction ⟨code, m.environment, false⟩

/-- Sets a property of the global object to a new native function. -/
def install (m : Machine) (code : NativeCode) : Machine :=
  let (native, m) := m.makeNative code
  { m with store := m.store.set m.global code.name native }

/-- A machine at rest whose objects live in a given store. Its global object holds the two native
functions built in. -/
def create (store : Store) (config : Config) (output : Output) : Machine :=
  let (global, store) := store.allocate .global
  let m : Machine :=
    { store := store
      registry := Registry.empty.record (fun _ => true) global
      global := global
      environment := .root global
      receiver := .object global
      depth := 0
      nesting := 0
      maxCallDepth := config.maxCallDepth
      trap := .idle
      scratch := .empty
      output := output }
  (m.install .print).install .eval

/-- Binds a name on the innermost frame. -/
def define (m : Machine) (name : String) (value : Value) : Machine :=
  { m with store := m.store.define m.environment name value }

/-- Compiles a unit bound to the global frame. -/
def compile (m : Machine) (name source : String) : Except CompileError ScriptUnit × Machine :=
  let (result, scratch) := ScriptUnit.compile name source m.globalEnvironment m.scratch
  (result, { m with scratch := scratch })

/-- Empties every object that the machine owns and gives back its buffer. -/
def teardown (m : Machine) : Machine :=
  { m with
    store := (m.registry.survivors fun _ => true).foldl Store.clear m.store
    registry := .empty
    environment := m.globalEnvironment
    receiver := .undefined
    scratch := m.scratch.release.2 }

end Machine

end ScriptHost
