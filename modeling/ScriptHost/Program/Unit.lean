import ScriptHost.Program.Parser
import ScriptHost.Value.Basic

/-!
Compiled units: a source text under a name, turned into a closure without parameters that runs
directly in the environment it is bound to.
-/

namespace ScriptHost

/-- Name of units compiled from a string. -/
def stringUnitName : String := "(string)"

/-- Name of units compiled by a script. -/
def evalUnitName : String := "(eval)"

/-- A refusal of a source text under a name, with its line and column if it has a place. -/
structure CompileError where
  unitName : String
  position : Option Position
  diagnostic : Diagnostic
  deriving DecidableEq, Repr

namespace CompileError

/-- Unit name, line and column, or just the unit name where no place is known. -/
def location (e : CompileError) : String :=
  match e.position with
  | some p => e.unitName ++ ":" ++ toString p.line ++ ":" ++ toString p.column
  | none => e.unitName

/-- Location and message. -/
def display (e : CompileError) : String := e.location ++ ": " ++ e.diagnostic.message

end CompileError

/-- A compiled unit. -/
structure ScriptUnit where
  name : String
  closure : Closure

namespace ScriptUnit

/-- The unit of these statements. -/
def ofBody (name : String) (body : List Stmt) (env : Environment) : ScriptUnit :=
  ⟨name, ⟨⟨some name, [], body⟩, env, true⟩⟩

/-- The top-level statements. -/
def body (u : ScriptUnit) : List Stmt := u.closure.code.body

/-- Compiles a source text and binds it to an environment; string literals are assembled in the
buffer. -/
def compile (name source : String) (env : Environment) (scratch : TextBuffer) :
    Except CompileError ScriptUnit × TextBuffer :=
  let (program, scratch) := programOfSource source scratch
  match program with
  | .ok body => (.ok (ofBody name body env), scratch)
  | .error d => (.error ⟨name, d.position? source.toList, d⟩, scratch)

theorem environment_of_compile {name source : String} {env : Environment}
    {scratch left : TextBuffer} {u : ScriptUnit}
    (h : compile name source env scratch = (.ok u, left)) :
    u.closure.environment = env ∧ u.closure.isUnit = true := by
  simp only [compile] at h
  split at h <;> simp_all [ofBody]
  obtain ⟨rfl, -⟩ := h
  exact ⟨rfl, rfl⟩

end ScriptUnit

end ScriptHost
