import ScriptHost.Program.Tree

/-!
Values of the script language. Objects are named by where they stand in a store, functions and
natives carry a number that tells apart those made at different times, and a function holds the
chain of scopes it was made in.
-/

namespace ScriptHost

/-- Name of an object in a store. -/
structure ObjectId where
  index : Nat
  deriving DecidableEq, Repr

/-- A chain of scopes: each frame keeps its bindings on an object, and the last frame of a chain is
the global one. -/
inductive Environment
  | root (scope : ObjectId)
  | child (scope : ObjectId) (parent : Environment)
  deriving DecidableEq, Repr

namespace Environment

/-- The object that holds the bindings of the innermost frame. -/
def scope : Environment → ObjectId
  | root s | child s _ => s

/-- The scopes of the chain, innermost first. -/
def scopes : Environment → List ObjectId
  | root s => [s]
  | child s parent => s :: parent.scopes

/-- Whether the innermost frame is the last of its chain. -/
def isRoot : Environment → Bool
  | root _ => true
  | child _ _ => false

theorem scopes_ne_nil (env : Environment) : env.scopes ≠ [] := by
  cases env <;> simp [scopes]

end Environment

/-- Code closed over the chain of scopes it was made in. A unit runs directly in that chain and
yields its completion value; any other closure runs in a scope of its own. -/
structure Closure where
  code : FunctionCode
  environment : Environment
  isUnit : Bool

/-- What a native function does: one of the two built in, or what the host lays down for a name. -/
inductive NativeCode
  | print
  | eval
  | host (name : String)
  deriving DecidableEq, Repr

/-- The name a native function shows. -/
def NativeCode.name : NativeCode → String
  | .print => "print"
  | .eval => "eval"
  | .host name => name

/-- Values. -/
inductive Value
  | undefined
  | null
  | bool (value : Bool)
  | number (value : Float)
  | string (value : String)
  | object (id : ObjectId)
  | function (identity : Nat) (closure : Closure)
  | native (identity : Nat) (code : NativeCode)

instance : Inhabited Value := ⟨.undefined⟩

/-- The value of a constant. -/
def Literal.value : Literal → Value
  | .number x => .number x
  | .string s => .string s
  | .bool b => .bool b
  | .null => .null
  | .undefined => .undefined

end ScriptHost
