import ScriptHost.Machine.Basic

/-!
What a machine is doing. Control is either at an expression or statement about to be evaluated or at
a result, and a stack of frames tells what remains to be done with the result. Frames are typed by
what they take and what they give, an expression's value or a statement's completion, so no frame
can meet a result that it has no use for.
-/

namespace ScriptHost

/-- Phrases of a program, by what they yield: expressions yield values, statements completions. -/
inductive Phrase
  | expression
  | statement
  deriving DecidableEq, Repr

/-- How a statement ended: in its turn, with the value of the last expression statement if there
was one, or at a return. -/
inductive Completion
  | normal (last : Option Value)
  | return (value : Value)

/-- What a phrase yields. -/
def Phrase.Result : Phrase → Type
  | .expression => Value
  | .statement => Completion

/-- What a host's native function asks of the machine, one request after another. An answer to a
request is handed to what follows it. -/
inductive HostScript
  | finish (value : Value)
  | fail (fault : Fault)
  | raise (kind : FaultKind) (message : String)
  | invoke (receiver callee : Value) (arguments : List Value)
      (resume : Except Fault Value → HostScript)
  | compile (name source : String) (resume : Except CompileError Value → HostScript)
  | create (properties : Bindings) (resume : Value → HostScript)
  | properties (id : ObjectId) (resume : Bindings → HostScript)
  | armed (resume : Bool → HostScript)

/-- What a host lays down for the names of its native functions. -/
abbrev HostTable := String → List Value → HostScript

/-- A host whose native functions do nothing. -/
def HostTable.inert : HostTable := fun _ _ => .finish .undefined

/-- A call being prepared. -/
structure CallSite where
  span : Span
  callee : Expr
  arguments : List Expr

/-- What remains to be done with a result, by what it takes and what it gives. -/
inductive Frame : Phrase → Phrase → Type
  | leave {p : Phrase} : Frame p p
  | binaryRight (op : BinaryOp) (right : Expr) : Frame .expression .expression
  | binaryApply (op : BinaryOp) (left : Value) : Frame .expression .expression
  | logicalRight (op : LogicalOp) (right : Expr) : Frame .expression .expression
  | unaryApply (op : UnaryOp) : Frame .expression .expression
  | assignTo (target : Expr) : Frame .expression .expression
  | assignMember (target : Span) (property : String) (value : Value) : Frame .expression .expression
  | readMember (span : Span) (property : String) : Frame .expression .expression
  | callMember (site : CallSite) (property : String) : Frame .expression .expression
  | callFunction (site : CallSite) : Frame .expression .expression
  | callArgument (site : CallSite) (receiver function : Value) (done : List Value)
      (rest : List Expr) : Frame .expression .expression
  | locate (span : Span) : Frame .expression .expression
  | objectEntry (id : ObjectId) (key : String) (rest : List Entry) : Frame .expression .expression
  | host (resume : Except Fault Value → HostScript) : Frame .expression .expression
  | returnTo (environment : Environment) (receiver : Value) (isUnit : Bool) :
      Frame .statement .expression
  | defineVar (name : String) : Frame .expression .statement
  | complete : Frame .expression .statement
  | branch (thenBranch : Stmt) (elseBranch : Option Stmt) : Frame .expression .statement
  | loopTest (condition : Expr) (body : Stmt) (last : Option Value) : Frame .expression .statement
  | loopBody (condition : Expr) (body : Stmt) (last : Option Value) : Frame .statement .statement
  | sequence (rest : List Stmt) (last : Option Value) : Frame .statement .statement
  | returnValue : Frame .expression .statement

/-- Frames from the next to be reached to the last, by what the first takes and the last gives. -/
inductive Stack : Phrase → Phrase → Type
  | nil {p : Phrase} : Stack p p
  | cons {p q r : Phrase} (frame : Frame p q) (rest : Stack q r) : Stack p r

namespace Stack

/-- The frames of one stack before those of another. -/
def append : {p q r : Phrase} → Stack p q → Stack q r → Stack p r
  | _, _, _, nil, below => below
  | _, _, _, cons frame rest, below => cons frame (rest.append below)

/-- Number of frames. -/
def height : {p q : Phrase} → Stack p q → Nat
  | _, _, nil => 0
  | _, _, cons _ rest => rest.height + 1

variable {p q r s : Phrase}

theorem append_nil (k : Stack p q) : k.append nil = k := by
  induction k with
  | nil => rfl
  | cons frame rest ih => simp [append, ih]

theorem append_assoc (j : Stack p q) (k : Stack q r) (l : Stack r s) :
    (j.append k).append l = j.append (k.append l) := by
  induction j with
  | nil => rfl
  | cons frame rest ih => simp [append, ih]

theorem height_append (j : Stack p q) (k : Stack q r) :
    (j.append k).height = j.height + k.height := by
  induction j with
  | nil => simp [append, height]
  | cons frame rest ih => simp [append, height, ih, Nat.add_right_comm]

end Stack

/-- Where control is. -/
inductive Focus : Phrase → Type
  | evaluate (e : Expr) : Focus .expression
  | execute (s : Stmt) : Focus .statement
  | executeAll (body : List Stmt) (last : Option Value) : Focus .statement
  | invoke (receiver callee : Value) (arguments : List Value) : Focus .expression
  | enter (receiver : Value) (closure : Closure) (arguments : List Value) : Focus .expression
  | perform (script : HostScript) : Focus .expression
  | value (v : Value) : Focus .expression
  | completion (c : Completion) : Focus .statement
  | fault {p : Phrase} (f : Fault) : Focus p

/-- A machine together with what it is doing, by what it will have yielded in the end. -/
structure Situation (last : Phrase) where
  phrase : Phrase
  focus : Focus phrase
  stack : Stack phrase last
  machine : Machine

/-- How a run ended. A fault raised while no run was under way is
stranded: there is nothing it could end. -/
inductive Ending : Phrase → Type
  | value (v : Value) : Ending .expression
  | completion (c : Completion) : Ending .statement
  | fault {p : Phrase} (f : Fault) : Ending p
  | stranded {p : Phrase} (message : String) : Ending p

/-- What one step leads to. -/
inductive Progress (last : Phrase)
  | next (situation : Situation last)
  | halt (machine : Machine) (ending : Ending last)

end ScriptHost
