import ScriptHost.Proofs.Machine.Layout

/-!
What a machine builds. All that code makes is on the store: a step sets properties, makes objects,
each of which it records, and gives functions their numbers, and does nothing else to the store.
Only for a host's native function is an object made that is not recorded.
-/

namespace ScriptHost

variable {p q last : Phrase}

/-- The part of a machine that holds what was made. -/
structure Memory where
  store : Store
  registry : Registry
  global : ObjectId

namespace Memory

def set (a : Memory) (id : ObjectId) (name : String) (value : Value) : Memory :=
  { a with store := a.store.set id name value }

/-- Makes an object and records it. -/
def allocate (a : Memory) (kind : ObjectClass) : Memory :=
  { a with
    store := (a.store.allocate kind).2
    registry := a.registry.record (fun _ => true) (a.store.allocate kind).1 }

def identify (a : Memory) : Memory := { a with store := a.store.identify.2 }

/-- The second memory comes of the first by such changes, one after another. -/
inductive Becomes (a : Memory) : Memory → Prop
  | refl : Becomes a a
  | set {b : Memory} (h : Becomes a b) (id : ObjectId) (name : String) (value : Value) :
      Becomes a (b.set id name value)
  | allocate {b : Memory} (h : Becomes a b) (kind : ObjectClass) : Becomes a (b.allocate kind)
  | identify {b : Memory} (h : Becomes a b) : Becomes a b.identify

variable {a b : Memory}

theorem Becomes.global (h : a.Becomes b) : b.global = a.global := by
  induction h with
  | refl => rfl
  | set _ _ _ _ ih | allocate _ _ ih | identify _ ih => exact ih

theorem Becomes.bindParameters (h : a.Becomes b) (scope : ObjectId) (names : List String)
    (arguments : List Value) :
    a.Becomes { b with store := b.store.bindParameters scope names arguments } := by
  induction names generalizing b arguments with
  | nil => exact h
  | cons name rest ih => exact ih (h.set scope name _) _

theorem Becomes.assign (h : a.Becomes b) (env : Environment) (name : String) (value : Value) :
    a.Becomes { b with store := b.store.assign env name value } := by
  induction env with
  | root scope => exact h.set scope name value
  | child scope parent ih =>
      rw [Store.assign]
      split
      · exact h.set scope name value
      · exact ih

end Memory

/-- Whether the next step makes an object for a host's native function. -/
def Situation.makesForHost : Situation last → Bool
  | ⟨_, .perform (.create _ _), _, _⟩ => true
  | _ => false

namespace Progress

@[simp] theorem machine_focus (m : Machine) (k : Stack p last) (f : Focus p) :
    (focus m k f).machine = m := rfl

@[simp] theorem machine_raise (m : Machine) (k : Stack p last) (kind : FaultKind)
    (message : String) (span : Option Span) : (raise m k kind message span).machine = m := by
  unfold raise
  split <;> rfl

end Progress

namespace Machine

variable {m : Machine}

def memory (m : Machine) : Memory := ⟨m.store, m.registry, m.global⟩

/-! One lemma for each part of a step. -/

theorem becomes_raise (m : Machine) (k : Stack p last) (kind : FaultKind) (message : String)
    (span : Option Span) :
    m.memory.Becomes (Progress.raise m k kind message span).machine.memory := by
  rw [Progress.machine_raise]
  exact .refl

theorem machine_readMember {k : Stack .expression last} {owner : Value} {property : String}
    {span : Span} {use : Value → Progress last} (huse : ∀ v, (use v).machine = m) :
    (m.readMember k owner property span use).machine = m := by
  unfold readMember
  split <;> first | exact huse _ | exact Progress.machine_raise ..

theorem machine_callWith (m : Machine) (k : Stack .expression last) (site : CallSite)
    (receiver function : Value) (done : List Value) (rest : List Expr) :
    (m.callWith k site receiver function done rest).machine = m := by
  cases rest with
  | nil =>
      rw [callWith]
      split
      · rfl
      · exact Progress.machine_raise ..
  | cons argument rest => rfl

theorem machine_fillObject (m : Machine) (k : Stack .expression last) (id : ObjectId)
    (entries : List Entry) : (m.fillObject k id entries).machine = m := by
  cases entries <;> rfl

theorem becomes_evaluateEntered (m : Machine) (k : Stack .expression last) (e : Expr) :
    m.memory.Becomes (m.evaluateEntered k e).machine.memory := by
  cases e with
  | «variable» span name =>
      rw [evaluateEntered]
      split
      · exact .refl
      · exact m.becomes_raise ..
  | unary span op operand =>
      unfold evaluateEntered
      split <;> first | exact .refl | contradiction
  | call span callee arguments => cases callee <;> exact .refl
  | object span entries =>
      simp only [evaluateEntered, machine_fillObject]
      exact .allocate .refl .plain
  | literal | this | binary | logical | assign | member => exact .refl
  | function => exact .identify .refl

theorem becomes_executeEntered (m : Machine) (k : Stack .statement last) (s : Stmt) :
    m.memory.Becomes (m.executeEntered k s).machine.memory := by
  cases s with
  | var span name initial =>
      cases initial with
      | some e => exact .refl
      | none =>
          simp only [executeEntered, Progress.machine_focus]
          split
          · exact .refl
          · exact .set .refl ..
  | function span code =>
      simp only [executeEntered, Progress.machine_focus]
      have hclose : m.memory.Becomes (m.close code).2.memory := .identify .refl
      split
      · exact hclose.set ..
      · exact hclose
  | «return» span value => cases value <;> exact .refl
  | expression | block | conditional | «while» | empty => exact .refl

theorem becomes_enterClosure (m : Machine) (k : Stack .expression last) (receiver : Value)
    (closure : Closure) (arguments : List Value) :
    m.memory.Becomes (m.enterClosure k receiver closure arguments).machine.memory := by
  unfold enterClosure
  split
  · exact m.becomes_raise ..
  · cases closure.isUnit with
    | true => exact .refl
    | false => exact Memory.Becomes.bindParameters (.allocate .refl .scope) ..

theorem becomes_invoke (m : Machine) (hosts : HostTable) (k : Stack .expression last)
    (receiver : Value) (arguments : List Value) (callee : Value) :
    m.memory.Becomes (m.invoke hosts k receiver arguments callee).machine.memory := by
  unfold invoke
  split
  · exact .refl
  · unfold print
    dsimp only
    split
    · exact .refl
    · exact m.becomes_raise ..
  · unfold evalArgument
    split
    · exact .refl
    · dsimp only
      split
      · exact .refl
      · exact (m.compile evalUnitName _).2.becomes_raise ..
    · exact .refl
  · exact .refl
  · exact m.becomes_raise ..

theorem becomes_perform (m : Machine) (k : Stack .expression last) (script : HostScript)
    (hmakes : (⟨_, .perform script, k, m⟩ : Situation last).makesForHost = false) :
    m.memory.Becomes (m.perform k script).machine.memory := by
  cases script with
  | raise kind message => exact m.becomes_raise ..
  | compile name source resume =>
      unfold perform
      dsimp only
      split
      · exact .identify .refl
      · exact .refl
  | create => cases hmakes
  | finish | fail | invoke | properties | armed => exact .refl

theorem becomes_assignTo (m : Machine) (k : Stack .expression last) (value : Value)
    (target : Expr) : m.memory.Becomes (m.assignTo k value target).machine.memory := by
  unfold assignTo
  split
  · exact Memory.Becomes.assign .refl ..
  · exact .refl
  · exact m.becomes_raise ..

theorem becomes_resumeValue (m : Machine) (v : Value) (frame : Frame .expression q)
    (k : Stack q last) : m.memory.Becomes (m.resumeValue v frame k).machine.memory := by
  cases frame with
  | logicalRight op right =>
      unfold resumeValue
      dsimp only
      split <;> split <;> exact .refl
  | assignTo target => exact m.becomes_assignTo k v target
  | assignMember span property value =>
      unfold resumeValue
      dsimp only
      split
      · exact .set .refl ..
      · exact m.becomes_raise ..
  | readMember span property =>
      rw [resumeValue, machine_readMember (m := m) fun _ => rfl]
      exact .refl
  | callMember site property =>
      rw [resumeValue, machine_readMember (m := m) fun _ => machine_callWith ..]
      exact .refl
  | callFunction | callArgument =>
      rw [resumeValue, machine_callWith]
      exact .refl
  | objectEntry id key rest =>
      rw [resumeValue, machine_fillObject]
      exact .set .refl ..
  | defineVar name => exact .set .refl ..
  | branch thenBranch elseBranch =>
      unfold resumeValue
      dsimp only
      split
      · exact .refl
      · split <;> exact .refl
  | loopTest condition body value =>
      unfold resumeValue
      dsimp only
      split <;> exact .refl
  | leave | binaryRight | binaryApply | unaryApply | locate | host | complete | returnValue =>
      exact .refl

theorem memory_resumeCompletion (m : Machine) (c : Completion) (frame : Frame .statement q)
    (k : Stack q last) : (m.resumeCompletion c frame k).machine.memory = m.memory := by
  cases frame with
  | leave | returnTo => rfl
  | loopBody | sequence => cases c <;> rfl

theorem memory_passFault (m : Machine) (f : Fault) (frame : Frame p q) (k : Stack q last) :
    (m.passFault f frame k).machine.memory = m.memory := by
  cases frame <;> rfl

theorem becomes_enterPhrase (m : Machine) (k : Stack p last)
    {entered : Machine → Stack p last → Progress last}
    (hentered : ∀ (n : Machine) (k : Stack p last),
      n.memory.Becomes (entered n k).machine.memory) :
    m.memory.Becomes (m.enterPhrase k entered).machine.memory := by
  unfold enterPhrase
  split
  · exact m.becomes_raise ..
  · exact hentered { m with nesting := m.nesting + 1 } (.cons .leave k)

end Machine

namespace Situation

/-- A step changes the memory in these ways only, unless it makes an object for a host. -/
theorem becomes_step (hosts : HostTable) (s : Situation last) (hmakes : s.makesForHost = false) :
    s.machine.memory.Becomes (s.step hosts).machine.memory := by
  obtain ⟨phrase, focus, k, m⟩ := s
  cases focus with
  | evaluate e => exact m.becomes_enterPhrase k fun n k => n.becomes_evaluateEntered k e
  | execute s => exact m.becomes_enterPhrase k fun n k => n.becomes_executeEntered k s
  | executeAll body value => cases body <;> exact .refl
  | invoke receiver callee arguments => exact m.becomes_invoke hosts k receiver arguments callee
  | enter receiver closure arguments => exact m.becomes_enterClosure k receiver closure arguments
  | perform script => exact m.becomes_perform k script hmakes
  | value v =>
      cases k with
      | nil => exact .refl
      | cons frame k => exact m.becomes_resumeValue v frame k
  | completion c =>
      cases k with
      | nil => exact .refl
      | cons frame k =>
          rw [step, m.memory_resumeCompletion]
          exact .refl
  | fault f =>
      cases k with
      | nil => exact .refl
      | cons frame k =>
          rw [step, m.memory_passFault]
          exact .refl

end Situation

end ScriptHost
