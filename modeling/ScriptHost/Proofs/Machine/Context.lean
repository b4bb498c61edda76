import ScriptHost.Machine.Step

/-!
What a run gives back. The frames of a stack record what the machine is to return to, so a stack
turns the present context into the one it had before any of the frames was pushed. One step never
changes that context, whether it hands on a value or a fault.
-/

namespace ScriptHost

variable {p q last : Phrase}

/-- The part of a machine that belongs to the code being run: its environment and receiver, the two
counters and the trap, with the global object and the limit laid down for it. -/
structure Context where
  environment : Environment
  receiver : Value
  depth : Nat
  nesting : Nat
  trap : Trap
  global : ObjectId
  maxCallDepth : Nat

namespace Machine

def context (m : Machine) : Context :=
  ⟨m.environment, m.receiver, m.depth, m.nesting, m.trap, m.global, m.maxCallDepth⟩

/-- The machine is in the global frame and no run is under way. -/
structure AtRest (m : Machine) : Prop where
  environment : m.environment = m.globalEnvironment
  receiver : m.receiver = m.globalValue
  depth : m.depth = 0
  nesting : m.nesting = 0
  trap : m.trap = .idle

theorem AtRest.of_context_eq {m n : Machine} (h : n.context = m.context) (hm : m.AtRest) :
    n.AtRest := by
  simp only [context, Context.mk.injEq] at h
  obtain ⟨henvironment, hreceiver, hdepth, hnesting, htrap, hglobal, -⟩ := h
  constructor
  · rw [henvironment, hm.environment, globalEnvironment, globalEnvironment, hglobal]
  · rw [hreceiver, hm.receiver, globalValue, globalValue, hglobal]
  · rw [hdepth, hm.depth]
  · rw [hnesting, hm.nesting]
  · rw [htrap, hm.trap]

end Machine

/-- The context after a result or a fault has passed a frame. -/
def Frame.unwind : Frame p q → Context → Context
  | .leave, c => { c with nesting := c.nesting - 1 }
  | .returnTo environment receiver _, c =>
    { c with environment := environment, receiver := receiver, depth := c.depth - 1 }
  | _, c => c

/-- The context after a result or a fault has passed all frames. -/
def Stack.unwind : {p q : Phrase} → Stack p q → Context → Context
  | _, _, .nil, c => c
  | _, _, .cons frame rest, c => rest.unwind (frame.unwind c)

/-- The context that a situation will have gone back to in the end. -/
def Situation.home (s : Situation last) : Context := s.stack.unwind s.machine.context

/-- Whether a run came to nothing because a fault had no run to end. -/
def Ending.IsStranded : Ending p → Prop
  | .stranded _ => True
  | _ => False

namespace Progress

/-- What holds of the next situation, or of the machine and the ending that a step halts with. -/
def Leads (next : Situation last → Prop) (halt : Machine → Ending last → Prop) :
    Progress last → Prop
  | .next s => next s
  | .halt m ending => halt m ending

/-- A step leads to a situation of the given home, or halts there. -/
def Keeps (c : Context) : Progress last → Prop :=
  Leads (fun s => s.home = c) fun m ending => ¬ ending.IsStranded → m.context = c

theorem keeps_raise {m : Machine} {k : Stack p last} {c : Context} (kind : FaultKind)
    (message : String) (span : Option Span) (h : k.unwind m.context = c) :
    (raise m k kind message span).Keeps c := by
  unfold raise
  split
  · exact h
  · exact fun returned => absurd trivial returned

end Progress

namespace Machine

variable {m : Machine} {c : Context}

/-! One lemma for each part of a step. In all of them the hypothesis says that the frames still to
be passed lead back to `c`. -/

theorem keeps_readMember {k : Stack .expression last} {owner : Value} {property : String}
    {span : Span} {use : Value → Progress last} (h : k.unwind m.context = c)
    (huse : ∀ v, (use v).Keeps c) : (m.readMember k owner property span use).Keeps c := by
  unfold readMember
  split
  · exact huse _
  · exact huse _
  · exact Progress.keeps_raise _ _ _ h
  · exact Progress.keeps_raise _ _ _ h
  · exact huse _

theorem keeps_callWith {k : Stack .expression last} {site : CallSite} {receiver function : Value}
    {done : List Value} (rest : List Expr) (h : k.unwind m.context = c) :
    (m.callWith k site receiver function done rest).Keeps c := by
  cases rest with
  | nil =>
      rw [callWith]
      split
      · exact h
      · exact Progress.keeps_raise _ _ _ h
  | cons argument rest => exact h

theorem keeps_fillObject {k : Stack .expression last} {id : ObjectId} (entries : List Entry)
    (h : k.unwind m.context = c) : (m.fillObject k id entries).Keeps c := by
  cases entries with
  | nil => exact h
  | cons entry rest => exact h

theorem keeps_evaluateEntered {k : Stack .expression last} (e : Expr)
    (h : k.unwind m.context = c) : (m.evaluateEntered k e).Keeps c := by
  cases e with
  | «variable» span name =>
      rw [evaluateEntered]
      split
      · exact h
      · exact Progress.keeps_raise _ _ _ h
  | unary span op operand =>
      unfold evaluateEntered
      split <;> first | exact h | contradiction
  | call span callee arguments => cases callee <;> exact h
  | object span entries =>
      exact keeps_fillObject (m := (m.allocate .plain).2) entries h
  | literal | this | binary | logical | assign | member | function => exact h

theorem keeps_executeEntered {k : Stack .statement last} (s : Stmt)
    (h : k.unwind m.context = c) : (m.executeEntered k s).Keeps c := by
  cases s with
  | var span name initial =>
      cases initial with
      | some e => exact h
      | none =>
          rw [executeEntered]
          split
          · exact h
          · exact h
  | function span code =>
      unfold executeEntered
      dsimp only
      split
      · exact h
      · exact h
  | «return» span value => cases value <;> exact h
  | expression | block | conditional | «while» | empty => exact h

theorem keeps_enterClosure {k : Stack .expression last} (receiver : Value) (closure : Closure)
    (arguments : List Value) (h : k.unwind m.context = c) :
    (m.enterClosure k receiver closure arguments).Keeps c := by
  unfold enterClosure
  split
  · exact Progress.keeps_raise _ _ _ h
  · dsimp only
    split
    · exact h
    · exact h

theorem keeps_print {k : Stack .expression last} (arguments : List Value)
    (h : k.unwind m.context = c) : (m.print k arguments).Keeps c := by
  unfold print
  dsimp only
  split
  · exact h
  · exact Progress.keeps_raise _ _ _ h

theorem keeps_evalArgument {k : Stack .expression last} (arguments : List Value)
    (h : k.unwind m.context = c) : (m.evalArgument k arguments).Keeps c := by
  unfold evalArgument
  split
  · exact h
  · dsimp only
    split
    · exact h
    · exact Progress.keeps_raise _ _ _ h
  · exact h

theorem keeps_invoke {k : Stack .expression last} (hosts : HostTable) (receiver : Value)
    (arguments : List Value) (callee : Value) (h : k.unwind m.context = c) :
    (m.invoke hosts k receiver arguments callee).Keeps c := by
  unfold invoke
  split
  · exact h
  · exact keeps_print arguments h
  · exact keeps_evalArgument arguments h
  · exact h
  · exact Progress.keeps_raise _ _ _ h

theorem keeps_perform {k : Stack .expression last} (script : HostScript)
    (h : k.unwind m.context = c) : (m.perform k script).Keeps c := by
  cases script with
  | raise kind message => exact Progress.keeps_raise _ _ _ h
  | compile name source resume =>
      unfold perform
      dsimp only
      split
      · exact h
      · exact h
  | finish | fail | invoke | create | properties | armed => exact h

theorem keeps_assignTo {k : Stack .expression last} (value : Value) (target : Expr)
    (h : k.unwind m.context = c) : (m.assignTo k value target).Keeps c := by
  unfold assignTo
  split
  · exact h
  · exact h
  · exact Progress.keeps_raise _ _ _ h

theorem keeps_resumeValue (v : Value) (frame : Frame .expression q) {k : Stack q last}
    (h : k.unwind (frame.unwind m.context) = c) : (m.resumeValue v frame k).Keeps c := by
  cases frame with
  | logicalRight op right =>
      unfold resumeValue
      dsimp only
      split <;> split <;> exact h
  | assignTo target => exact keeps_assignTo v target h
  | assignMember span property value =>
      unfold resumeValue
      dsimp only
      split
      · exact h
      · exact Progress.keeps_raise _ _ _ h
  | readMember span property =>
      unfold resumeValue
      exact keeps_readMember h fun _ => h
  | callMember site property =>
      unfold resumeValue
      exact keeps_readMember h fun _ => keeps_callWith _ h
  | callFunction site => exact keeps_callWith _ h
  | callArgument site receiver function done rest => exact keeps_callWith _ h
  | objectEntry id key rest => exact keeps_fillObject _ h
  | branch thenBranch elseBranch =>
      unfold resumeValue
      dsimp only
      split
      · exact h
      · split
        · exact h
        · exact h
  | loopTest condition body value =>
      unfold resumeValue
      dsimp only
      split
      · exact h
      · exact h
  | leave | binaryRight | binaryApply | unaryApply | locate | host | defineVar | complete
  | returnValue => exact h

theorem keeps_resumeCompletion (completed : Completion) (frame : Frame .statement q)
    {k : Stack q last} (h : k.unwind (frame.unwind m.context) = c) :
    (m.resumeCompletion completed frame k).Keeps c := by
  cases frame with
  | leave | returnTo => exact h
  | loopBody | sequence => cases completed <;> exact h

theorem keeps_passFault (f : Fault) (frame : Frame p q) {k : Stack q last}
    (h : k.unwind (frame.unwind m.context) = c) : (m.passFault f frame k).Keeps c := by
  cases frame <;> exact h

theorem keeps_enterPhrase {k : Stack p last} {entered : Machine → Stack p last → Progress last}
    (h : k.unwind m.context = c)
    (hentered : ∀ n l, l.unwind n.context = c → (entered n l).Keeps c) :
    (m.enterPhrase k entered).Keeps c := by
  unfold enterPhrase
  split
  · exact Progress.keeps_raise _ _ _ h
  · exact hentered _ _ h

end Machine

namespace Situation

variable {hosts : HostTable}

/-- One step changes nothing of the context that the run will go back to. -/
theorem keeps_step (hosts : HostTable) (s : Situation last) : (s.step hosts).Keeps s.home := by
  obtain ⟨phrase, focus, k, m⟩ := s
  cases focus with
  | evaluate e =>
      exact Machine.keeps_enterPhrase rfl fun _ _ h => Machine.keeps_evaluateEntered e h
  | execute s =>
      exact Machine.keeps_enterPhrase rfl fun _ _ h => Machine.keeps_executeEntered s h
  | executeAll body value => cases body <;> exact rfl
  | invoke receiver callee arguments =>
      exact Machine.keeps_invoke hosts receiver arguments callee rfl
  | enter receiver closure arguments =>
      exact Machine.keeps_enterClosure receiver closure arguments rfl
  | perform script => exact Machine.keeps_perform script rfl
  | value v =>
      cases k with
      | nil => exact fun _ => rfl
      | cons frame k => exact Machine.keeps_resumeValue v frame rfl
  | completion completed =>
      cases k with
      | nil => exact fun _ => rfl
      | cons frame k => exact Machine.keeps_resumeCompletion completed frame rfl
  | fault f =>
      cases k with
      | nil => exact fun _ => rfl
      | cons frame k => exact Machine.keeps_passFault f frame rfl

/-- What a run comes to, it comes to from the next situation as well. -/
theorem run_of_step {fuel : Nat} {s t : Situation last} {result : Machine × Ending last}
    (hstep : s.step hosts = .next t) (hrun : s.run hosts fuel = some result) :
    t.run hosts fuel = some result := by
  have hlonger := run_add hrun 1
  rw [run, hstep] at hlonger
  exact hlonger

/-- What every step keeps, or turns into `Q` where it halts, a whole run turns into `Q`. -/
theorem halt_of_run {P : Situation last → Prop} {Q : Machine → Ending last → Prop}
    (hstep : ∀ s, P s → (s.step hosts).Leads P Q) {fuel : Nat} {s : Situation last}
    {m : Machine} {ending : Ending last} (hinv : P s)
    (h : s.run hosts fuel = some (m, ending)) : Q m ending := by
  induction fuel generalizing s with
  | zero => simp [run] at h
  | succ fuel ih =>
      have hs := hstep s hinv
      rw [run] at h
      cases hp : s.step hosts with
      | next t =>
          rw [hp] at h hs
          exact ih hs h
      | halt n e =>
          rw [hp] at h hs
          simp only [Option.some.injEq, Prod.mk.injEq] at h
          obtain ⟨rfl, rfl⟩ := h
          exact hs

/-- A run that ends in a result or a fault ends in the context that its stack leads back to. -/
theorem context_of_run {fuel : Nat} {s : Situation last} {m : Machine} {ending : Ending last}
    (h : s.run hosts fuel = some (m, ending)) (hreturned : ¬ ending.IsStranded) :
    m.context = s.home := by
  refine halt_of_run (P := fun t => t.home = s.home)
    (Q := fun n e => ¬ e.IsStranded → n.context = s.home) ?_ rfl h hreturned
  intro t ht
  have hkeeps := keeps_step hosts t
  rw [ht] at hkeeps
  exact hkeeps

end Situation

end ScriptHost
