import ScriptHost.Proofs.Machine.Context
import ScriptHost.Proofs.Token.Scratch

/-!
What a step makes of the trap and of the buffer for string literals. The trap stays as it is, and
only an unarmed one lets a fault be stranded. Of the buffer nothing is ever read: over machines that
differ in it alone the same is done, and the machines that come of it differ in it alone again.
-/

namespace ScriptHost

variable {p q last : Phrase}

/-- The machine with another buffer for string literals. -/
def Machine.buffered (m : Machine) (b : TextBuffer) : Machine := { m with scratch := b }

/-- The situation with another buffer for string literals. -/
def Situation.buffered (s : Situation last) (b : TextBuffer) : Situation last :=
  { s with machine := s.machine.buffered b }

namespace Progress

/-- Two steps that come to the same but for the buffer, both with this trap; where they strand a
fault, the trap is unarmed. -/
inductive Alike (trap : Trap) : Progress last → Progress last → Prop
  | next (s : Situation last) (b : TextBuffer) (htrap : s.machine.trap = trap) :
      Alike trap (.next s) (.next (s.buffered b))
  | returned (m : Machine) (b : TextBuffer) {ending : Ending last} (htrap : m.trap = trap)
      (hreturned : ¬ ending.IsStranded) : Alike trap (.halt m ending) (.halt (m.buffered b) ending)
  | stranded (m : Machine) (b : TextBuffer) (message : String) (htrap : m.trap = trap)
      (hunarmed : trap.armed = false) :
      Alike trap (.halt m (.stranded message)) (.halt (m.buffered b) (.stranded message))

variable {m : Machine} {trap : Trap}

theorem alike_focus (k : Stack p last) (f : Focus p) (b : TextBuffer) (h : m.trap = trap) :
    (focus m k f).Alike trap (focus (m.buffered b) k f) :=
  .next ⟨p, f, k, m⟩ b h

theorem alike_raise (k : Stack p last) (kind : FaultKind) (message : String) (span : Option Span)
    (b : TextBuffer) (h : m.trap = trap) :
    (raise m k kind message span).Alike trap (raise (m.buffered b) k kind message span) := by
  have hsame : (m.buffered b).trap = m.trap := rfl
  rw [raise, raise, hsame]
  by_cases harmed : m.trap.armed = true
  · rw [Trap.raise_eq_ok_iff.mpr ⟨harmed, rfl⟩]
    exact alike_focus k _ b h
  · have hraise : m.trap.raise ⟨kind, message, span⟩ =
        .error ("fault raised with no armed run: " ++ Fault.display ⟨kind, message, span⟩) :=
      if_neg harmed
    rw [hraise]
    exact .stranded m b _ h (h ▸ Bool.eq_false_iff.mpr harmed)

end Progress

namespace Machine

variable {m : Machine} {trap : Trap}

/-! One lemma for each part of a step. -/

theorem alike_readMember {k : Stack .expression last} {owner : Value} {property : String}
    {span : Span} {use use' : Value → Progress last} (b : TextBuffer) (h : m.trap = trap)
    (huse : ∀ v, (use v).Alike trap (use' v)) :
    (m.readMember k owner property span use).Alike trap
      ((m.buffered b).readMember k owner property span use') := by
  cases owner with
  | object id => exact huse _
  | string s => exact huse _
  | undefined | null => exact Progress.alike_raise k _ _ _ b h
  | _ => exact huse _

theorem alike_callWith {k : Stack .expression last} {site : CallSite} {receiver function : Value}
    {done : List Value} (rest : List Expr) (b : TextBuffer) (h : m.trap = trap) :
    (m.callWith k site receiver function done rest).Alike trap
      ((m.buffered b).callWith k site receiver function done rest) := by
  cases rest with
  | nil =>
      rw [callWith, callWith]
      split
      · exact Progress.alike_focus _ _ b h
      · exact Progress.alike_raise k _ _ _ b h
  | cons argument rest => exact Progress.alike_focus _ _ b h

theorem alike_fillObject {k : Stack .expression last} {id : ObjectId} (entries : List Entry)
    (b : TextBuffer) (h : m.trap = trap) :
    (m.fillObject k id entries).Alike trap ((m.buffered b).fillObject k id entries) := by
  cases entries with
  | nil => exact Progress.alike_focus _ _ b h
  | cons entry rest => exact Progress.alike_focus _ _ b h

theorem alike_evaluateEntered {k : Stack .expression last} (e : Expr) (b : TextBuffer)
    (h : m.trap = trap) :
    (m.evaluateEntered k e).Alike trap ((m.buffered b).evaluateEntered k e) := by
  cases e with
  | «variable» span name =>
      have hlookup : (m.buffered b).store.lookup (m.buffered b).environment name =
          m.store.lookup m.environment name := rfl
      rw [evaluateEntered, evaluateEntered, hlookup]
      split
      · exact Progress.alike_focus _ _ b h
      · exact Progress.alike_raise k _ _ _ b h
  | unary span op operand =>
      unfold evaluateEntered
      split <;> first | exact Progress.alike_focus _ _ b h | contradiction
  | call span callee arguments => cases callee <;> exact Progress.alike_focus _ _ b h
  | object span entries => exact alike_fillObject (m := (m.allocate .plain).2) entries b h
  | literal | this | binary | logical | assign | member | function =>
      exact Progress.alike_focus _ _ b h

theorem alike_executeEntered {k : Stack .statement last} (s : Stmt) (b : TextBuffer)
    (h : m.trap = trap) :
    (m.executeEntered k s).Alike trap ((m.buffered b).executeEntered k s) := by
  cases s with
  | var span name initial =>
      cases initial with
      | some e => exact Progress.alike_focus _ _ b h
      | none =>
          have hhas : (m.buffered b).store.has (m.buffered b).environment.scope name =
              m.store.has m.environment.scope name := rfl
          rw [executeEntered, executeEntered, hhas]
          split
          · exact Progress.alike_focus _ _ b h
          · exact Progress.alike_focus (m := m.define name .undefined) _ _ b h
  | function span code =>
      unfold executeEntered
      dsimp only
      split
      · exact Progress.alike_focus _ _ b h
      · exact Progress.alike_focus _ _ b h
  | «return» span value => cases value <;> exact Progress.alike_focus _ _ b h
  | expression | block | conditional | «while» | empty => exact Progress.alike_focus _ _ b h

theorem alike_enterClosure {k : Stack .expression last} (receiver : Value) (closure : Closure)
    (arguments : List Value) (b : TextBuffer) (h : m.trap = trap) :
    (m.enterClosure k receiver closure arguments).Alike trap
      ((m.buffered b).enterClosure k receiver closure arguments) := by
  have hroom : ((m.buffered b).maxCallDepth ≤ (m.buffered b).depth) = (m.maxCallDepth ≤ m.depth) :=
    rfl
  simp only [enterClosure, hroom]
  split
  · exact Progress.alike_raise k _ _ _ b h
  · split
    · exact Progress.alike_focus _ _ b h
    · exact Progress.alike_focus _ _ b h

theorem alike_print {k : Stack .expression last} (arguments : List Value) (b : TextBuffer)
    (h : m.trap = trap) : (m.print k arguments).Alike trap ((m.buffered b).print k arguments) := by
  have houtput : (m.buffered b).output = m.output := rfl
  simp only [print, houtput]
  split
  · exact Progress.alike_focus _ _ b h
  · exact Progress.alike_raise k _ _ _ b h

theorem compile_buffered (m : Machine) (b : TextBuffer) (name source : String) :
    ∃ left, (m.buffered b).compile name source =
      ((m.compile name source).1, (m.compile name source).2.buffered left) :=
  ⟨_, Prod.ext (ScriptUnit.compile_fst_eq name source m.globalEnvironment b m.scratch) rfl⟩

theorem alike_evalArgument {k : Stack .expression last} (arguments : List Value) (b : TextBuffer)
    (h : m.trap = trap) :
    (m.evalArgument k arguments).Alike trap ((m.buffered b).evalArgument k arguments) := by
  unfold evalArgument
  split
  · exact Progress.alike_focus _ _ b h
  · rename_i source rest
    obtain ⟨left, hcompiled⟩ := compile_buffered m b evalUnitName source
    dsimp only
    rw [hcompiled]
    dsimp only
    split
    · exact Progress.alike_focus _ _ left h
    · exact Progress.alike_raise k _ _ _ left h
  · exact Progress.alike_focus _ _ b h

theorem alike_invoke {k : Stack .expression last} (hosts : HostTable) (receiver : Value)
    (arguments : List Value) (callee : Value) (b : TextBuffer) (h : m.trap = trap) :
    (m.invoke hosts k receiver arguments callee).Alike trap
      ((m.buffered b).invoke hosts k receiver arguments callee) := by
  unfold invoke
  split
  · exact Progress.alike_focus _ _ b h
  · exact alike_print arguments b h
  · exact alike_evalArgument arguments b h
  · exact Progress.alike_focus _ _ b h
  · exact Progress.alike_raise k _ _ _ b h

theorem alike_perform {k : Stack .expression last} (script : HostScript) (b : TextBuffer)
    (h : m.trap = trap) : (m.perform k script).Alike trap ((m.buffered b).perform k script) := by
  cases script with
  | raise kind message => exact Progress.alike_raise k _ _ _ b h
  | compile name source resume =>
      obtain ⟨left, hcompiled⟩ := compile_buffered m b name source
      unfold perform
      dsimp only
      rw [hcompiled]
      dsimp only
      split
      · exact Progress.alike_focus _ _ left h
      · exact Progress.alike_focus _ _ left h
  | finish | fail | invoke | create | properties | armed => exact Progress.alike_focus _ _ b h

theorem alike_assignTo {k : Stack .expression last} (value : Value) (target : Expr)
    (b : TextBuffer) (h : m.trap = trap) :
    (m.assignTo k value target).Alike trap ((m.buffered b).assignTo k value target) := by
  unfold assignTo
  split
  · exact Progress.alike_focus _ _ b h
  · exact Progress.alike_focus _ _ b h
  · exact Progress.alike_raise k _ _ _ b h

theorem alike_resumeValue (v : Value) (frame : Frame .expression q) {k : Stack q last}
    (b : TextBuffer) (h : m.trap = trap) :
    (m.resumeValue v frame k).Alike trap ((m.buffered b).resumeValue v frame k) := by
  cases frame with
  | logicalRight op right =>
      unfold resumeValue
      dsimp only
      split <;> split <;> exact Progress.alike_focus _ _ b h
  | assignTo target => exact alike_assignTo v target b h
  | assignMember span property value =>
      unfold resumeValue
      dsimp only
      split
      · exact Progress.alike_focus _ _ b h
      · exact Progress.alike_raise k _ _ _ b h
  | readMember span property =>
      unfold resumeValue
      exact alike_readMember b h fun _ => Progress.alike_focus _ _ b h
  | callMember site property =>
      unfold resumeValue
      exact alike_readMember b h fun _ => alike_callWith _ b h
  | callFunction site => exact alike_callWith _ b h
  | callArgument site receiver function done rest => exact alike_callWith _ b h
  | objectEntry id key rest =>
      exact alike_fillObject (m := { m with store := m.store.set id key v }) rest b h
  | branch thenBranch elseBranch =>
      unfold resumeValue
      dsimp only
      split
      · exact Progress.alike_focus _ _ b h
      · split
        · exact Progress.alike_focus _ _ b h
        · exact Progress.alike_focus _ _ b h
  | loopTest condition body value =>
      unfold resumeValue
      dsimp only
      split
      · exact Progress.alike_focus _ _ b h
      · exact Progress.alike_focus _ _ b h
  | leave | binaryRight | binaryApply | unaryApply | locate | host | defineVar | complete
  | returnValue => exact Progress.alike_focus _ _ b h

theorem alike_resumeCompletion (c : Completion) (frame : Frame .statement q) {k : Stack q last}
    (b : TextBuffer) (h : m.trap = trap) :
    (m.resumeCompletion c frame k).Alike trap ((m.buffered b).resumeCompletion c frame k) := by
  cases frame with
  | leave | returnTo => exact Progress.alike_focus _ _ b h
  | loopBody | sequence => cases c <;> exact Progress.alike_focus _ _ b h

theorem alike_passFault (f : Fault) (frame : Frame p q) {k : Stack q last} (b : TextBuffer)
    (h : m.trap = trap) :
    (m.passFault f frame k).Alike trap ((m.buffered b).passFault f frame k) := by
  cases frame <;> exact Progress.alike_focus _ _ b h

theorem alike_enterPhrase {k : Stack p last} {entered : Machine → Stack p last → Progress last}
    (b : TextBuffer) (h : m.trap = trap)
    (hentered : ∀ (n : Machine) (l : Stack p last), n.trap = trap →
      (entered n l).Alike trap (entered (n.buffered b) l)) :
    (m.enterPhrase k entered).Alike trap ((m.buffered b).enterPhrase k entered) := by
  have hroom : (m.buffered b).nesting = m.nesting := rfl
  rw [enterPhrase, enterPhrase, hroom]
  split
  · exact Progress.alike_raise k _ _ _ b h
  · exact hentered _ _ h

end Machine

namespace Situation

variable {hosts : HostTable}

/-- A step keeps the trap, reads nothing of the buffer, and strands no fault while the trap is
armed. -/
theorem alike_step (hosts : HostTable) (s : Situation last) (b : TextBuffer) :
    (s.step hosts).Alike s.machine.trap ((s.buffered b).step hosts) := by
  obtain ⟨phrase, focus, k, m⟩ := s
  cases focus with
  | evaluate e =>
      exact Machine.alike_enterPhrase b rfl fun _ _ h => Machine.alike_evaluateEntered e b h
  | execute s =>
      exact Machine.alike_enterPhrase b rfl fun _ _ h => Machine.alike_executeEntered s b h
  | executeAll body value => cases body <;> exact Progress.alike_focus _ _ b rfl
  | invoke receiver callee arguments =>
      exact Machine.alike_invoke hosts receiver arguments callee b rfl
  | enter receiver closure arguments =>
      exact Machine.alike_enterClosure receiver closure arguments b rfl
  | perform script => exact Machine.alike_perform script b rfl
  | value v =>
      cases k with
      | nil => exact .returned m b rfl id
      | cons frame k => exact Machine.alike_resumeValue v frame b rfl
  | completion c =>
      cases k with
      | nil => exact .returned m b rfl id
      | cons frame k => exact Machine.alike_resumeCompletion c frame b rfl
  | fault f =>
      cases k with
      | nil => exact .returned m b rfl id
      | cons frame k => exact Machine.alike_passFault f frame b rfl

/-- Whatever the buffer holds, a run comes to the same end with the same machine but for the
buffer. -/
theorem run_buffered (fuel : Nat) (s : Situation last) (b : TextBuffer) :
    ∃ left, (s.buffered b).run hosts fuel =
      (s.run hosts fuel).map fun result => (result.1.buffered left, result.2) := by
  -- what compiles on the way writes to either buffer, so the two go on to differ in others
  induction fuel generalizing s b with
  | zero => exact ⟨b, rfl⟩
  | succ fuel ih =>
      have hstep := alike_step hosts s b
      rw [run, run]
      generalize s.step hosts = progress at hstep
      generalize (s.buffered b).step hosts = other at hstep
      cases hstep with
      | next t left htrap => exact ih t left
      | returned m left htrap hreturned => exact ⟨left, rfl⟩
      | stranded m left message htrap hunarmed => exact ⟨left, rfl⟩

end Situation

theorem Machine.runUnit_buffered (m : Machine) (b : TextBuffer) (hosts : HostTable) (fuel : Nat)
    (u : ScriptUnit) :
    ∃ left, (m.buffered b).runUnit hosts fuel u =
      (m.runUnit hosts fuel u).map fun result => (result.1.buffered left, result.2) := by
  have htrap : (m.buffered b).trap = m.trap := rfl
  rw [runUnit, runUnit, htrap]
  cases m.trap.arm with
  | error f => exact ⟨b, rfl⟩
  | ok trap =>
      obtain ⟨left, hrun⟩ := @Situation.run_buffered _ hosts fuel
        ⟨_, .enter m.globalValue u.closure [], .nil, { m with trap := trap }⟩ b
      refine ⟨left, ?_⟩
      dsimp only
      rw [Option.map_map]
      refine (congrArg _ hrun).trans ?_
      rw [Option.map_map]
      rfl

end ScriptHost
