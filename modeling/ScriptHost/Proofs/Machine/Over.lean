import ScriptHost.Proofs.Machine.Course

/-!
Runs over further frames. A step looks at no frame below the next one, so a run over further frames
goes as it does without them, up to its result, and from there on with that handed to them.
-/

namespace ScriptHost

variable {p q r last : Phrase}

/-- The situation over further frames. -/
def Situation.over (below : Stack q last) (s : Situation q) : Situation last :=
  ⟨s.phrase, s.focus, s.stack.append below, s.machine⟩

/-- A result handed to further frames. -/
def Ending.over (below : Stack q last) (m : Machine) : Ending q → Progress last
  | .value v => .next ⟨_, .value v, below, m⟩
  | .completion c => .next ⟨_, .completion c, below, m⟩
  | .fault f => .next ⟨_, .fault f, below, m⟩
  | .stranded message => .halt m (.stranded message)

theorem Ending.exists_over (below : Stack q last) (m : Machine) {ending : Ending q}
    (h : ¬ ending.IsStranded) : ∃ t, ending.over below m = .next t := by
  cases ending with
  | stranded message => exact absurd trivial h
  | _ => exact ⟨_, rfl⟩

/-- What a step leads to over further frames. -/
def Progress.over (below : Stack q last) : Progress q → Progress last
  | .next s => .next (s.over below)
  | .halt m ending => ending.over below m

theorem Progress.over_raise (below : Stack q last) (m : Machine) (k : Stack p q) (kind : FaultKind)
    (message : String) (span : Option Span) :
    raise m (k.append below) kind message span = (raise m k kind message span).over below := by
  rw [raise, raise]
  cases m.trap.raise ⟨kind, message, span⟩ <;> rfl

namespace Machine

variable {m : Machine} {below : Stack q last}

/-! One lemma for each part of a step. -/

theorem over_readMember {k : Stack .expression q} (owner : Value) (property : String) (span : Span)
    {use : Value → Progress q} {use' : Value → Progress last}
    (huse : ∀ v, use' v = (use v).over below) :
    m.readMember (k.append below) owner property span use' =
      (m.readMember k owner property span use).over below := by
  cases owner with
  | undefined | null => exact Progress.over_raise below m k _ _ _
  | _ => exact huse _

theorem over_callWith (k : Stack .expression q) (site : CallSite) (receiver function : Value)
    (done : List Value) (rest : List Expr) :
    m.callWith (k.append below) site receiver function done rest =
      (m.callWith k site receiver function done rest).over below := by
  cases rest with
  | nil =>
      rw [callWith, callWith]
      split
      · rfl
      · exact Progress.over_raise below m k _ _ _
  | cons argument rest => rfl

theorem over_fillObject (k : Stack .expression q) (id : ObjectId) (entries : List Entry) :
    m.fillObject (k.append below) id entries = (m.fillObject k id entries).over below := by
  cases entries <;> rfl

theorem over_evaluateEntered (k : Stack .expression q) (e : Expr) :
    m.evaluateEntered (k.append below) e = (m.evaluateEntered k e).over below := by
  cases e with
  | «variable» span name =>
      rw [evaluateEntered, evaluateEntered]
      split
      · rfl
      · exact Progress.over_raise below m k _ _ _
  | unary span op operand =>
      cases op with
      | typeOf => cases operand <;> rfl
      | negate | not => rfl
  | call span callee arguments => cases callee <;> rfl
  | object span entries => exact over_fillObject k _ entries
  | literal | this | binary | logical | assign | member | function => rfl

theorem over_executeEntered (k : Stack .statement q) (s : Stmt) :
    m.executeEntered (k.append below) s = (m.executeEntered k s).over below := by
  cases s with
  | var span name initial => cases initial <;> rfl
  | «return» span value => cases value <;> rfl
  | function | expression | block | conditional | «while» | empty => rfl

theorem over_enterClosure (k : Stack .expression q) (receiver : Value) (closure : Closure)
    (arguments : List Value) :
    m.enterClosure (k.append below) receiver closure arguments =
      (m.enterClosure k receiver closure arguments).over below := by
  unfold enterClosure
  split
  · exact Progress.over_raise below m k _ _ _
  · rfl

theorem over_print (k : Stack .expression q) (arguments : List Value) :
    m.print (k.append below) arguments = (m.print k arguments).over below := by
  unfold print
  dsimp only
  split
  · rfl
  · exact Progress.over_raise below m k _ _ _

theorem over_evalArgument (k : Stack .expression q) (arguments : List Value) :
    m.evalArgument (k.append below) arguments = (m.evalArgument k arguments).over below := by
  unfold evalArgument
  split
  · rfl
  · dsimp only
    split
    · rfl
    · exact Progress.over_raise below _ k _ _ _
  · rfl

theorem over_invoke (hosts : HostTable) (k : Stack .expression q) (receiver : Value)
    (arguments : List Value) (callee : Value) :
    m.invoke hosts (k.append below) receiver arguments callee =
      (m.invoke hosts k receiver arguments callee).over below := by
  unfold invoke
  split
  · rfl
  · exact over_print k arguments
  · exact over_evalArgument k arguments
  · rfl
  · exact Progress.over_raise below m k _ _ _

theorem over_perform (k : Stack .expression q) (script : HostScript) :
    m.perform (k.append below) script = (m.perform k script).over below := by
  cases script with
  | raise kind message => exact Progress.over_raise below m k _ _ _
  | compile name source resume =>
      unfold perform
      dsimp only
      split <;> rfl
  | finish | fail | invoke | create | properties | armed => rfl

theorem over_assignTo (k : Stack .expression q) (value : Value) (target : Expr) :
    m.assignTo (k.append below) value target = (m.assignTo k value target).over below := by
  cases target with
  | «variable» | member => rfl
  | _ => exact Progress.over_raise below m k _ _ _

theorem over_resumeValue (v : Value) (frame : Frame .expression r) (k : Stack r q) :
    m.resumeValue v frame (k.append below) = (m.resumeValue v frame k).over below := by
  cases frame with
  | logicalRight op right =>
      unfold resumeValue
      dsimp only
      split <;> split <;> rfl
  | assignTo target => exact over_assignTo k v target
  | assignMember span property value =>
      cases v with
      | object id => rfl
      | _ => exact Progress.over_raise below m k _ _ _
  | readMember span property =>
      unfold resumeValue
      exact over_readMember v property span fun _ => rfl
  | callMember site property =>
      unfold resumeValue
      exact over_readMember v property _ fun f => over_callWith k site v f [] site.arguments
  | callFunction site => exact over_callWith k site m.globalValue v [] site.arguments
  | callArgument site receiver function done rest =>
      exact over_callWith k site receiver function (v :: done) rest
  | objectEntry id key rest => exact over_fillObject k id rest
  | branch thenBranch elseBranch =>
      unfold resumeValue
      dsimp only
      split
      · rfl
      · cases elseBranch <;> rfl
  | loopTest condition body value =>
      unfold resumeValue
      dsimp only
      split <;> rfl
  | leave | binaryRight | binaryApply | unaryApply | locate | host | defineVar | complete
  | returnValue => rfl

theorem over_resumeCompletion (c : Completion) (frame : Frame .statement r) (k : Stack r q) :
    m.resumeCompletion c frame (k.append below) = (m.resumeCompletion c frame k).over below := by
  cases frame with
  | leave | returnTo => rfl
  | loopBody | sequence => cases c <;> rfl

theorem over_passFault (f : Fault) (frame : Frame p r) (k : Stack r q) :
    m.passFault f frame (k.append below) = (m.passFault f frame k).over below := by
  cases frame <;> rfl

theorem over_enterPhrase (k : Stack p q) {entered : Machine → Stack p q → Progress q}
    {entered' : Machine → Stack p last → Progress last}
    (hentered : ∀ n l, entered' n (l.append below) = (entered n l).over below) :
    m.enterPhrase (k.append below) entered' = (m.enterPhrase k entered).over below := by
  unfold enterPhrase
  split
  · exact Progress.over_raise below m k _ _ _
  · exact hentered _ (.cons .leave k)

end Machine

namespace Situation

variable {hosts : HostTable} {below : Stack q last}

/-- The run is at its result. -/
def IsAtEnd : {q : Phrase} → Situation q → Prop
  | _, ⟨_, .value _, .nil, _⟩ | _, ⟨_, .completion _, .nil, _⟩ | _, ⟨_, .fault _, .nil, _⟩ => True
  | _, _ => False

/-- Unless it is at its result, a situation takes the same step over further frames. -/
theorem step_over (hosts : HostTable) (below : Stack q last) (s : Situation q)
    (hs : ¬ s.IsAtEnd) : (s.over below).step hosts = (s.step hosts).over below := by
  obtain ⟨phrase, focus, k, m⟩ := s
  cases focus with
  | evaluate e =>
      rw [Situation.over, step, step]
      exact Machine.over_enterPhrase k fun _ l => Machine.over_evaluateEntered l e
  | execute s =>
      rw [Situation.over, step, step]
      exact Machine.over_enterPhrase k fun _ l => Machine.over_executeEntered l s
  | executeAll body value => cases body <;> rfl
  | invoke receiver callee arguments => exact Machine.over_invoke hosts k receiver arguments callee
  | enter receiver closure arguments => exact Machine.over_enterClosure k receiver closure arguments
  | perform script => exact Machine.over_perform k script
  | value v =>
      cases k with
      | nil => exact absurd trivial hs
      | cons frame k => exact Machine.over_resumeValue v frame k
  | completion c =>
      cases k with
      | nil => exact absurd trivial hs
      | cons frame k => exact Machine.over_resumeCompletion c frame k
  | fault f =>
      cases k with
      | nil => exact absurd trivial hs
      | cons frame k => exact Machine.over_passFault f frame k

/-- At its result a run halts, and over further frames the situation hands that to them. -/
theorem over_of_isAtEnd (hosts : HostTable) (below : Stack q last) {s : Situation q}
    (hs : s.IsAtEnd) :
    ∃ m ending, s.step hosts = .halt m ending ∧ ¬ ending.IsStranded ∧
      ending.over below m = .next (s.over below) := by
  obtain ⟨phrase, focus, k, m⟩ := s
  cases k with
  | nil =>
      cases focus with
      | value v => exact ⟨m, .value v, rfl, id, rfl⟩
      | completion c => exact ⟨m, .completion c, rfl, id, rfl⟩
      | fault f => exact ⟨m, .fault f, rfl, id, rfl⟩
      | _ => exact hs.elim
  | cons frame k => cases focus <;> exact hs.elim

/-- With enough fuel the run comes to this machine and ending. -/
def Comes (hosts : HostTable) (s : Situation last) (result : Machine × Ending last) : Prop :=
  ∃ fuel, s.run hosts fuel = some result

theorem Comes.of_step {s t : Situation last} {result : Machine × Ending last}
    (hstep : s.step hosts = .next t) (h : t.Comes hosts result) : s.Comes hosts result := by
  obtain ⟨fuel, h⟩ := h
  refine ⟨fuel + 1, ?_⟩
  rw [run, hstep]
  exact h

theorem Comes.of_halt {s : Situation last} {m : Machine} {ending : Ending last}
    (hstep : s.step hosts = .halt m ending) : s.Comes hosts (m, ending) :=
  ⟨1, by rw [run, hstep]⟩

theorem Comes.next {s t : Situation last} {result : Machine × Ending last}
    (h : s.Comes hosts result) (hstep : s.step hosts = .next t) : t.Comes hosts result := by
  obtain ⟨fuel, h⟩ := h
  exact ⟨fuel, run_of_step hstep h⟩

theorem Comes.eq_of_halt {s : Situation last} {m : Machine} {ending : Ending last}
    {result : Machine × Ending last} (h : s.Comes hosts result)
    (hstep : s.step hosts = .halt m ending) : result = (m, ending) := by
  obtain ⟨fuel, h⟩ := h
  cases fuel with
  | zero => cases h
  | succ fuel =>
      rw [run, hstep] at h
      exact (Option.some.inj h).symm

/-- A result of a run is handed to the frames below, and what the run comes to from there it comes
to in the whole. -/
theorem Comes.over {s : Situation q} {t : Situation last} {m : Machine} {ending : Ending q}
    {result : Machine × Ending last} (h : s.Comes hosts (m, ending))
    (hresume : ending.over below m = .next t) (hrest : t.Comes hosts result) :
    (s.over below).Comes hosts result := by
  obtain ⟨fuel, hrun⟩ := h
  induction fuel generalizing s with
  | zero => simp [run] at hrun
  | succ fuel ih =>
      rw [run] at hrun
      by_cases hs : s.IsAtEnd
      · obtain ⟨n, ending', hstep, -, hover⟩ := over_of_isAtEnd hosts below hs
        rw [hstep] at hrun
        obtain ⟨rfl, rfl⟩ := Prod.mk.inj (Option.some.inj hrun)
        rw [hover] at hresume
        obtain rfl := Progress.next.inj hresume
        exact hrest
      · have hover := step_over hosts below s hs
        cases hstep : s.step hosts with
        | next u =>
            rw [hstep] at hrun hover
            exact (ih hrun).of_step hover
        | halt n ending' =>
            rw [hstep] at hrun hover
            obtain ⟨rfl, rfl⟩ := Prod.mk.inj (Option.some.inj hrun)
            exact hrest.of_step (hover.trans hresume)

/-- A run over further frames whose trap is armed comes to a result above them first, and goes on
from there, with less fuel unless it began at the result. -/
theorem exists_run_of_over {fuel : Nat} {s : Situation q} {result : Machine × Ending last}
    (harmed : s.machine.trap.armed = true) (hrun : (s.over below).run hosts fuel = some result) :
    ∃ m ending t left, s.Comes hosts (m, ending) ∧ m.trap.armed = true ∧
      ending.over below m = .next t ∧ t.run hosts left = some result ∧ left ≤ fuel ∧
      (¬ s.IsAtEnd → left < fuel) := by
  induction fuel generalizing s with
  | zero => simp [run] at hrun
  | succ fuel ih =>
      by_cases hs : s.IsAtEnd
      · obtain ⟨m, ending, hstep, -, hover⟩ := over_of_isAtEnd hosts below hs
        have hcomes := Comes.of_halt hstep
        have htrap : m.trap = s.machine.trap :=
          hcomes.elim fun _ hone => (returned_of_run harmed hone).1
        exact ⟨m, ending, _, fuel + 1, hcomes, htrap ▸ harmed, hover, hrun, Nat.le_refl _,
          fun h => absurd hs h⟩
      · have hover := step_over hosts below s hs
        rw [run, hover] at hrun
        cases hstep : s.step hosts with
        | next u =>
            rw [hstep] at hrun
            obtain ⟨m, ending, t, left, hu, hm, hresume, hleft, hle, -⟩ :=
              ih (trap_of_step hstep ▸ harmed) hrun
            exact ⟨m, ending, t, left, hu.of_step hstep, hm, hresume, hleft, by omega,
              fun _ => by omega⟩
        | halt m ending =>
            have hcomes := Comes.of_halt hstep
            obtain ⟨htrap, hreturned⟩ := hcomes.elim fun _ hone => returned_of_run harmed hone
            obtain ⟨t, ht⟩ := Ending.exists_over below m hreturned
            rw [hstep] at hrun
            dsimp only [Progress.over] at hrun
            rw [ht] at hrun
            exact ⟨m, ending, t, fuel, hcomes, htrap ▸ harmed, ht, hrun, by omega,
              fun _ => by omega⟩

/-- What a run over further frames comes to, it comes to from a result above them. -/
theorem Comes.exists_of_over {s : Situation q} {result : Machine × Ending last}
    (h : (s.over below).Comes hosts result) (harmed : s.machine.trap.armed = true) :
    ∃ m ending t, s.Comes hosts (m, ending) ∧ m.trap.armed = true ∧
      ending.over below m = .next t ∧ t.Comes hosts result := by
  obtain ⟨fuel, hrun⟩ := h
  obtain ⟨m, ending, t, left, hs, hm, hresume, hleft, -⟩ := exists_run_of_over harmed hrun
  exact ⟨m, ending, t, hs, hm, hresume, left, hleft⟩

end Situation

end ScriptHost
