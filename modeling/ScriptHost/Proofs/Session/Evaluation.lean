import ScriptHost.Proofs.Machine.Course
import ScriptHost.Proofs.Machine.Lockstep
import ScriptHost.Proofs.Session.Loading
import ScriptHost.Proofs.Session.Rest

/-!
A script that evaluates a text, against a session that loads and runs it. Wherever the script is, the
text runs in the global frame, so the script's own names and receiver make no difference. What does
is how much room its calls have left: the evaluation may come to a limit that the session's run does
not come to.
-/

namespace ScriptHost

variable {hosts : HostTable} {m n : Machine} {body : List Stmt} {source : String}

/-- A call of the native function that evaluates a text. -/
def Situation.evaluating (m : Machine) (receiver : Value) (identity : Nat) (source : String)
    (others : List Value) : Situation .expression :=
  ⟨_, .invoke receiver (.native identity .eval) (.string source :: others), .nil, m⟩

/-- The body of a unit, begun from a frame that its call returns to. -/
def Situation.inUnit (m : Machine) (environment : Environment) (receiver : Value)
    (body : List Stmt) : Situation .expression :=
  ⟨_, .executeAll body none, .cons (.returnTo environment receiver true) .nil, m⟩

/-- The machine in the global frame, one call further in. -/
def Machine.atTop (m : Machine) : Machine :=
  { m with environment := m.globalEnvironment, receiver := m.globalValue, depth := m.depth + 1 }

/-- The machine while a run of a session is under way. -/
def Machine.running (m : Machine) : Machine := { m with trap := ⟨true⟩ }

namespace Machine

theorem evalArgument_of_ok (k : Stack .expression q) (others : List Value)
    (h : (programOfSource source .empty).1 = .ok body) :
    m.evalArgument k (.string source :: others) = .focus (m.compile evalUnitName source).2 k
      (.enter m.globalValue (ScriptUnit.ofBody evalUnitName body m.globalEnvironment).closure []) := by
  unfold evalArgument
  dsimp only
  rw [compile_fst_of_ok evalUnitName h]
  rfl

theorem evalArgument_of_error (k : Stack .expression q) (others : List Value) {d : Diagnostic}
    (h : (programOfSource source .empty).1 = .error d) (harmed : m.trap.armed = true) :
    m.evalArgument k (.string source :: others) = .focus (m.compile evalUnitName source).2 k
      (.fault ⟨.syntactic,
        CompileError.display ⟨evalUnitName, some (d.position source.toList), d⟩, none⟩) := by
  have htrap : (m.compile evalUnitName source).2.trap = m.trap := rfl
  unfold evalArgument
  dsimp only
  rw [compile_fst_of_error evalUnitName h]
  dsimp only
  unfold Progress.raise
  rw [htrap, Trap.raise_eq_ok_iff.mpr ⟨harmed, rfl⟩]

end Machine

namespace Situation

/-- The unit of a body, about to be entered. -/
def enteringUnit (m : Machine) (name : String) (body : List Stmt) : Situation .expression :=
  ⟨_, .enter m.globalValue (ScriptUnit.ofBody name body m.globalEnvironment).closure [], .nil, m⟩

theorem step_enteringUnit (name : String) (hroom : m.depth < m.maxCallDepth) :
    (enteringUnit m name body).step hosts =
      .next (inUnit m.atTop m.environment m.receiver body) := by
  have hstep : (enteringUnit m name body).step hosts = m.enterClosure .nil m.globalValue
    (ScriptUnit.ofBody name body m.globalEnvironment).closure [] := rfl
  rw [hstep, Machine.enterClosure, if_neg (Nat.not_le_of_lt hroom)]
  rfl

theorem step_enteringUnit_of_full (hosts : HostTable) (name : String) (body : List Stmt)
    (hfull : ¬ m.depth < m.maxCallDepth) (harmed : m.trap.armed = true) :
    (enteringUnit m name body).step hosts =
      .next ⟨_, .fault ⟨.range, Machine.stackExceeded, none⟩, .nil, m⟩ := by
  have hstep : (enteringUnit m name body).step hosts = m.enterClosure .nil m.globalValue
    (ScriptUnit.ofBody name body m.globalEnvironment).closure [] := rfl
  rw [hstep, Machine.enterClosure, if_pos (Nat.le_of_not_lt hfull), Progress.raise,
    Trap.raise_eq_ok_iff.mpr ⟨harmed, rfl⟩]
  rfl

theorem atRangeFault_of_enteringUnit (hosts : HostTable) (name : String) (body : List Stmt)
    (hfull : ¬ m.depth < m.maxCallDepth) (harmed : m.trap.armed = true) :
    ∃ f : Fault, f.kind = .range ∧
      (enteringUnit m name body).step hosts = .next ⟨_, .fault f, .nil, m⟩ :=
  ⟨_, rfl, step_enteringUnit_of_full hosts name body hfull harmed⟩

variable {receiver : Value} {identity : Nat} {others : List Value}

theorem step_evaluating_of_ok (h : (programOfSource source .empty).1 = .ok body) :
    (evaluating m receiver identity source others).step hosts =
      .next (enteringUnit (m.compile evalUnitName source).2 evalUnitName body) :=
  Machine.evalArgument_of_ok .nil others h

/-- The evaluation of a text that is no program ends in a fault, with nothing done. -/
theorem run_evaluating_of_error {d : Diagnostic}
    (h : (programOfSource source .empty).1 = .error d) (harmed : m.trap.armed = true)
    (more : Nat) :
    (evaluating m receiver identity source others).run hosts (more + 2) =
      some ((m.compile evalUnitName source).2, .fault ⟨.syntactic,
        CompileError.display ⟨evalUnitName, some (d.position source.toList), d⟩, none⟩) := by
  have hstep : (evaluating m receiver identity source others).step hosts =
      m.evalArgument .nil (.string source :: others) := rfl
  rw [run, hstep, Machine.evalArgument_of_error .nil others h harmed]
  rfl

/-- The evaluation of a program comes to a limit at once, or goes on with the body of the unit in
the global frame. -/
theorem run_evaluating_of_ok {fuel : Nat} {ending : Ending .expression}
    (h : (programOfSource source .empty).1 = .ok body) (harmed : m.trap.armed = true)
    (hrun : (evaluating m receiver identity source others).run hosts fuel = some (n, ending)) :
    ending.IsRangeFault ∨ m.depth < m.maxCallDepth ∧
      (inUnit (m.compile evalUnitName source).2.atTop m.environment m.receiver body).run hosts fuel =
        some (n, ending) := by
  have hentered := run_of_step (step_evaluating_of_ok h) hrun
  by_cases hroom : m.depth < m.maxCallDepth
  · exact .inr ⟨hroom, run_of_step (step_enteringUnit evalUnitName hroom) hentered⟩
  · obtain ⟨f, hkind, hstep⟩ := atRangeFault_of_enteringUnit hosts
      (m := (m.compile evalUnitName source).2) evalUnitName body hroom harmed
    have hnil : (Stack.nil : Stack .expression .expression).HostFree := trivial
    obtain ⟨g, rfl, hgkind, -⟩ := fault_of_run hnil (run_of_step hstep hentered)
    exact .inl (hgkind.trans hkind)

end Situation

/-- A session that runs a unit begins with its body in the global frame. -/
theorem Machine.run_of_runUnit {name : String} {fuel : Nat} {ending : Ending .expression}
    (hm : m.AtRest) (hroom : m.depth < m.maxCallDepth)
    (hrun : m.runUnit hosts fuel (.ofBody name body m.globalEnvironment) = some (n, ending)) :
    ∃ left, (Situation.inUnit m.running.atTop m.environment m.receiver body).run
      hosts fuel = some (left, ending) ∧ n = { left with trap := .idle } := by
  obtain ⟨left, hstart, rfl⟩ := (runUnit_eq_some_iff (congrArg Trap.armed hm.trap)).mp hrun
  exact ⟨left, Situation.run_of_step
    (Situation.step_enteringUnit (m := m.running) name hroom) hstart, rfl⟩

/-- Bodies of one unit run over machines that differ in the frame they return to, and of which the
second has the less room, end alike unless the second ends in a range fault. -/
theorem Situation.ending_of_inUnit {m m' n n' : Machine} {environment environment' : Environment}
    {receiver receiver' : Value} {fuel fuel' : Nat} {ending ending' : Ending .expression}
    (hfree : m'.HostFree) (hreceiver : receiver'.HostFree) (harmed : m'.trap.armed = true)
    (hsame : m' = m.retuned ⟨m'.registry, m'.scratch, m'.depth, m'.nesting, m'.maxCallDepth⟩)
    (htight : Ground.Tighter ⟨m.depth, m.nesting, m.maxCallDepth⟩
      ⟨m'.depth, m'.nesting, m'.maxCallDepth⟩)
    (hrun : (inUnit m environment receiver body).run hosts fuel = some (n, ending))
    (hrun' : (inUnit m' environment' receiver' body).run hosts fuel' = some (n', ending')) :
    ending'.IsRangeFault ∨ ending' = ending ∧ n'.store = n.store ∧ n'.output = n.output := by
  have hbegin : (inUnit m' environment' receiver' body).HostFree :=
    ⟨by simp [inUnit, Focus.HostFree], ⟨hreceiver, trivial⟩, hfree⟩
  have halike : Lockstep ⟨m.depth, m.nesting, m.maxCallDepth⟩
      ⟨m'.depth, m'.nesting, m'.maxCallDepth⟩
      (.cons (.returnTo environment receiver true) .nil)
      (.cons (.returnTo environment' receiver' true) .nil)
      (inUnit m environment receiver body) (inUnit m' environment' receiver' body) := by
    rw [hsame] at harmed ⊢
    exact .intro (.executeAll body none) .nil ⟨rfl, rfl, rfl⟩ ⟨rfl, rfl, rfl⟩ harmed
  rcases arrived_of_run htight halike hbegin hrun hrun' with hrange | harrived
  · exact .inl hrange
  · obtain ⟨s, s', left, left', harrived, hleft, hleft'⟩ := harrived
    exact .inr (ending_of_arrived harrived hleft hleft')

/-- The same body begun in the global frame of a machine at rest and in that of a running one. -/
theorem Situation.ending_of_atTop {m m' n n' : Machine} {environment environment' : Environment}
    {receiver receiver' : Value} {fuel fuel' : Nat} {ending ending' : Ending .expression}
    (hrest : m.AtRest) (hfree : m'.HostFree) (harmed : m'.trap.armed = true)
    (hstore : m.store = m'.store) (houtput : m.output = m'.output)
    (hglobal : m.global = m'.global) (hlimit : m.maxCallDepth = m'.maxCallDepth)
    (hreceiver : receiver'.HostFree)
    (hrun : (inUnit m.running.atTop environment receiver body).run hosts fuel =
      some (n, ending))
    (hrun' : (inUnit m'.atTop environment' receiver' body).run hosts fuel' = some (n', ending')) :
    ending'.IsRangeFault ∨ ending' = ending ∧ n'.store = n.store ∧ n'.output = n.output := by
  have htrap : m'.trap = ⟨true⟩ := congrArg Trap.mk harmed
  have hsame := Machine.eq_retuned (m := m.running.atTop) (n := m'.atTop)
    hstore.symm hglobal.symm (congrArg Environment.root hglobal.symm)
    (congrArg Value.object hglobal.symm) htrap houtput.symm
  have htop : m'.atTop.HostFree := ⟨hfree.1, trivial⟩
  refine ending_of_inUnit htop hreceiver harmed hsame ?_ hrun hrun'
  have hdepth := hrest.depth
  have hnesting := hrest.nesting
  constructor
  · change m.nesting ≤ m'.nesting
    omega
  · change m'.maxCallDepth + (m.depth + 1) ≤ m.maxCallDepth + (m'.depth + 1)
    omega

namespace Session

/-- A script of a machine without natives of a host evaluates a text as a session would that loads
and runs it, with the same objects and output. A text that is no program is refused for the same
reason at the same place, and nothing else comes of it. A program ends with the same result or fault
and leaves the same objects and output, unless the evaluation comes to a limit. -/
theorem evaluating_agrees_with_load {m : Machine} {t : Session} (hfree : m.HostFree)
    (harmed : m.trap.armed = true) (hrest : t.machine.AtRest)
    (hstore : t.machine.store = m.store) (houtput : t.machine.output = m.output)
    (hglobal : t.machine.global = m.global) (hlimit : t.machine.maxCallDepth = m.maxCallDepth)
    (receiver : Value) (identity : Nat) (source : String) (others : List Value) :
    (∀ left, t.load source = (.failure, left) →
      left.machine.store = t.machine.store ∧ left.machine.output = t.machine.output ∧
      ∃ (line column : Nat) (message : String),
        left.diagnostics = (t.report ("(string):" ++ toString line ++ ":" ++ toString column ++
          ": " ++ message)).diagnostics ∧
        ∃ n : Machine, n.store = m.store ∧ n.output = m.output ∧
          ∀ more, (Situation.evaluating m receiver identity source others).run t.hosts (more + 2) =
            some (n, .fault ⟨.syntactic, "(eval):" ++ toString line ++ ":" ++ toString column ++
              ": " ++ message, none⟩)) ∧
    (∀ left, t.load source = (.success, left) →
      ∃ u, left.pending = some u ∧
        ∀ (fuel fuel' : Nat) (n n' : Machine) (ending ending' : Ending .expression),
          left.machine.runUnit t.hosts fuel u = some (n, ending) →
          (Situation.evaluating m receiver identity source others).run t.hosts fuel' =
            some (n', ending') →
          ending'.IsRangeFault ∨
            ending' = ending ∧ n'.store = n.store ∧ n'.output = n.output) := by
  cases hprogram : (programOfSource source .empty).1 with
  | error d =>
      rw [load, loadNamed_of_error hprogram]
      refine ⟨?_, fun left hload => by simp at hload⟩
      intro left hload
      obtain ⟨-, rfl⟩ := Prod.mk.inj hload
      rw [machine_report, diagnostics_report_of_eq]
      refine ⟨rfl, rfl, (d.position source.toList).line, (d.position source.toList).column,
        d.message, ?_, (m.compile evalUnitName source).2, rfl, rfl, ?_⟩
      · rfl
      · exact fun more => Situation.run_evaluating_of_error hprogram harmed more
  | ok body =>
      rw [load, loadNamed_of_ok hprogram]
      refine ⟨fun left hload => by simp at hload, ?_⟩
      intro left hload
      obtain ⟨-, rfl⟩ := Prod.mk.inj hload
      refine ⟨_, rfl, ?_⟩
      intro fuel fuel' n n' ending ending' hrun hrun'
      rcases Situation.run_evaluating_of_ok hprogram harmed hrun' with hrange | ⟨hroom, hbody'⟩
      · exact .inl hrange
      · have hroom' : t.machine.depth < t.machine.maxCallDepth := by
          rw [hrest.depth, hlimit]
          omega
        have hcompiled : (t.machine.compile stringUnitName source).2.AtRest :=
          Machine.AtRest.of_context_eq (m := t.machine) rfl hrest
        obtain ⟨last, hbody, rfl⟩ := Machine.run_of_runUnit hcompiled hroom' hrun
        have hfree' : (m.compile evalUnitName source).2.HostFree := hfree
        exact Situation.ending_of_atTop (n := last) hcompiled hfree' harmed hstore houtput hglobal
          hlimit hfree.2 hbody hbody'

/-- A text evaluated inside of a call on a receiver that is null, and a text that is no program. -/
theorem evaluating_agrees_with_load_within_call :
    (∃ (left : Session) (n : Machine) (message : String), blank.load "f(" = (.failure, left) ∧
      (Situation.evaluating .withinCall .null 2 "f(" []).run .inert 2 =
        some (n, .fault ⟨.syntactic, message, none⟩) ∧ n.store = Machine.withinCall.store) ∧
    ∃ (left : Session) (u : ScriptUnit) (n n' : Machine) (ending ending' : Ending .expression),
      blank.load "var x = {}; x.y = this; typeof x.y" = (.success, left) ∧ left.pending = some u ∧
      left.machine.runUnit .inert 40 u = some (n, ending) ∧
      (Situation.evaluating .withinCall .null 2 "var x = {}; x.y = this; typeof x.y" []).run
        .inert 40 = some (n', ending') ∧
      (ending'.IsRangeFault ∨
        ending' = ending ∧ n'.store = n.store ∧ n'.output = n.output) := by
  generalize hm : Machine.withinCall = m
  generalize ht : blank = t
  have hcreated := Machine.hostFree_create Store.hostFree_empty .default (.buffer .empty)
  have hfree : m.HostFree := hm ▸ ⟨hcreated.1, trivial⟩
  have harmed : m.trap.armed = true := by rw [← hm, Machine.withinCall]
  have hrest : t.machine.AtRest := ht ▸ atRest_create _ _ _ _ _ _
  have hmachine : t.machine = .create .empty .default (.buffer .empty) := by
    rw [← ht]
    rfl
  have hstore : t.machine.store = m.store := by rw [hmachine, ← hm, Machine.withinCall]
  have houtput : t.machine.output = m.output := by rw [hmachine, ← hm, Machine.withinCall]
  have hglobal : t.machine.global = m.global := by rw [hmachine, ← hm, Machine.withinCall]
  have hlimit : t.machine.maxCallDepth = m.maxCallDepth := by
    rw [hmachine, ← hm, Machine.withinCall]
  have hagree := fun source => evaluating_agrees_with_load hfree harmed hrest hstore houtput hglobal
    hlimit .null 2 source []
  have hhosts : t.hosts = .inert := by
    rw [← ht]
    rfl
  rw [hhosts] at hagree
  constructor
  · have hfails : (t.load "f(").1 = .failure := by
      rw [← ht]
      decide +kernel
    obtain ⟨-, -, line, column, message, -, n, hstore, -, hrun⟩ :=
      (hagree "f(").1 _ (Prod.ext hfails rfl)
    exact ⟨_, n, _, Prod.ext hfails rfl, hrun 0, hstore⟩
  · have hsucceeds : (t.load "var x = {}; x.y = this; typeof x.y").1 = .success := by
      rw [← ht]
      decide +kernel
    have hends : ((t.load "var x = {}; x.y = this; typeof x.y").2.pending.bind fun u =>
        (t.load "var x = {}; x.y = this; typeof x.y").2.machine.runUnit .inert 40 u).isSome =
          true := by
      rw [← ht]
      decide +kernel
    have hends' : ((Situation.evaluating m .null 2 "var x = {}; x.y = this; typeof x.y" []).run
        .inert 40).isSome = true := by
      rw [← hm]
      decide +kernel
    obtain ⟨u, hpending, hends_alike⟩ :=
      (hagree "var x = {}; x.y = this; typeof x.y").2 _ (Prod.ext hsucceeds rfl)
    rw [hpending] at hends
    obtain ⟨⟨n, ending⟩, hrun⟩ := Option.isSome_iff_exists.mp hends
    obtain ⟨⟨n', ending'⟩, hrun'⟩ := Option.isSome_iff_exists.mp hends'
    refine ⟨_, u, n, n', ending, ending', Prod.ext hsucceeds rfl, hpending, hrun, hrun', ?_⟩
    exact hends_alike 40 40 n n' ending ending' hrun hrun'

end Session

end ScriptHost
