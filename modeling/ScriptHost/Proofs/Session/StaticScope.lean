import ScriptHost.Proofs.Machine.Scoping
import ScriptHost.Proofs.Session.Evaluation
import ScriptHost.Proofs.Session.Scripted
import ScriptHost.Proofs.Session.Trap

/-!
Static scoping. In sessions that nothing but scripts has a hand in, the number of frames of a
function, and of the environment of the code being run, is given by where the code stands in the
program that it was compiled from; so no chain of frames has more of them than the limit on nesting
allows, whatever is run.
-/

namespace ScriptHost

variable {last : Phrase} {hosts : HostTable}

/-- The chain ends in the global frame and comes upon no scope twice, and there are at most 97
frames, as many as a name has to be looked for in. -/
structure Environment.Chains (s : Store) (global : ObjectId) (env : Environment) : Prop where
  nodup : env.scopes.Nodup
  ends : env.scopes.getLast? = some global
  length : env.scopes.length ≤ 97
  lookup : ∀ name, s.lookupWithin name 97 env = some (s.lookup env name)
  assign : ∀ name value, s.assignWithin name value 97 env = some (s.assign env name value)

/-- The function of the number was made by a phrase of a program, and is closed over one frame and
one more for each body of a function around that phrase. -/
def Closure.StaticallyScoped (o : Origins) (identity : Nat) (closure : Closure) : Prop :=
  ∃ unit t, o identity = some (unit, t) ∧ IsProgram unit ∧ t.function? = some closure.code ∧
    (∃ bodies, Lies unit bodies t) ∧
    ∀ bodies, Lies unit bodies t → closure.environment.scopes.length = bodies + 1

namespace Situation

/-- The phrase that is about to be entered. -/
def phrase? : Situation last → Option Tree
  | ⟨_, .evaluate e, _, _⟩ => some (.expr e)
  | ⟨_, .execute s, _, _⟩ => some (.stmt s)
  | _ => none

/-- The name that is about to be looked up. -/
def name? : Situation last → Option String
  | ⟨_, .evaluate (.variable _ name), _, _⟩ => some name
  | _ => none

theorem exists_phrase?_of_name? {t : Situation last} {name : String} (h : t.name? = some name) :
    ∃ span, t.phrase? = some (.expr (.variable span name)) := by
  unfold name? at h
  split at h
  · cases h
    exact ⟨_, rfl⟩
  · cases h

/-- What static scoping says of a situation. -/
structure StaticallyScoped (hosts : HostTable) (c : Chart) (t : Situation last) : Prop where
  /-- The functions of the store are scoped by where they were made. -/
  closures : ∀ id name identity closure,
    t.machine.store.get? id name = some (.function identity closure) →
      closure.StaticallyScoped c.origins identity ∧
      closure.environment.Chains t.machine.store t.machine.global
  /-- No origin is recorded for a number that is yet to be given. -/
  unmade : ∀ identity, t.machine.store.nextIdentity ≤ identity → c.origins identity = none
  /-- The environment is scoped by each phrase that is about to be entered or was entered in the
  innermost call and not left. -/
  executed : ∀ phrase ∈ t.phrase?.toList ++ c.current.phrases,
    (∃ bodies, Lies c.current.unit bodies phrase) ∧
    ∀ bodies, Lies c.current.unit bodies phrase →
      t.machine.environment.scopes.length = bodies + 1
  environment : t.machine.environment.Chains t.machine.store t.machine.global
  /-- A text that is passed to eval is run as a program of its own and in the global frame. -/
  evaluated : ∀ receiver identity source rest k m body,
    t = ⟨_, .invoke receiver (.native identity .eval) (.string source :: rest), k, m⟩ →
      (programOfSource source .empty).1 = .ok body → m.depth < m.maxCallDepth →
        ∃ t' k' n, t.step hosts = .next t' ∧
          t'.step hosts = .next ⟨_, .executeAll body none, k', n⟩ ∧
          ((c.after t).after t').current = ⟨body, []⟩ ∧ n.environment = m.globalEnvironment

end Situation

theorem Environment.Framed.chains {parents : ObjectId → Environment} {s : Store}
    {global : ObjectId} {env : Environment} (h : env.Framed parents s global)
    (hglobal : (s.object global).kind ≠ .scope) (hdepth : env.depth ≤ maxTreeDepth) :
    env.Chains s global := by
  have hlt : env.depth < 97 := Nat.lt_succ_of_le hdepth
  refine ⟨h.nodup_scopes hglobal, h.getLast?_scopes, ?_, fun name => s.lookupWithin_of_lt name hlt,
    fun name value => s.assignWithin_of_lt name value hlt⟩
  rw [Environment.length_scopes]
  exact hlt

/-- Frames that are as many as the bodies around a phrase in one count are so in every count. -/
theorem Lies.length_scopes {unit : List Stmt} {t : Tree} {env : Environment}
    (hprogram : IsProgram unit) (h : Lies unit env.depth t) (bodies : Nat)
    (hbodies : Lies unit bodies t) : env.scopes.length = bodies + 1 := by
  rw [Environment.length_scopes, h.unique hprogram hbodies]

theorem Closure.MadeBy.scoped {o : Origins} {identity : Nat} {closure : Closure}
    {unit : List Stmt} {t : Tree} (h : closure.MadeBy unit t)
    (horigin : o identity = some (unit, t)) : closure.StaticallyScoped o identity :=
  ⟨unit, t, horigin, h.program, h.code, ⟨_, h.lies⟩, h.lies.length_scopes h.program⟩

/-- The functions of a store that agree with origins and keep to a layout are statically scoped. -/
theorem Store.Placed.closures {o : Origins} {s : Store} {global : ObjectId}
    {parents : ObjectId → Environment} (hs : s.Placed o)
    (hobeys : s.Obeys (.layout parents s global)) (hglobal : (s.object global).kind ≠ .scope)
    (id : ObjectId) (name : String) (identity : Nat) (closure : Closure)
    (h : s.get? id name = some (.function identity closure)) :
    closure.StaticallyScoped o identity ∧ closure.environment.Chains s global := by
  obtain ⟨unit, t, horigin, hmade⟩ := hs.values id name _ h
  have hframed : closure.environment.Framed parents s global := (hobeys id name _ h).1
  have hlt := hmade.lies.lt hmade.program
  exact ⟨hmade.scoped horigin, hframed.chains hglobal (Nat.le_of_lt hlt)⟩

theorem Store.Placed.unmade {o : Origins} {s : Store} (hs : s.Placed o) {identity : Nat}
    (h : s.nextIdentity ≤ identity) : o identity = none := by
  by_contra hsome
  exact Nat.lt_irrefl _ (Nat.lt_of_lt_of_le (hs.fresh identity hsome) h)

namespace Situation

/-- A program that eval compiles is entered in the global frame. -/
theorem step_eval (hosts : HostTable) (c : Chart) {receiver : Value} {identity : Nat}
    {source : String} {rest : List Value} {k : Stack .expression last} {m : Machine}
    {body : List Stmt} (hbody : (programOfSource source .empty).1 = .ok body)
    (hroom : m.depth < m.maxCallDepth) :
    let t : Situation last :=
      ⟨_, .invoke receiver (.native identity .eval) (.string source :: rest), k, m⟩
    ∃ t' k' n, t.step hosts = .next t' ∧
      t'.step hosts = .next ⟨_, .executeAll body none, k', n⟩ ∧
      ((c.after t).after t').current = ⟨body, []⟩ ∧ n.environment = m.globalEnvironment := by
  intro t
  let n := (m.compile evalUnitName source).2
  let closure := (ScriptUnit.ofBody evalUnitName body m.globalEnvironment).closure
  let t' : Situation last := ⟨_, .enter m.globalValue closure [], k, n⟩
  have hcompiled : t.step hosts = .next t' := Machine.evalArgument_of_ok k rest hbody
  have hroom' : n.depth < n.maxCallDepth := hroom
  have hentered : t'.step hosts = .next ⟨_, .executeAll body none,
      .cons (.returnTo n.environment n.receiver true) k, n.inside m.globalValue closure []⟩ :=
    Machine.enterClosure_of_lt m.globalValue closure [] hroom'
  refine ⟨t', _, _, hcompiled, hentered, ?_, rfl⟩
  have hafter : (c.after t).after t' = { c with running := ⟨body, []⟩ :: c.running } :=
    if_pos hroom'
  rw [hafter]
  rfl

theorem Placed.has_phrase? {c : Chart} {t : Situation last} (h : t.Placed c) {phrase : Tree}
    (hphrase : t.phrase? = some phrase) : (c.site t.machine).Has phrase := by
  obtain ⟨p, focus, k, m⟩ := t
  obtain ⟨hfocus, -, -⟩ := h
  cases focus with
  | evaluate e => cases hphrase; exact hfocus
  | execute s => cases hphrase; exact hfocus
  | _ => cases hphrase

/-- What agrees with the chart and keeps to a layout is statically scoped. -/
theorem staticallyScoped_of_placed (hosts : HostTable) {c : Chart} {t : Situation last}
    {known : List Value} (hplaced : t.Placed c) (htidy : t.Tidy known) :
    t.StaticallyScoped hosts c := by
  obtain ⟨parents, hobeys, -⟩ := htidy
  have hglobal := hobeys.machine.global.2
  refine ⟨hplaced.machine.store.closures hobeys.machine.store hglobal,
    fun identity h => hplaced.machine.store.unmade h, ?_,
    hobeys.machine.environment.chains hglobal hplaced.machine.environment, ?_⟩
  · intro phrase hphrase
    have hhas : (c.site t.machine).Has phrase := by
      rcases List.mem_append.mp hphrase with hentering | hentered
      · exact hplaced.has_phrase? (Option.mem_toList.mp hentering)
      · exact hplaced.machine.executes phrase hentered
    exact ⟨⟨_, hhas.2⟩, hhas.2.length_scopes hhas.1⟩
  · rintro receiver identity source rest k m body rfl hbody hroom
    exact step_eval hosts c hbody hroom

/-- All through a run what is at hand agrees with the chart and keeps to a layout. -/
theorem Charted.placed {begun c : Chart} {start t : Situation last} {known : List Value}
    (h : start.Charted hosts begun c t) (hfree : start.HostFree) (htidy : start.Tidy known)
    (hplaced : start.Placed begun) : t.HostFree ∧ t.Tidy known ∧ t.Placed c := by
  induction h with
  | start => exact ⟨hfree, htidy, hplaced⟩
  | step _ hstep ih =>
      obtain ⟨hfree, htidy, hplaced⟩ := ih
      have hfree' := hostFree_step hosts hfree
      have htidy' := tidy_step hosts hfree htidy
      have hplaced' := placed_step hosts hplaced
      rw [hstep] at hfree' htidy' hplaced'
      exact ⟨hfree', htidy', hplaced'⟩

/-- The situation so many steps on, with the chart kept up to there. -/
theorem Charted.of_trace {begun c : Chart} {start s t : Situation last}
    {calls calls' : List (Option ObjectId)} {n : Nat} (h : start.Charted hosts begun c s)
    (hn : trace hosts n (calls, s) = some (calls', t)) :
    start.Charted hosts begun (s.chartAfter hosts n c) t := by
  induction n generalizing calls c s with
  | zero =>
      obtain ⟨-, rfl⟩ := Prod.mk.inj (Option.some.inj hn)
      exact h
  | succ n ih =>
      rw [trace] at hn
      rw [chartAfter]
      cases hstep : s.step hosts with
      | next u =>
          rw [hstep] at hn
          exact ih (h.step hstep) hn
      | halt m ending =>
          rw [hstep] at hn
          cases hn

end Situation

/-- The chart at the beginning of a run. -/
def Chart.begun (o : Origins) : Chart := ⟨o, [], []⟩

theorem Value.IsData.placed {v : Value} (h : v.IsData) {o : Origins} : v.Placed o :=
  (h.obeys .functionless).placed

namespace Session

variable {s t : Session} {known : List Value} {o : Origins} {fuel : Nat}

/-- The origins after an operation, given the execution that it makes. -/
def originsAfter (hosts : HostTable) (fuel : Nat) (o : Origins) :
    Option (Machine × ScriptUnit) → Origins
  | some (m, unit) => ((Situation.ofUnit m unit).chartAfter hosts fuel (.begun o)).origins
  | none => o

/-- Sessions that only scripts have a hand in, with the origins of their functions. -/
inductive Charted : Origins → List Value → Session → Prop
  | create (config : Config) (output diagnostics : Output) (hosts : HostTable) :
      Charted (fun _ => none) [] (create .empty config output diagnostics hosts [])
  | perform {o : Origins} {known : List Value} {s t : Session} {fuel : Nat}
      {operation : Operation} {answer : Answer} (h : Charted o known s)
      (hset : ∀ name v, operation = .setGlobal name v → v.IsData ∨ v ∈ known)
      (hperform : s.perform fuel operation = .ok (answer, t)) :
      Charted (originsAfter s.hosts fuel o (s.execution operation)) (answer.values ++ known) t

theorem Charted.scripted (h : s.Charted o known) : s.Scripted known := by
  induction h with
  | create config output diagnostics hosts => exact .create config output diagnostics hosts
  | perform _ hset hperform ih => exact .perform ih hset hperform

/-- There are origins for every session that only scripts have a hand in. -/
theorem Scripted.exists_charted (h : s.Scripted known) : ∃ o, s.Charted o known := by
  induction h with
  | create config output diagnostics hosts =>
      exact ⟨_, .create config output diagnostics hosts⟩
  | perform _ hset hperform ih =>
      obtain ⟨o, ho⟩ := ih
      exact ⟨_, .perform ho hset hperform⟩

/-- What such a session has at hand between the operations agrees with the origins. -/
structure Sited (o : Origins) (known : List Value) (s : Session) : Prop where
  store : s.machine.store.Placed o
  known : ∀ v ∈ known, v.Placed o
  pending : ∀ u ∈ s.pending, u.closure.isUnit = true ∧ IsProgram u.closure.code.body

/-- At the beginning of a run all that is at hand agrees with the chart. -/
theorem Sited.ofUnit {u : ScriptUnit} (hs : s.InOrder known) (h : s.Sited o known)
    (hu : s.pending = some u) : (Situation.ofUnit s.machine u).Placed (.begun o) := by
  obtain ⟨hunit, hprogram⟩ := h.pending u hu
  have hbound : u.closure.environment.depth = 0 := by
    rw [hs.pending u hu]
    rfl
  have hreceiver : s.machine.receiver.Placed o := by
    rw [hs.atRest.receiver]
    exact trivial
  have henvironment : s.machine.environment.depth ≤ maxTreeDepth := by
    rw [hs.atRest.environment]
    exact Nat.zero_le _
  exact ⟨⟨trivial, .program hunit hbound hprogram, by simp⟩, trivial,
    h.store, hreceiver, henvironment, fun t ht => nomatch ht⟩

theorem Sited.report (h : s.Sited o known) (message : String) :
    (s.report message).Sited o known := by
  refine ⟨?_, h.known, ?_⟩
  · rw [machine_report]
    exact h.store
  · rw [pending_report]
    exact h.pending

theorem Sited.loadNamed (h : s.Sited o known) (name source : String) :
    (s.loadNamed name source).2.Sited o known := by
  unfold Session.loadNamed
  dsimp only
  split
  · rename_i u hu
    obtain ⟨body, hbody, rfl⟩ := ScriptUnit.exists_ofBody_of_compile hu
    refine ⟨h.store, h.known, ?_⟩
    rintro _ ⟨⟩
    exact ⟨rfl, source, .empty, hbody⟩
  · have hleft : Sited o known { s with machine := (s.machine.compile name source).2 } :=
      ⟨h.store, h.known, h.pending⟩
    exact hleft.report _

theorem Sited.letGo {more : List Value} (h : s.Sited o (more ++ known)) : s.Sited o known :=
  ⟨h.store, fun v hv => h.known v (List.mem_append_right _ hv), h.pending⟩

theorem Sited.runPending {value : Option Value} (hs : s.InOrder known) (h : s.Sited o known)
    (hrun : s.runPending fuel = .ok (value, t)) :
    t.Sited (originsAfter s.hosts fuel o s.executionOfPending) (value.toList ++ known) := by
  unfold Session.runPending at hrun
  unfold executionOfPending
  cases hpending : s.pending with
  | none =>
      rw [hpending] at hrun
      obtain ⟨rfl, rfl⟩ := Prod.mk.inj (Except.ok.inj hrun)
      exact h.report _
  | some u =>
      rw [hpending] at hrun
      dsimp only at hrun
      split at hrun
      · cases hrun
      · rename_i n ending hunit
        obtain ⟨left, hleft, rfl⟩ :=
          (Machine.runUnit_eq_some_iff (congrArg Trap.armed hs.atRest.trap)).mp hunit
        obtain ⟨hmachine, hending, hextends⟩ := Situation.placed_of_run (h.ofUnit hs hpending) hleft
        have hknown : ∀ v ∈ known, v.Placed
            (originsAfter s.hosts fuel o (some (s.machine, u))) :=
          fun v hv => (h.known v hv).mono hextends
        cases ending with
        | value v =>
            obtain ⟨rfl, rfl⟩ := Prod.mk.inj (Except.ok.inj hrun)
            exact ⟨hmachine.store, List.forall_mem_cons.mpr ⟨hending, hknown⟩, by simp⟩
        | fault f =>
            obtain ⟨rfl, rfl⟩ := Prod.mk.inj (Except.ok.inj hrun)
            exact Sited.report ⟨hmachine.store, hknown, by simp⟩ _
        | stranded message => cases hrun

theorem Sited.getGlobal (h : s.Sited o known) (name : String) :
    s.Sited o ((s.getGlobal name).toList ++ known) := by
  refine ⟨h.store, fun v hv => ?_, h.pending⟩
  rcases List.mem_append.mp hv with hvalue | hold
  · exact h.store.values _ name v (Option.mem_toList.mp hvalue)
  · exact h.known v hold

theorem Sited.setGlobal (h : s.Sited o known) {v : Value} (hv : v.IsData ∨ v ∈ known)
    (name : String) : (s.setGlobal name v).Sited o known := by
  have hvalue : v.Placed o := by
    rcases hv with hdata | hgiven
    · exact hdata.placed
    · exact h.known v hgiven
  exact ⟨h.store.set _ name hvalue, h.known, h.pending⟩

/-- After every operation what is at hand, and what was answered, agrees with the origins. -/
theorem carried_sited (fuel : Nat) (o : Origins) :
    Carried fuel (fun known s => s.InOrder known ∧ s.Sited o known)
      fun hosts execution known s => s.Sited (originsAfter hosts fuel o execution) known where
  loadNamed h name source := ⟨h.1.loadNamed name source, h.2.loadNamed name source⟩
  report h message := ⟨h.1.report message, h.2.report message⟩
  runPending h hrun := h.2.runPending h.1 hrun
  still h := h.2
  forget h := h.letGo
  getGlobal h name := ⟨h.1.getGlobal name, h.2.getGlobal name⟩
  setGlobal h hv name := ⟨h.1.setGlobal name hv, h.2.setGlobal hv name⟩

theorem sited_create (config : Config) (output diagnostics : Output) (hosts : HostTable) :
    (create .empty config output diagnostics hosts []).Sited (fun _ => none) [] := by
  have hnone {values : Store} (h : ∀ id name v, values.get? id name = some v →
      v.Placed fun _ => none) : values.Placed fun _ => none :=
    ⟨h, fun identity hidentity => absurd rfl hidentity⟩
  have hempty : Store.empty.Placed fun _ => none := by
    refine hnone fun id name v hv => ?_
    cases hv
  have hinstall (m : Machine) (code : NativeCode) (hcode : ∀ name, code ≠ .host name)
      (hm : m.store.Placed fun _ => none) : (m.install code).store.Placed fun _ => none := by
    refine Store.Placed.set (s := (m.makeNative code).2.store) (hnone hm.values) _ _ ?_
    cases code with
    | host name => exact absurd rfl (hcode name)
    | print | eval => exact trivial
  refine ⟨hinstall _ .eval (by simp) (hinstall _ .print (by simp) (hempty.allocate .global)),
    by simp, by simp [create]⟩

theorem Charted.sited (h : s.Charted o known) : s.Sited o known := by
  induction h with
  | create config output diagnostics hosts => exact sited_create config output diagnostics hosts
  | perform h hset hperform ih =>
      exact (carried_sited _ _).perform ⟨h.scripted.inOrder, ih⟩ hset hperform

/-- Every session that only scripts have a hand in has origins of its functions. By any such origins
each function in the store is closed over one frame and one more for each function body around the
phrase that made it, in the program that it was compiled from. The environment is the global one
between the operations, and so is that of the unit which is pending; in every situation that its run
passes through, the environment has one frame and one more for each function body around what is
executed, and a text that is passed to eval begins in the global frame again. All chains end in the
global frame, come upon no scope twice and have 97 frames at the most, so no name is searched for in
more steps. -/
theorem Scripted.staticallyScoped (h : s.Scripted known) :
    (∃ o, s.Charted o known) ∧
    ∀ o, s.Charted o known →
      (∀ id name identity closure,
        s.machine.store.get? id name = some (.function identity closure) →
          closure.StaticallyScoped o identity ∧
          closure.environment.Chains s.machine.store s.machine.global) ∧
      s.machine.environment = s.machine.globalEnvironment ∧
      (∀ u ∈ s.pending, u.closure.environment = s.machine.globalEnvironment) ∧
      ∀ u c t, s.pending = some u →
        (Situation.ofUnit s.machine u).Charted s.hosts (.begun o) c t →
          t.StaticallyScoped s.hosts c := by
  refine ⟨h.exists_charted, fun o hcharted => ?_⟩
  have hs := h.inOrder
  have hsited := hcharted.sited
  obtain ⟨parents, hobeys, -⟩ := id hs.tidy
  refine ⟨hsited.store.closures hobeys.store hobeys.global.2, hs.atRest.environment, hs.pending, ?_⟩
  intro u c t hu ht
  have hbegin := hs.tidy.orderly (hs.pending u hu)
  obtain ⟨-, htidy, hplaced⟩ := ht.placed hbegin.hostFree hbegin.tidy (hsited.ofUnit hs hu)
  exact Situation.staticallyScoped_of_placed s.hosts hplaced htidy

/-- A function that a call has made is called after that call is over: the name that it is about to
look up stands in two function bodies, and the environment has three frames. -/
theorem Scripted.staticallyScoped_in_inner :
    ∃ (o : Origins) (s : Session) (u : ScriptUnit) (c : Chart) (t : Situation .expression)
      (span : Span), s.Charted o [] ∧ s.pending = some u ∧
      (Situation.ofUnit s.machine u).Charted s.hosts (.begun o) c t ∧
      t.phrase? = some (.expr (.variable span "x")) ∧
      t.machine.environment.scopes.length = 3 ∧
      Lies c.current.unit 2 (.expr (.variable span "x")) ∧ t.StaticallyScoped s.hosts c := by
  let source := "function make(x) \x7b return function() \x7b return x; \x7d; \x7d" ++
    " var read = make('a'); read();"
  let s := (blank.load source).2
  have hblank : blank.Charted (fun _ => none) [] :=
    .create .default (.buffer .empty) (.buffer .empty) .inert
  have hload : blank.perform 0 (.load source) = .ok (.status (blank.load source).1, s) := rfl
  have hcharted : s.Charted (fun _ => none) [] := .perform hblank (by simp) hload
  have hreached : (s.pending.any fun u =>
      (Situation.trace s.hosts 39 ([], Situation.ofUnit s.machine u)).any fun here =>
        here.2.name? == some "x" && here.2.machine.environment.scopes.length == 3) = true := by
    decide +kernel
  obtain ⟨u, hu, hreached⟩ := (Option.any_eq_true _ _).mp hreached
  obtain ⟨⟨calls, t⟩, htrace, hreached⟩ := (Option.any_eq_true _ _).mp hreached
  simp only [Bool.and_eq_true, beq_iff_eq] at hreached
  obtain ⟨hname, hlength⟩ := hreached
  obtain ⟨span, hphrase⟩ := Situation.exists_phrase?_of_name? hname
  have hbegin : (Situation.ofUnit s.machine u).Charted s.hosts (.begun fun _ => none)
      (.begun fun _ => none) (Situation.ofUnit s.machine u) := .start
  have hrun := hbegin.of_trace htrace
  obtain ⟨-, -, -, hruns⟩ := hcharted.scripted.staticallyScoped.2 _ hcharted
  have hscoped := hruns u _ t hu hrun
  obtain ⟨⟨bodies, hlies⟩, hcount⟩ := hscoped.executed (.expr (.variable span "x"))
    (List.mem_append_left _ (Option.mem_toList.mpr hphrase))
  have htwo : bodies = 2 := by
    have hsame := hcount bodies hlies
    omega
  exact ⟨_, s, u, _, t, span, hcharted, hu, hrun, hphrase, hlength, htwo ▸ hlies, hscoped⟩

end Session

end ScriptHost
