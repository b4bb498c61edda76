import ScriptHost.Proofs.Machine.Activation
import ScriptHost.Proofs.Session.Trap

/-!
Sessions that nothing but scripts has a hand in. Their only natives are the ones built in, and of
values that refer to something the embedding program sets none but those that it was given. In such
sessions no value ever refers to the scope of a call, and the calls of a run are private.
-/

namespace ScriptHost

/-- A value that refers to nothing. -/
def Value.IsData : Value → Prop
  | .undefined | .null | .bool _ | .number _ | .string _ => True
  | _ => False

/-- The values that an answer hands out. -/
def Answer.values : Answer → List Value
  | .value v => v.toList
  | _ => []

theorem Value.IsData.obeys {v : Value} (h : v.IsData) (P : Policy) : v.Obeys P := by
  cases v <;> first | exact trivial | exact h.elim

theorem Value.Obeys.hostFree {P : Policy} {v : Value} (h : v.Obeys P) : v.HostFree := by
  cases v with
  | native identity code => cases code <;> exact h
  | _ => exact trivial

namespace Machine

variable {m : Machine} {known : List Value}

theorem Obeys.hostFree {P : Policy} (h : m.Obeys P) : m.HostFree :=
  ⟨fun id name v hv => (h.store id name v hv).hostFree, h.receiver.hostFree⟩

theorem grows_install {s : Store} {m : Machine} (h : s.Grows m.store) (code : NativeCode) :
    s.Grows (m.install code).store :=
  h.trans (m.store.grows_identify.trans (Store.grows_set _ _ _ _))

theorem grows_create (s : Store) (config : Config) (output : Output) :
    (s.allocate .global).2.Grows (create s config output).store := by
  apply grows_install
  apply grows_install
  exact .refl _

/-- The machine keeps to some layout, and so do certain values that are held elsewhere. -/
def Tidy (known : List Value) (m : Machine) : Prop :=
  ∃ parents, m.Obeys (.layout parents m.store m.global) ∧
    ∀ v ∈ known, v.Obeys (.layout parents m.store m.global)

/-- Only the store, the receiver, the environment and the global object matter. -/
theorem Tidy.of_eq {n : Machine} (hm : m.Tidy known) (hstore : n.store = m.store)
    (hreceiver : n.receiver = m.receiver) (henvironment : n.environment = m.environment)
    (hglobal : n.global = m.global) : n.Tidy known := by
  obtain ⟨parents, hobeys, hknown⟩ := hm
  refine ⟨parents, ?_, ?_⟩
  · rw [hstore, hglobal]
    refine ⟨hstore ▸ hobeys.store, hreceiver ▸ hobeys.receiver, henvironment ▸ hobeys.environment,
      hglobal ▸ hobeys.global, ?_⟩
    rw [globalEnvironment, hglobal]
    exact hobeys.root
  · rw [hstore, hglobal]
    exact hknown

/-- The first situation of a run is in order if the machine is tidy and the unit is bound to the
global frame. -/
theorem Tidy.orderly (hm : m.Tidy known) {u : ScriptUnit}
    (hu : u.closure.environment = m.globalEnvironment) :
    (Situation.ofUnit m u).Orderly known [] := by
  obtain ⟨parents, hobeys, hknown⟩ := hm
  have hclosure : u.closure.Obeys (.layout parents m.store m.global) :=
    ⟨hu ▸ hobeys.root, fun _ _ => trivial⟩
  refine ⟨Situation.hostFree_ofUnit hobeys.hostFree u, ⟨parents, ⟨?_, trivial, ?_⟩, hknown⟩, rfl,
    ⟨List.nodup_nil, by simp⟩⟩
  · exact ⟨hobeys.global, hclosure, by simp⟩
  · exact ⟨hobeys.store, hobeys.receiver, hobeys.environment, hobeys.global, hobeys.root⟩

/-- After a run the machine is tidy, together with the value that the run has come to. -/
theorem Tidy.of_runUnit {n : Machine} {hosts : HostTable} {fuel : Nat} {u : ScriptUnit}
    {ending : Ending .expression} (hm : m.Tidy known) (hrest : m.AtRest)
    (hu : u.closure.environment = m.globalEnvironment)
    (hrun : m.runUnit hosts fuel u = some (n, ending)) :
    n.Tidy known ∧ ∀ v, ending = .value v → n.Tidy (v :: known) := by
  obtain ⟨left, hleft, rfl⟩ :=
    (runUnit_eq_some_iff (congrArg Trap.armed hrest.trap)).mp hrun
  have hbegin := hm.orderly hu
  obtain ⟨parents, hobeys, hending, hknown⟩ := Situation.halt_of_run
    (P := fun t => t.HostFree ∧ t.Tidy known)
    (Q := fun n e => ∃ parents, n.Obeys (.layout parents n.store n.global) ∧
      e.Obeys (.layout parents n.store n.global) ∧
        ∀ v ∈ known, v.Obeys (.layout parents n.store n.global))
    (fun t ht => by
      have hfree := Situation.hostFree_step hosts ht.1
      have htidy := Situation.tidy_step hosts ht.1 ht.2
      cases hstep : t.step hosts with
      | next t' =>
          rw [hstep] at hfree htidy
          exact ⟨hfree, htidy⟩
      | halt n' e' =>
          rw [hstep] at htidy
          obtain ⟨parents, ⟨hmachine, hend⟩, hvalues⟩ := htidy
          exact ⟨parents, hmachine, hend, hvalues⟩)
    ⟨hbegin.hostFree, hbegin.tidy⟩ hleft
  have hdisarmed : { left with trap := left.trap.disarm }.Obeys
      (.layout parents left.store left.global) :=
    ⟨hobeys.store, hobeys.receiver, hobeys.environment, hobeys.global, hobeys.root⟩
  refine ⟨⟨parents, hdisarmed, hknown⟩, ?_⟩
  rintro v rfl
  exact ⟨parents, hdisarmed, List.forall_mem_cons.mpr ⟨hending, hknown⟩⟩

end Machine

namespace Session

variable {s t : Session} {known : List Value} {fuel : Nat}

/-- What operations make of a new session without natives of a host, with the values that it has
handed out. A value that is set is plain data or one of those. -/
inductive Scripted : List Value → Session → Prop
  | create (config : Config) (output diagnostics : Output) (hosts : HostTable) :
      Scripted [] (create .empty config output diagnostics hosts [])
  | perform {known : List Value} {s t : Session} {fuel : Nat} {operation : Operation}
      {answer : Answer} (h : Scripted known s)
      (hset : ∀ name v, operation = .setGlobal name v → v.IsData ∨ v ∈ known)
      (hperform : s.perform fuel operation = .ok (answer, t)) : Scripted (answer.values ++ known) t

/-- One property of a session and the values that it has handed out is kept by what an operation
consists of, up to a run; from it follows what holds after the operation, which may depend on the
execution that was made. -/
structure Carried (fuel : Nat) (P : List Value → Session → Prop)
    (Q : HostTable → Option (Machine × ScriptUnit) → List Value → Session → Prop) : Prop where
  loadNamed : ∀ {known s}, P known s → ∀ name source, P known (s.loadNamed name source).2
  report : ∀ {known s}, P known s → ∀ message, P known (s.report message)
  runPending : ∀ {known s value t}, P known s → s.runPending fuel = .ok (value, t) →
    Q s.hosts s.executionOfPending (value.toList ++ known) t
  still : ∀ {hosts known s}, P known s → Q hosts none known s
  forget : ∀ {hosts execution more known s}, Q hosts execution (more ++ known) s →
    Q hosts execution known s
  getGlobal : ∀ {known s}, P known s → ∀ name, P ((s.getGlobal name).toList ++ known) s
  setGlobal : ∀ {known s v}, P known s → v.IsData ∨ v ∈ known → ∀ name,
    P known (s.setGlobal name v)

namespace Carried

variable {P : List Value → Session → Prop}
  {Q : HostTable → Option (Machine × ScriptUnit) → List Value → Session → Prop}

theorem loadFile (h : Carried fuel P Q) (hs : P known s) (path : String)
    (contents : Except FileProblem ByteArray) : P known (s.loadFile path contents).2 :=
  of_loadFile (P := P known) (fun _ name source hs => h.loadNamed hs name source)
    (fun _ message hs => h.report hs message) path contents hs

theorem runLoaded {loaded : Status × Session} {value : Option Value} (h : Carried fuel P Q)
    (hs : P known loaded.2) (hrun : runLoaded fuel loaded = .ok (value, t)) :
    Q loaded.2.hosts (executionOfLoaded loaded) (value.toList ++ known) t := by
  obtain ⟨status, s⟩ := loaded
  cases status with
  | success => exact h.runPending hs hrun
  | failure =>
      obtain ⟨rfl, rfl⟩ := Prod.mk.inj (Except.ok.inj hrun)
      exact h.still hs

theorem callLoaded {loaded : Status × Session} {status : Status} (h : Carried fuel P Q)
    (hs : P known loaded.2) (hrun : callLoaded fuel loaded = .ok (status, t)) :
    Q loaded.2.hosts (executionOfLoaded loaded) known t := by
  rw [callLoaded_eq_map] at hrun
  obtain ⟨⟨value, u⟩, hloaded, heq⟩ := exists_of_map_eq_ok hrun
  obtain ⟨-, rfl⟩ := Prod.mk.inj heq
  exact h.forget (h.runLoaded hs hloaded)

/-- Then it holds after every operation, with what is answered. -/
theorem perform {operation : Operation} {answer : Answer} (h : Carried fuel P Q) (hs : P known s)
    (hset : ∀ name v, operation = .setGlobal name v → v.IsData ∨ v ∈ known)
    (hperform : s.perform fuel operation = .ok (answer, t)) :
    Q s.hosts (s.execution operation) (answer.values ++ known) t := by
  cases operation with
  | load source =>
      obtain ⟨rfl, rfl⟩ := Prod.mk.inj (Except.ok.inj hperform)
      exact h.still (h.loadNamed hs _ source)
  | loadFile path contents =>
      obtain ⟨rfl, rfl⟩ := Prod.mk.inj (Except.ok.inj hperform)
      exact h.still (h.loadFile hs path contents)
  | call =>
      obtain ⟨⟨status, u⟩, hcall, heq⟩ := exists_of_map_eq_ok hperform
      obtain ⟨rfl, rfl⟩ := Prod.mk.inj heq
      rw [call_eq_map] at hcall
      obtain ⟨⟨value, v⟩, hrun, heq⟩ := exists_of_map_eq_ok hcall
      obtain ⟨-, rfl⟩ := Prod.mk.inj heq
      exact h.forget (h.runPending hs hrun)
  | run source =>
      obtain ⟨⟨status, u⟩, hcall, heq⟩ := exists_of_map_eq_ok hperform
      obtain ⟨rfl, rfl⟩ := Prod.mk.inj heq
      rw [← hosts_loadNamed s stringUnitName source]
      exact h.callLoaded (h.loadNamed hs _ source) hcall
  | runFile path contents =>
      obtain ⟨⟨status, u⟩, hcall, heq⟩ := exists_of_map_eq_ok hperform
      obtain ⟨rfl, rfl⟩ := Prod.mk.inj heq
      rw [← hosts_loadFile s path contents]
      exact h.callLoaded (h.loadFile hs path contents) hcall
  | evaluate source =>
      obtain ⟨⟨v, u⟩, heval, heq⟩ := exists_of_map_eq_ok hperform
      obtain ⟨rfl, rfl⟩ := Prod.mk.inj heq
      rw [evaluate_eq_runLoaded] at heval
      rw [← hosts_loadNamed s stringUnitName source]
      exact h.runLoaded (h.loadNamed hs _ source) heval
  | report message =>
      obtain ⟨rfl, rfl⟩ := Prod.mk.inj (Except.ok.inj hperform)
      exact h.still (h.report hs message)
  | getGlobal name =>
      obtain ⟨rfl, rfl⟩ := Prod.mk.inj (Except.ok.inj hperform)
      exact h.still (h.getGlobal hs name)
  | setGlobal name v =>
      obtain ⟨rfl, rfl⟩ := Prod.mk.inj (Except.ok.inj hperform)
      exact h.still (h.setGlobal hs (hset name v rfl) name)

end Carried

/-- What holds of such sessions between the operations. -/
structure InOrder (known : List Value) (s : Session) : Prop where
  atRest : s.machine.AtRest
  tidy : s.machine.Tidy known
  pending : ∀ u ∈ s.pending, u.closure.environment = s.machine.globalEnvironment

theorem InOrder.report (hs : s.InOrder known) (message : String) :
    (s.report message).InOrder known := by
  refine ⟨?_, ?_, ?_⟩
  · rw [machine_report]
    exact hs.atRest
  · rw [machine_report]
    exact hs.tidy
  · rw [machine_report, pending_report]
    exact hs.pending

theorem InOrder.loadNamed (hs : s.InOrder known) (name source : String) :
    (s.loadNamed name source).2.InOrder known := by
  have hrest : (s.machine.compile name source).2.AtRest :=
    hs.atRest.of_context_eq (m := s.machine) rfl
  have htidy : (s.machine.compile name source).2.Tidy known := hs.tidy.of_eq rfl rfl rfl rfl
  unfold Session.loadNamed
  dsimp only
  split
  · rename_i u hu
    obtain ⟨body, -, rfl⟩ := ScriptUnit.exists_ofBody_of_compile hu
    refine ⟨hrest, htidy, ?_⟩
    rintro _ ⟨⟩
    rfl
  · have hleft : InOrder known { s with machine := (s.machine.compile name source).2 } :=
      ⟨hrest, htidy, hs.pending⟩
    exact hleft.report _

theorem InOrder.runPending {value : Option Value} (hs : s.InOrder known)
    (h : s.runPending fuel = .ok (value, t)) : t.InOrder (value.toList ++ known) := by
  have hrest := atRest_runPending hs.atRest h
  unfold Session.runPending at h
  split at h
  · obtain ⟨rfl, rfl⟩ := Prod.mk.inj (Except.ok.inj h)
    exact hs.report _
  · rename_i u hu
    split at h
    · cases h
    · rename_i n ending hrun
      obtain ⟨htidy, hvalue⟩ := hs.tidy.of_runUnit hs.atRest (hs.pending u hu) hrun
      cases ending with
      | value v =>
          obtain ⟨rfl, rfl⟩ := Prod.mk.inj (Except.ok.inj h)
          exact ⟨hrest, hvalue v rfl, by simp⟩
      | fault f =>
          obtain ⟨rfl, rfl⟩ := Prod.mk.inj (Except.ok.inj h)
          rw [machine_report] at hrest
          exact InOrder.report ⟨hrest, htidy, by simp⟩ _
      | stranded message => cases h

/-- What is known besides may be forgotten. -/
theorem InOrder.forget {more : List Value} (hs : s.InOrder (more ++ known)) : s.InOrder known :=
  ⟨hs.atRest, hs.tidy.imp fun _ h => ⟨h.1, fun v hv => h.2 v (List.mem_append_right _ hv)⟩,
    hs.pending⟩

theorem InOrder.getGlobal (hs : s.InOrder known) (name : String) :
    s.InOrder ((s.getGlobal name).toList ++ known) := by
  obtain ⟨hrest, ⟨parents, hobeys, hknown⟩, hpending⟩ := hs
  refine ⟨hrest, ⟨parents, hobeys, ?_⟩, hpending⟩
  intro v hv
  rcases List.mem_append.mp hv with hvalue | hold
  · exact hobeys.store _ name v (Option.mem_toList.mp hvalue)
  · exact hknown v hold

theorem InOrder.setGlobal (hs : s.InOrder known) (name : String) {v : Value}
    (hv : v.IsData ∨ v ∈ known) : (s.setGlobal name v).InOrder known := by
  obtain ⟨hrest, ⟨parents, hobeys, hknown⟩, hpending⟩ := hs
  have hvalue : v.Obeys (.layout parents s.machine.store s.machine.global) := by
    rcases hv with hdata | hgiven
    · exact hdata.obeys _
    · exact hknown v hgiven
  have hwithin : (Policy.layout parents s.machine.store s.machine.global).Within
      (.layout parents (s.setGlobal name v).machine.store s.machine.global) :=
    Policy.within_layout s.machine.global (s.machine.store.grows_set _ name v) fun _ _ => rfl
  exact ⟨hrest.of_context_eq (m := s.machine) rfl,
    ⟨parents, (hobeys.set s.machine.global name hvalue).within hwithin,
      fun w hw => (hknown w hw).within hwithin⟩, hpending⟩

theorem carried_inOrder (fuel : Nat) : Carried fuel InOrder fun _ _ => InOrder where
  loadNamed hs name source := hs.loadNamed name source
  report hs message := hs.report message
  runPending hs hrun := hs.runPending hrun
  still hs := hs
  forget hs := hs.forget
  getGlobal hs name := hs.getGlobal name
  setGlobal hs hv name := hs.setGlobal name hv

theorem inOrder_create (config : Config) (output diagnostics : Output) (hosts : HostTable) :
    (create .empty config output diagnostics hosts []).InOrder [] := by
  have hgrows := Machine.grows_create .empty config output
  refine ⟨atRest_create _ _ _ _ _ _, ⟨fun _ => .root ⟨0⟩, ?_, by simp⟩, by simp [create]⟩
  refine Machine.obeys_create Store.obeys_empty config output ⟨hgrows.lt_allocate, ?_⟩ rfl
  have hkind := hgrows.kind_allocate
  exact fun hscope => nomatch hscope.symm.trans hkind

theorem Scripted.inOrder (h : s.Scripted known) : s.InOrder known := by
  induction h with
  | create config output diagnostics hosts => exact inOrder_create config output diagnostics hosts
  | perform _ hset hperform ih => exact (carried_inOrder _).perform ih hset hperform

/-- In a session that only scripts have a hand in, no value that it hands out refers to the scope of
a call, and in every situation that the run of a unit passes through, the calls under way are
private. -/
theorem Scripted.privateCalls (h : s.Scripted known) :
    (∀ id, .object id ∈ known → (s.machine.store.object id).kind ≠ .scope) ∧
    (∀ name id, s.getGlobal name = some (.object id) →
      (s.machine.store.object id).kind ≠ .scope) ∧
    ∀ u calls t, s.pending = some u → (Situation.ofUnit s.machine u).Traced s.hosts calls t →
      t.PrivateCalls s.hosts calls := by
  obtain ⟨hrest, htidy, hpending⟩ := h.inOrder
  obtain ⟨parents, hobeys, hknown⟩ := id htidy
  refine ⟨fun id hid => (hknown _ hid).2, ?_, ?_⟩
  · intro name id hname
    have hvalue := hobeys.store _ name _ hname
    exact hvalue.2
  · intro u calls t hu ht
    exact Situation.privateCalls_of_orderly s.hosts
      (Situation.orderly_of_traced (htidy.orderly (hpending u hu)) ht)

/-- A function that calls itself before it declares a variable: the inner call has returned, and the
outer one is about to declare on its own scope. -/
theorem Scripted.privateCalls_after_recursion :
    ∃ (s : Session) (u : ScriptUnit) (t : Situation .expression), s.Scripted [] ∧
      s.pending = some u ∧
      (Situation.ofUnit s.machine u).Traced s.hosts [some ⟨1⟩, none] t ∧
      t.machine.store.objects.size = 3 ∧ t.declares?.map Prod.fst = some "y" ∧
      t.PrivateCalls s.hosts [some ⟨1⟩, none] := by
  let source := "function f(x) \x7b if (x) \x7b f(''); \x7d var y = x; \x7d f('a');"
  let s := (blank.load source).2
  have hblank : blank.Scripted [] := .create .default (.buffer .empty) (.buffer .empty) .inert
  have hload : blank.perform 0 (.load source) = .ok (.status (blank.load source).1, s) := rfl
  have hscripted : s.Scripted [] := .perform hblank (by simp) hload
  have hreached : (s.pending.any fun u =>
      (Situation.trace s.hosts 62 ([], Situation.ofUnit s.machine u)).any fun here =>
        here.1 == [some ⟨1⟩, none] && (here.2.machine.store.objects.size == 3 &&
          here.2.declares?.map Prod.fst == some "y")) = true := by
    decide +kernel
  obtain ⟨u, hu, hreached⟩ := (Option.any_eq_true _ _).mp hreached
  obtain ⟨⟨calls, t⟩, htrace, hreached⟩ := (Option.any_eq_true _ _).mp hreached
  simp only [Bool.and_eq_true, beq_iff_eq] at hreached
  obtain ⟨rfl, hsize, hdeclares⟩ := hreached
  have htraced := Situation.Traced.of_trace .start htrace
  exact ⟨s, u, t, hscripted, hu, htraced, hsize, hdeclares,
    (Scripted.privateCalls hscripted).2.2 u _ t hu htraced⟩

end Session

end ScriptHost
