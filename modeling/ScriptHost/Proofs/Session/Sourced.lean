import ScriptHost.Proofs.Machine.Sequence
import ScriptHost.Proofs.Machine.Sourced
import ScriptHost.Proofs.Session.Scripted

/-!
Sessions whose code comes from accepted texts. Their hosts make no code and set no function that was
not compiled from a text; then no unit that is run ends its statements at a return, and no
assignment is refused for its target.
-/

namespace ScriptHost

theorem Value.IsData.sourced {v : Value} (h : v.IsData) : v.Sourced := by
  cases v <;> first | exact trivial | exact h.elim

namespace Machine

variable {m n : Machine} {hosts : HostTable}

theorem Sourced.install (hm : m.Sourced) (code : NativeCode) : (m.install code).Sourced :=
  ⟨Store.Sourced.set (s := (m.makeNative code).2.store) hm.store _ _ trivial, hm.receiver⟩

theorem sourced_create {s : Store} (hs : s.Sourced) (config : Config) (output : Output) :
    (create s config output).Sourced := by
  apply Sourced.install
  apply Sourced.install
  exact ⟨hs.allocate .global, trivial⟩

/-- The run of a unit leaves, and comes to, nothing but what is sourced. -/
theorem Sourced.of_runUnit (hm : m.Sourced) (hhosts : hosts.Sourced) {u : ScriptUnit} {fuel : Nat}
    {ending : Ending .expression} (hu : u.closure.Sourced)
    (hrun : m.runUnit hosts fuel u = some (n, ending)) : n.Sourced ∧ ending.Sourced := by
  unfold runUnit at hrun
  split at hrun
  · obtain ⟨rfl, rfl⟩ := Prod.mk.inj (Option.some.inj hrun)
    exact ⟨hm, trivial⟩
  · obtain ⟨⟨left, e⟩, hleft, heq⟩ := Option.map_eq_some_iff.mp hrun
    obtain ⟨rfl, rfl⟩ := Prod.mk.inj heq
    obtain ⟨hmachine, hending⟩ := (Situation.sourced_enter (hm.armed _) hu).of_run hhosts hleft
    exact ⟨⟨hmachine.store, hmachine.receiver⟩, hending⟩

end Machine

/-- The statements of a unit, run by themselves on any machine that has no other code, end at no
return. -/
theorem Machine.Sourced.not_isReturn_of_run {m n : Machine} {hosts : HostTable} (hm : m.Sourced)
    (hhosts : hosts.Sourced) {u : ScriptUnit} (hu : u.Compiled) {fuel : Nat}
    {ending : Ending .statement}
    (hrun : (Situation.sequence m u.body none).run hosts fuel = some (n, ending)) :
    ¬ ending.IsReturn := by
  have hbegin : (Situation.sequence m u.body none).Sourced :=
    ⟨⟨hu.isProgram.sourced, sourced_none⟩, trivial, hm⟩
  obtain ⟨-, hending⟩ := hbegin.of_run hhosts hrun
  cases ending with
  | completion c =>
      cases c with
      | normal value => exact id
      | «return» v => exact nomatch hending.1
  | fault | stranded => exact id

theorem Situation.Traced.passes {last : Phrase} {hosts : HostTable} {start t : Situation last}
    {calls : List (Option ObjectId)} (h : start.Traced hosts calls t) : start.Passes hosts t := by
  induction h with
  | start => exact .refl
  | step _ hstep ih => exact ih.tail hstep

/-- The statements of a unit have ended while a call goes on around it. -/
def Situation.endsInnerUnit : {last : Phrase} → Situation last → Bool
  | _, ⟨_, .completion _, .cons (.returnTo _ _ true) (.cons _ _), _⟩ => true
  | _, _ => false

namespace Session

variable {s t : Session} {known : List Value} {fuel : Nat}

/-- What operations make of a new session, whose natives make no code, if every function that is set
comes from an accepted text. -/
inductive Sourced : Session → Prop
  | create (config : Config) (output diagnostics : Output) (natives : List String) {store : Store}
      {hosts : HostTable} (hstore : store.Sourced) (hhosts : hosts.Sourced) :
      Sourced (create store config output diagnostics hosts natives)
  | perform {s t : Session} {fuel : Nat} {operation : Operation} {answer : Answer} (h : Sourced s)
      (hset : ∀ name v, operation = .setGlobal name v → v.Sourced)
      (hperform : s.perform fuel operation = .ok (answer, t)) : Sourced t

/-- What such a session has at hand between the operations. -/
structure InSource (known : List Value) (s : Session) : Prop where
  machine : s.machine.Sourced
  hosts : s.hosts.Sourced
  pending : ∀ u ∈ s.pending, u.Compiled
  known : ∀ v ∈ known, v.Sourced

theorem InSource.report (h : s.InSource known) (message : String) :
    (s.report message).InSource known := by
  refine ⟨?_, ?_, ?_, h.known⟩
  · rw [machine_report]
    exact h.machine
  · rw [hosts_report]
    exact h.hosts
  · rw [pending_report]
    exact h.pending

theorem InSource.loadNamed (h : s.InSource known) (name source : String) :
    (s.loadNamed name source).2.InSource known := by
  have hleft : (s.machine.compile name source).2.Sourced := ⟨h.machine.store, h.machine.receiver⟩
  unfold Session.loadNamed
  dsimp only
  split
  · rename_i u hu
    refine ⟨hleft, h.hosts, ?_, h.known⟩
    rintro _ ⟨⟩
    exact ⟨name, source, _, _, hu⟩
  · have hrefused : InSource known { s with machine := (s.machine.compile name source).2 } :=
      ⟨hleft, h.hosts, h.pending, h.known⟩
    exact hrefused.report _

theorem InSource.runPending {value : Option Value} (h : s.InSource known)
    (hrun : s.runPending fuel = .ok (value, t)) : t.InSource (value.toList ++ known) := by
  unfold Session.runPending at hrun
  split at hrun
  · obtain ⟨rfl, rfl⟩ := Prod.mk.inj (Except.ok.inj hrun)
    exact h.report _
  · rename_i u hu
    split at hrun
    · cases hrun
    · rename_i n ending hunit
      obtain ⟨hmachine, hending⟩ := h.machine.of_runUnit h.hosts (h.pending u hu).sourced hunit
      cases ending with
      | value v =>
          obtain ⟨rfl, rfl⟩ := Prod.mk.inj (Except.ok.inj hrun)
          exact ⟨hmachine, h.hosts, by simp, List.forall_mem_cons.mpr ⟨hending, h.known⟩⟩
      | fault f =>
          obtain ⟨rfl, rfl⟩ := Prod.mk.inj (Except.ok.inj hrun)
          have hleft : InSource known { s with machine := n, pending := none } :=
            ⟨hmachine, h.hosts, by simp, h.known⟩
          exact hleft.report _
      | stranded message => cases hrun

theorem InSource.letGo {more : List Value} (h : s.InSource (more ++ known)) : s.InSource known :=
  ⟨h.machine, h.hosts, h.pending, fun v hv => h.known v (List.mem_append_right _ hv)⟩

theorem InSource.getGlobal (h : s.InSource known) (name : String) :
    s.InSource ((s.getGlobal name).toList ++ known) := by
  refine ⟨h.machine, h.hosts, h.pending, fun v hv => ?_⟩
  rcases List.mem_append.mp hv with hvalue | hold
  · exact h.machine.store.get? (Option.mem_toList.mp hvalue)
  · exact h.known v hold

theorem InSource.setGlobal (h : s.InSource known) {v : Value} (hv : v.IsData ∨ v ∈ known)
    (name : String) : (s.setGlobal name v).InSource known := by
  have hvalue : v.Sourced := by
    rcases hv with hdata | hgiven
    · exact hdata.sourced
    · exact h.known v hgiven
  exact ⟨h.machine.set _ name hvalue, h.hosts, h.pending, h.known⟩

theorem carried_inSource (fuel : Nat) : Carried fuel InSource fun _ _ => InSource where
  loadNamed h name source := h.loadNamed name source
  report h message := h.report message
  runPending h hrun := h.runPending hrun
  still h := h
  forget h := h.letGo
  getGlobal h name := h.getGlobal name
  setGlobal h hv name := h.setGlobal hv name

theorem inSource_create (config : Config) (output diagnostics : Output) (natives : List String)
    {store : Store} {hosts : HostTable} (hstore : store.Sourced) (hhosts : hosts.Sourced) :
    (create store config output diagnostics hosts natives).InSource [] := by
  have hinstalled (names : List String) (m : Machine) (hm : m.Sourced) :
      (names.foldl (fun m name => m.install (.host name)) m).Sourced := by
    induction names generalizing m with
    | nil => exact hm
    | cons name rest ih => exact ih _ (hm.install _)
  have hmachine := hinstalled natives _ (Machine.sourced_create hstore config output)
  exact ⟨hmachine, hhosts, by simp [create], by simp⟩

theorem Sourced.inSource (h : s.Sourced) : s.InSource [] := by
  induction h with
  | create config output diagnostics natives hstore hhosts =>
      exact inSource_create config output diagnostics natives hstore hhosts
  | @perform s t fuel operation answer _ hset hperform ih =>
      have hgiven : ∃ known, s.InSource known ∧
          ∀ name v, operation = .setGlobal name v → v.IsData ∨ v ∈ known := by
        cases operation with
        | setGlobal name v =>
            refine ⟨[v], ⟨ih.machine, ih.hosts, ih.pending, ?_⟩, ?_⟩
            · simpa using hset name v rfl
            · rintro _ _ ⟨⟩
              exact .inr List.mem_cons_self
        | _ => exact ⟨[], ih, nofun⟩
      obtain ⟨known, hknown, hset⟩ := hgiven
      have hafter := (carried_inSource fuel).perform hknown hset hperform
      exact ⟨hafter.machine, hafter.hosts, hafter.pending, by simp⟩

/-- In every accepted text, returns lie in the bodies of functions and assignments are to variables
and members. All functions that there are in such a session come from accepted texts, and so does
the unit that is pending. Whatever unit was compiled from a text and is run, in every situation that
the run passes through control agrees with that: no statements of a unit, be it this one or one that
is evaluated or called on the way, end at a return, and nothing but variables and members is ever
assigned to, so the fault of another assignment is raised by nobody but the host. -/
theorem Sourced.wellPlaced_throughout (h : s.Sourced) :
    (∀ body, IsProgram body → WellPlaced body) ∧
    (∀ id, ∀ p ∈ (s.machine.store.object id).properties, p.2.Sourced) ∧
    (∀ u ∈ s.pending, u.Compiled) ∧
    ∀ u t, u.Compiled → (Situation.ofUnit s.machine u).Passes s.hosts t →
      t.WellPlaced s.hosts ∧
      ∀ v n fuel ending, ScriptUnit.Compiled v →
        (Situation.sequence t.machine v.body none).run s.hosts fuel = some (n, ending) →
          ¬ ending.IsReturn := by
  have hs := h.inSource
  refine ⟨fun _ hprogram => hprogram.wellPlaced, hs.machine.store, hs.pending, ?_⟩
  intro u t hu ht
  have hbegin := Situation.sourced_enter (hs.machine.armed ⟨true⟩) hu.sourced
  have hsourced := hbegin.of_passes hs.hosts ht
  refine ⟨hsourced.wellPlaced hs.hosts, ?_⟩
  intro v n fuel ending hv hrun
  exact hsourced.machine.not_isReturn_of_run hs.hosts hv hrun

/-- A native hands a function back, the function is called and returns, and a text is evaluated,
whose unit is at its end. -/
theorem Sourced.wellPlaced_in_eval :
    ∃ (s : Session) (u : ScriptUnit) (t : Situation .expression), s.Sourced ∧ s.pending = some u ∧
      (Situation.ofUnit s.machine u).Passes s.hosts t ∧ t.endsInnerUnit = true ∧
      t.WellPlaced s.hosts := by
  let source := "function f(x) \x7b o.p = x; return o; \x7d var o = \x7b\x7d; " ++
    "f(same(f)); eval('1;');"
  let hosts : HostTable := fun _ arguments => .finish (arguments.headD .undefined)
  let first := Session.create .empty .default (.buffer .empty) (.buffer .empty) hosts ["same"]
  let s := (first.load source).2
  have hhosts : hosts.Sourced := by
    intro name arguments h
    cases arguments with
    | nil => exact trivial
    | cons v rest => exact h v List.mem_cons_self
  have hfirst : first.Sourced := .create _ _ _ _ Store.sourced_empty hhosts
  have hload : first.perform 0 (.load source) = .ok (.status (first.load source).1, s) := rfl
  have hsourced : s.Sourced := .perform hfirst (by simp) hload
  have hreached : (s.pending.any fun u =>
      (Situation.trace s.hosts 77 ([], Situation.ofUnit s.machine u)).any fun here =>
        here.2.endsInnerUnit) = true := by
    decide +kernel
  obtain ⟨u, hu, hreached⟩ := (Option.any_eq_true _ _).mp hreached
  obtain ⟨⟨calls, t⟩, htrace, hends⟩ := (Option.any_eq_true _ _).mp hreached
  have hpasses := (Situation.Traced.of_trace .start htrace).passes
  have hwell := Sourced.wellPlaced_throughout hsourced
  have hcompiled := hwell.2.2.1 u hu
  exact ⟨s, u, t, hsourced, hu, hpasses, hends, (hwell.2.2.2 u t hcompiled hpasses).1⟩

end Session

end ScriptHost
