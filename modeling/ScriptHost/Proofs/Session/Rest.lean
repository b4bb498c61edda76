import ScriptHost.Proofs.Machine.Context
import ScriptHost.Proofs.Session.Operation

/-!
Between operations a session is at rest. Whatever was loaded and run before, and however it ended,
its machine stands in the global frame with the trap unarmed.
-/

namespace ScriptHost

namespace Machine

/-- A new machine as it stands inside of a call on a receiver that is null. -/
def withinCall : Machine :=
  { create .empty .default (.buffer .empty) with
    environment := .child ⟨1⟩ (.root ⟨0⟩)
    receiver := .null
    depth := 3
    nesting := 7
    trap := ⟨true⟩ }

theorem atRest_create (store : Store) (config : Config) (output : Output) :
    (create store config output).AtRest :=
  ⟨rfl, rfl, rfl, rfl, rfl⟩

theorem atRest_install {m : Machine} (code : NativeCode) (hm : m.AtRest) :
    (m.install code).AtRest :=
  AtRest.of_context_eq (m := m) rfl hm

theorem atRest_runUnit {m n : Machine} {hosts : HostTable} {fuel : Nat} {u : ScriptUnit}
    {ending : Ending .expression} (hm : m.AtRest)
    (h : m.runUnit hosts fuel u = some (n, ending)) (hreturned : ¬ ending.IsStranded) :
    n.AtRest := by
  unfold runUnit at h
  rw [hm.trap] at h
  obtain ⟨⟨left, e⟩, hrun, heq⟩ := Option.map_eq_some_iff.mp h
  obtain ⟨rfl, rfl⟩ := Prod.mk.inj heq
  have hcontext : left.context = Situation.home _ := Situation.context_of_run hrun hreturned
  simp only [Situation.home, Stack.unwind, context, Context.mk.injEq] at hcontext
  obtain ⟨henvironment, hreceiver, hdepth, hnesting, -, hglobal, hlimit⟩ := hcontext
  refine hm.of_context_eq ?_
  simp only [context, Context.mk.injEq]
  exact ⟨henvironment, hreceiver, hdepth, hnesting, hm.trap.symm, hglobal, hlimit⟩

end Machine

namespace Session

variable {s t : Session}

theorem machine_report (s : Session) (message : String) :
    (s.report message).machine = s.machine := by
  unfold report
  split <;> rfl

theorem pending_report (s : Session) (message : String) :
    (s.report message).pending = s.pending := by
  unfold report
  split <;> rfl

theorem context_machine_loadNamed (s : Session) (name source : String) :
    (s.loadNamed name source).2.machine.context = s.machine.context := by
  unfold loadNamed
  dsimp only
  split
  · rfl
  · rw [machine_report]
    rfl

theorem atRest_runPending {fuel : Nat} {v : Option Value} (hs : s.machine.AtRest)
    (h : s.runPending fuel = .ok (v, t)) : t.machine.AtRest := by
  unfold runPending at h
  split at h
  · obtain ⟨-, rfl⟩ := Prod.mk.inj (Except.ok.inj h)
    rwa [machine_report]
  · split at h
    · contradiction
    · rename_i machine ending hrun
      cases ending with
      | value w =>
          obtain ⟨-, rfl⟩ := Prod.mk.inj (Except.ok.inj h)
          exact Machine.atRest_runUnit hs hrun id
      | fault f =>
          obtain ⟨-, rfl⟩ := Prod.mk.inj (Except.ok.inj h)
          rw [machine_report]
          exact Machine.atRest_runUnit hs hrun id
      | stranded message => contradiction

theorem atRest_perform {fuel : Nat} {operation : Operation} {answer : Answer}
    (hs : s.machine.AtRest) (h : s.perform fuel operation = .ok (answer, t)) :
    t.machine.AtRest := by
  refine of_perform (P := fun s => s.machine.AtRest) ?_ ?_ ?_ ?_ hs h
  · intro s name source hs
    exact hs.of_context_eq (context_machine_loadNamed s name source)
  · intro s message hs
    rwa [machine_report]
  · intro s v t hs hrun
    exact atRest_runPending hs hrun
  · intro s name value hs
    exact Machine.AtRest.of_context_eq (m := s.machine) rfl hs

theorem atRest_create (store : Store) (config : Config) (output diagnostics : Output)
    (hosts : HostTable) (natives : List String) :
    (create store config output diagnostics hosts natives).machine.AtRest := by
  unfold create
  have hfold : ∀ (names : List String) (m : Machine), m.AtRest →
      (names.foldl (fun m name => m.install (.host name)) m).AtRest := by
    intro names
    induction names with
    | nil => exact fun _ hm => hm
    | cons name rest ih => exact fun m hm => ih _ (Machine.atRest_install _ hm)
  exact hfold natives _ (Machine.atRest_create store config output)

/-- Whatever is evaluated, executed or called from whatever state, the context of the machine is in
the end what it was in the beginning, on a value and on a fault alike; so between the operations of
a session its machine is at rest. -/
theorem context_restored :
    (∀ {p : Phrase} (hosts : HostTable) (fuel : Nat) (focus : Focus p) (m n : Machine)
      (ending : Ending p),
      Situation.run hosts fuel ⟨p, focus, .nil, m⟩ = some (n, ending) →
        ¬ ending.IsStranded → n.context = m.context) ∧
    ∀ (store : Store) (config : Config) (output diagnostics : Output) (hosts : HostTable)
      (natives : List String) (fuel : Nat) (operations : List Operation) (answers : List Answer)
      (s : Session),
      (create store config output diagnostics hosts natives).performAll fuel operations =
        .ok (answers, s) → s.machine.AtRest := by
  constructor
  · intro p hosts fuel focus m n ending hrun hreturned
    exact Situation.context_of_run hrun hreturned
  · intro store config output diagnostics hosts natives fuel operations answers s h
    refine of_performAll (P := fun s => s.machine.AtRest) ?_
      (atRest_create store config output diagnostics hosts natives) h
    intro s operation answer t hs hperform
    exact atRest_perform hs hperform

/-- A name that is nowhere bound, looked up inside of a call, and a session in which a load, a run
and a run of compiled text fail one after another. -/
theorem context_restored_unbound_name :
    (∃ n : Machine,
      Situation.run .inert 20 ⟨_, .evaluate (.call ⟨0, 25⟩ (.function ⟨0, 22⟩ ⟨none, ["x"],
        [.expression ⟨13, 20⟩ (.variable ⟨13, 20⟩ "missing")]⟩) []), .nil, Machine.withinCall⟩ =
          some (n, .fault ⟨.reference, "missing is not defined", some ⟨13, 20⟩⟩) ∧
      n.context = Machine.withinCall.context) ∧
    ∃ (answers : List Answer) (s : Session),
      blank.performAll 60 [.load "f(", .run "missing", .evaluate "eval('g()')"] =
        .ok (answers, s) ∧ s.machine.AtRest := by
  constructor
  · exact Exists.imp (fun n hrun => ⟨hrun, context_restored.1 _ _ _ _ _ _ hrun id⟩) ⟨_, rfl⟩
  · have hends : (blank.performAll 60
        [.load "f(", .run "missing", .evaluate "eval('g()')"]).isOk = true := by
      decide +kernel
    obtain ⟨⟨answers, s⟩, h⟩ := exists_of_isOk hends
    exact ⟨answers, s, h, context_restored.2 _ _ _ _ _ _ _ _ _ _ h⟩

end Session

end ScriptHost
