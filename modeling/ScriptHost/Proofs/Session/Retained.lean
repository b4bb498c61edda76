import ScriptHost.Proofs.Machine.Retained
import ScriptHost.Proofs.Session.Operation
import ScriptHost.Proofs.Session.Rest

/-!
Sessions keep every name where it is. What operations make of a session retains the objects that it
had with their names, so in all sessions the natives built in come first among the global names.
-/

namespace ScriptHost

namespace Machine

variable {m n : Machine}

theorem retains_install (m : Machine) (code : NativeCode) : m.Retains (m.install code) :=
  ⟨(Store.retains_identify _).trans (Store.retains_set ..), rfl⟩

theorem retains_installAll (m : Machine) (natives : List String) :
    m.Retains (natives.foldl (fun m name => m.install (.host name)) m) := by
  induction natives generalizing m with
  | nil => exact .refl m
  | cons name rest ih => exact (m.retains_install _).trans (ih _)

theorem names_create (store : Store) (config : Config) (output : Output) :
    (create store config output).store.names (create store config output).global =
      ["print", "eval"] := by
  simp [create, install, makeNative, NativeCode.name, Store.names, Store.object, Store.set,
    Store.identify, Store.allocate, Object.ofClass, Object.set, Bindings.set, Bindings.keys,
    Array.getElem_modify]

theorem inPlace_create {store : Store} (hstore : ∀ id, (store.names id).Nodup) (config : Config)
    (output : Output) : (create store config output).InPlace := by
  refine ⟨?_, fun id => ?_⟩
  · exact names_create store config output ▸ List.prefix_rfl
  · apply (retains_install _ .eval).store.nodup
    apply (retains_install _ .print).store.nodup
    exact (store.retains_allocate .global).nodup id (hstore id)

theorem retains_runUnit {hosts : HostTable} {fuel : Nat} {u : ScriptUnit}
    {ending : Ending .expression} (h : m.runUnit hosts fuel u = some (n, ending)) :
    m.Retains n := by
  unfold runUnit at h
  split at h
  · obtain ⟨rfl, -⟩ := Prod.mk.inj (Option.some.inj h)
    exact .refl m
  · obtain ⟨⟨left, e⟩, hrun, heq⟩ := Option.map_eq_some_iff.mp h
    obtain ⟨rfl, -⟩ := Prod.mk.inj heq
    have hretains := Situation.retains_of_run hrun
    exact ⟨hretains.store, hretains.global⟩

end Machine

namespace Session

variable {s t : Session} {fuel : Nat}

theorem retains_loadNamed (s : Session) (name source : String) :
    s.machine.Retains (s.loadNamed name source).2.machine := by
  unfold loadNamed
  dsimp only
  split
  · exact ⟨.refl _, rfl⟩
  · rw [machine_report]
    exact ⟨.refl _, rfl⟩

theorem retains_runPending {value : Option Value} (h : s.runPending fuel = .ok (value, t)) :
    s.machine.Retains t.machine := by
  unfold runPending at h
  split at h
  · obtain ⟨-, rfl⟩ := Prod.mk.inj (Except.ok.inj h)
    rw [machine_report]
    exact .refl _
  · split at h
    · cases h
    · rename_i n ending hrun
      have hretains := Machine.retains_runUnit hrun
      cases ending with
      | value v =>
          obtain ⟨-, rfl⟩ := Prod.mk.inj (Except.ok.inj h)
          exact hretains
      | fault f =>
          obtain ⟨-, rfl⟩ := Prod.mk.inj (Except.ok.inj h)
          rw [machine_report]
          exact hretains
      | stranded message => cases h

/-- Operations retain what the session had, whatever they answer. -/
theorem retains_performAll {operations : List Operation} {answers : List Answer}
    (h : s.performAll fuel operations = .ok (answers, t)) : s.machine.Retains t.machine := by
  refine of_performAll (P := fun u => s.machine.Retains u.machine) ?_ (.refl _) h
  intro u operation answer v hu hperform
  refine of_perform (P := fun u => s.machine.Retains u.machine)
    (fun u name source hu => hu.trans (u.retains_loadNamed name source)) (fun u message hu => ?_)
    (fun u value v hu hrun => hu.trans (retains_runPending hrun))
    (fun u name value hu => hu.trans ⟨Store.retains_set .., rfl⟩) hu hperform
  rw [machine_report]
  exact hu

theorem inPlace_create {store : Store} (hstore : ∀ id, (store.names id).Nodup) (config : Config)
    (output diagnostics : Output) (hosts : HostTable) (natives : List String) :
    (create store config output diagnostics hosts natives).machine.InPlace :=
  (Machine.inPlace_create hstore config output).retains (Machine.retains_installAll _ natives)

/-- Whatever is run, from whatever state and to whatever end, all objects that there were are there,
each of its class and with its names in front as they were, and none comes to have a name twice. So
in every session, between its operations and in all situations that a run passes through, the
natives built in are the first two global names and no object has a name twice. -/
theorem names_retained :
    (∀ {last : Phrase} (hosts : HostTable) (start t : Situation last),
      start.Passes hosts t → start.machine.Retains t.machine) ∧
    (∀ {last : Phrase} (hosts : HostTable) (fuel : Nat) (start : Situation last) (n : Machine)
      (ending : Ending last), start.run hosts fuel = some (n, ending) →
        start.machine.Retains n) ∧
    ∀ (store : Store) (config : Config) (output diagnostics : Output) (hosts : HostTable)
      (natives : List String) (fuel : Nat) (operations : List Operation) (answers : List Answer)
      (s : Session), (∀ id, (store.names id).Nodup) →
        (create store config output diagnostics hosts natives).performAll fuel operations =
          .ok (answers, s) →
        s.machine.InPlace ∧
          ∀ (u : ScriptUnit) (t : Situation .expression),
            (Situation.ofUnit s.machine u).Passes s.hosts t → t.machine.InPlace := by
  refine ⟨fun _ _ _ => Situation.retains_of_passes, fun _ _ _ _ _ => Situation.retains_of_run, ?_⟩
  intro store config output diagnostics hosts natives fuel operations answers s hstore h
  have hs : s.machine.InPlace :=
    (inPlace_create hstore config output diagnostics hosts natives).retains (retains_performAll h)
  refine ⟨hs, fun u t ht => ?_⟩
  have hbegin : (Situation.ofUnit s.machine u).machine.InPlace := ⟨hs.natives, hs.nodup⟩
  exact hbegin.retains (Situation.retains_of_passes ht)

/-- A unit that binds global names in all ways there are and fails while it fills an object. -/
def bindingText : String :=
  "function f(a, a) \x7b var a; b = a; this.eval = \x7b\x7d; c = \x7bp: b, q: missing\x7d; \x7d " ++
    "var d; print = d; f('x');"

theorem names_retained_half_filled :
    ∃ (answers : List Answer) (s : Session),
      blank.performAll 200 [.run bindingText, .getGlobal "b"] = .ok (answers, s) ∧
      s.globals.keys = ["print", "eval", "f", "d", "b"] ∧ s.machine.InPlace := by
  have hend : (blank.performAll 200 [.run bindingText, .getGlobal "b"]).isOk = true := by
    decide +kernel
  obtain ⟨⟨answers, s⟩, hperform⟩ := exists_of_isOk hend
  have hkeys : ((blank.performAll 200 [.run bindingText, .getGlobal "b"]).toOption.map fun r =>
      r.2.globals.keys) = some ["print", "eval", "f", "d", "b"] := by
    decide +kernel
  rw [hperform] at hkeys
  have hempty (id : ObjectId) : (Store.empty.names id).Nodup := List.nodup_nil
  obtain ⟨-, -, hsessions⟩ := names_retained
  exact ⟨answers, s, hperform, Option.some.inj hkeys,
    (hsessions _ _ _ _ _ _ _ _ _ _ hempty hperform).1⟩

end Session

end ScriptHost
