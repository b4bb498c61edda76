import ScriptHost.Proofs.Machine.Building
import ScriptHost.Proofs.Machine.Course
import ScriptHost.Proofs.Store.Retained

/-!
No code takes a name from an object or moves it. What a step makes of the store retains it, and so
does what a run makes of it, wherever the run comes to and however it ends; in particular the global
names that were there first stay the first ones.
-/

namespace ScriptHost

variable {last : Phrase} {hosts : HostTable}

theorem Memory.Becomes.retains {a b : Memory} (h : a.Becomes b) : a.store.Retains b.store := by
  induction h with
  | refl => exact .refl _
  | set _ id name value ih => exact ih.trans (Store.retains_set _ id name value)
  | allocate _ kind ih => exact ih.trans (Store.retains_allocate _ kind)
  | identify _ ih => exact ih.trans (Store.retains_identify _)

/-- The store of the second machine retains that of the first, over the same global object. -/
structure Machine.Retains (m n : Machine) : Prop where
  store : m.store.Retains n.store
  global : n.global = m.global

namespace Machine

variable {m n o : Machine}

theorem Retains.refl (m : Machine) : m.Retains m := ⟨.refl _, rfl⟩

theorem Retains.trans (h : m.Retains n) (h' : n.Retains o) : m.Retains o :=
  ⟨h.store.trans h'.store, h'.global.trans h.global⟩

theorem Retains.of_becomes (h : m.memory.Becomes n.memory) : m.Retains n := ⟨h.retains, h.global⟩

/-- The two natives that every machine has come first among the global names, and no object has a
name twice. -/
structure InPlace (m : Machine) : Prop where
  natives : ["print", "eval"] <+: m.store.names m.global
  nodup : ∀ id, (m.store.names id).Nodup

theorem InPlace.retains (hm : m.InPlace) (h : m.Retains n) : n.InPlace := by
  refine ⟨?_, fun id => h.store.nodup id (hm.nodup id)⟩
  rw [h.global]
  exact hm.natives.trans (h.store.names m.global)

end Machine

namespace Situation

variable {s t : Situation last}

theorem retains_step (hosts : HostTable) (s : Situation last) :
    s.machine.Retains (s.step hosts).machine := by
  cases hmakes : s.makesForHost with
  | false => exact .of_becomes (s.becomes_step hosts hmakes)
  | true =>
      unfold makesForHost at hmakes
      split at hmakes
      · exact ⟨(Store.retains_allocate _ .plain).trans (Store.retains_setAll ..), rfl⟩
      · cases hmakes

/-- In every situation that a run passes through the first one is retained. -/
theorem retains_of_passes (h : s.Passes hosts t) : s.machine.Retains t.machine := by
  induction h with
  | refl => exact .refl _
  | @tail t u _ hstep ih =>
      have hretains := t.retains_step hosts
      rw [hstep] at hretains
      exact ih.trans hretains

/-- A run retains what it began with, whatever it ends with. -/
theorem retains_of_run {fuel : Nat} {n : Machine} {ending : Ending last}
    (h : s.run hosts fuel = some (n, ending)) : s.machine.Retains n := by
  refine halt_of_run (P := fun t => s.machine.Retains t.machine)
    (Q := fun n _ => s.machine.Retains n) (fun t ht => ?_) (.refl _) h
  have hretains := ht.trans (t.retains_step hosts)
  cases hstep : t.step hosts with
  | next u | halt n e =>
      rw [hstep] at hretains
      exact hretains

end Situation

end ScriptHost
