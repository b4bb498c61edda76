import Mathlib.Logic.Relation
import ScriptHost.Proofs.Machine.Alike
import ScriptHost.Proofs.Machine.HostFree

/-!
The course of a run. The run of a unit arms the trap, keeps it armed in every situation that it
passes through, and disarms it in the end; so every fault raised on the way has a run to end.
-/

namespace ScriptHost

variable {last : Phrase} {hosts : HostTable}

namespace Situation

variable {s t : Situation last}

/-- The second situation is one that a run from the first passes through. -/
def Passes (hosts : HostTable) : Situation last → Situation last → Prop :=
  Relation.ReflTransGen fun s t => s.step hosts = .next t

theorem trap_of_step (h : s.step hosts = .next t) : t.machine.trap = s.machine.trap := by
  have hstep := alike_step hosts s .empty
  rw [h] at hstep
  generalize (s.buffered .empty).step hosts = other at hstep
  cases hstep with
  | next _ _ htrap => exact htrap

/-- All through a run the trap is what it was in the beginning. -/
theorem trap_of_passes (h : s.Passes hosts t) : t.machine.trap = s.machine.trap := by
  induction h with
  | refl => rfl
  | tail _ hstep ih => exact (trap_of_step hstep).trans ih

/-- A run over an armed trap strands no fault and leaves the trap as it was. -/
theorem returned_of_run {fuel : Nat} {m : Machine} {ending : Ending last}
    (harmed : s.machine.trap.armed = true) (h : s.run hosts fuel = some (m, ending)) :
    m.trap = s.machine.trap ∧ ¬ ending.IsStranded := by
  refine halt_of_run (P := fun t => t.machine.trap = s.machine.trap)
    (Q := fun n e => n.trap = s.machine.trap ∧ ¬ e.IsStranded) ?_ rfl h
  intro t ht
  have hstep := alike_step hosts t .empty
  rw [ht] at hstep
  generalize t.step hosts = progress at hstep
  generalize (t.buffered .empty).step hosts = other at hstep
  cases hstep with
  | next _ _ htrap => exact htrap
  | returned _ _ htrap hreturned => exact ⟨htrap, hreturned⟩
  | stranded _ _ _ _ hunarmed =>
      rw [harmed] at hunarmed
      contradiction

/-- Whether a check holds of every situation of a run that ends within so many steps. -/
def always (hosts : HostTable) (check : Situation last → Bool) : Nat → Situation last → Bool
  | 0, _ => false
  | fuel + 1, s => check s &&
    match s.step hosts with
    | .next t => always hosts check fuel t
    | .halt _ _ => true

theorem of_always {check : Situation last → Bool} {fuel : Nat}
    (h : s.always hosts check fuel = true) (hpasses : s.Passes hosts t) : check t = true := by
  induction fuel generalizing s with
  | zero => simp [always] at h
  | succ fuel ih =>
      rw [always, Bool.and_eq_true] at h
      rcases hpasses.cases_head with rfl | ⟨u, hstep, hrest⟩
      · exact h.1
      · rw [hstep] at h
        exact ih h.2 hrest

/-- The first situation of the run of a unit. -/
def ofUnit (m : Machine) (u : ScriptUnit) : Situation .expression :=
  ⟨_, .enter m.globalValue u.closure [], .nil, { m with trap := ⟨true⟩ }⟩

theorem hostFree_ofUnit {m : Machine} (hfree : m.HostFree) (u : ScriptUnit) :
    (ofUnit m u).HostFree :=
  ⟨⟨trivial, by simp⟩, trivial, hfree⟩

end Situation

namespace Machine

variable {m n : Machine} {u : ScriptUnit} {fuel : Nat} {ending : Ending .expression}

theorem runUnit_of_unarmed (h : m.trap.armed = false) :
    m.runUnit hosts fuel u = ((Situation.ofUnit m u).run hosts fuel).map fun result =>
      ({ result.1 with trap := result.1.trap.disarm }, result.2) := by
  have harm : m.trap.arm = .ok ⟨true⟩ := if_neg (by simp [h])
  rw [runUnit, harm]
  rfl

theorem runUnit_eq_some_iff (h : m.trap.armed = false) :
    m.runUnit hosts fuel u = some (n, ending) ↔
      ∃ left, (Situation.ofUnit m u).run hosts fuel = some (left, ending) ∧
        { left with trap := left.trap.disarm } = n := by
  rw [runUnit_of_unarmed h, Option.map_eq_some_iff]
  constructor
  · rintro ⟨⟨left, e⟩, hrun, heq⟩
    obtain ⟨rfl, rfl⟩ := Prod.mk.inj heq
    exact ⟨left, hrun, rfl⟩
  · rintro ⟨left, hrun, rfl⟩
    exact ⟨(left, ending), hrun, rfl⟩

end Machine

end ScriptHost
