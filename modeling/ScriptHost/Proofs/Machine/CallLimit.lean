import ScriptHost.Proofs.Machine.Course
import ScriptHost.Proofs.Machine.Lockstep
import ScriptHost.Proofs.Session.Rest

/-!
The limit on calls within one another. It is looked at only to raise a range fault, and no script
stops a fault on its way; so a run that ends otherwise ends in the same way under every greater limit.
-/

namespace ScriptHost

variable {p : Phrase} {hosts : HostTable}

/-- The machine with another limit on its calls. -/
def Machine.withLimit (m : Machine) (limit : Nat) : Machine := { m with maxCallDepth := limit }

namespace Situation

/-- A run by itself that ends otherwise than in a range fault ends in the same way, after as many
steps, as one in lockstep that has the more room. -/
theorem run_of_lockstep {g h : Ground} (htight : g.Tighter h) {fuel : Nat} {s s' : Situation p}
    {n' : Machine} {ending : Ending p} (hs : s.Lockstep g h .nil .nil s') (hfree : s'.HostFree)
    (hrun : s'.run hosts fuel = some (n', ending)) (hrange : ¬ ending.IsRangeFault) :
    ∃ n, s.run hosts fuel = some (n, ending) ∧ n.store = n'.store ∧ n.output = n'.output := by
  induction fuel generalizing s s' with
  | zero => simp [run] at hrun
  | succ fuel ih =>
      rcases lockstep_step hosts htight hs hfree with harrived | hstep
      · cases harrived with
        | intro f m t hresult =>
            cases f with
            | value | completion | fault =>
                obtain ⟨rfl, rfl⟩ := Prod.mk.inj (Option.some.inj hrun)
                exact ⟨m, rfl, rfl, rfl⟩
            | _ => exact hresult.elim
      · have hfree' := hostFree_step hosts hfree
        rw [run] at hrun ⊢
        generalize s'.step hosts = progress' at hstep hfree' hrun
        generalize s.step hosts = progress at hstep ⊢
        cases hstep with
        | alike halike => exact ih halike hfree' hrun
        | limited hlimited => exact absurd (isRangeFault_of_run hlimited hfree' hrun) hrange

end Situation

namespace Machine

variable {m : Machine}

/-- Over a machine at rest that holds no native functions of a host, a run under one limit on calls
that ends in a value, or in a fault that is no range fault, ends under any greater limit with the same
value or the same fault, the same output and the same objects. -/
theorem runUnit_of_limit_le (hrest : m.AtRest) (hfree : m.HostFree) {limit greater : Nat}
    (hle : limit ≤ greater) (u : ScriptUnit) {fuel : Nat} {n : Machine}
    {ending : Ending .expression}
    (hrun : (m.withLimit limit).runUnit hosts fuel u = some (n, ending))
    (hrange : ¬ ending.IsRangeFault) :
    ∃ n', (m.withLimit greater).runUnit hosts fuel u = some (n', ending) ∧
      n'.store = n.store ∧ n'.output = n.output := by
  have hunarmed (bound : Nat) : (m.withLimit bound).trap.armed = false :=
    congrArg Trap.armed hrest.trap
  obtain ⟨last, hlast, rfl⟩ := (runUnit_eq_some_iff (hunarmed limit)).mp hrun
  have halike : (Situation.ofUnit (m.withLimit greater) u).Lockstep
      ⟨m.depth, m.nesting, greater⟩ ⟨m.depth, m.nesting, limit⟩ .nil .nil
      (Situation.ofUnit (m.withLimit limit) u) :=
    .intro (t := ⟨m.registry, m.scratch, m.depth, m.nesting, limit⟩)
      (.enter m.globalValue u.closure []) .nil ⟨rfl, rfl, rfl⟩ ⟨rfl, rfl, rfl⟩ rfl
  have htight : Ground.Tighter ⟨m.depth, m.nesting, greater⟩ ⟨m.depth, m.nesting, limit⟩ :=
    ⟨Nat.le_refl _, Nat.add_le_add_right hle _⟩
  have hbegin : (Situation.ofUnit (m.withLimit limit) u).HostFree :=
    Situation.hostFree_ofUnit (m := m.withLimit limit) hfree u
  obtain ⟨last', hrun', hstore, houtput⟩ :=
    Situation.run_of_lockstep htight halike hbegin hlast hrange
  exact ⟨_, (runUnit_eq_some_iff (hunarmed greater)).mpr ⟨last', hrun', rfl⟩, hstore, houtput⟩

/-- Three calls within one another, the innermost of which meets a name that is nowhere bound. -/
theorem runUnit_of_limit_le_unbound_name :
    ∃ (u : ScriptUnit) (n n' : Machine) (f : Fault),
      (Session.blank.machine.withLimit 3).runUnit .inert 60 u = some (n, .fault f) ∧
      f.kind = .reference ∧
      (Session.blank.machine.withLimit 9).runUnit .inert 60 u = some (n', .fault f) ∧
      n'.store = n.store ∧ n'.output = n.output := by
  have hfree : Session.blank.machine.HostFree :=
    hostFree_create Store.hostFree_empty .default (.buffer .empty)
  have hrest : Session.blank.machine.AtRest := atRest_create _ _ _
  have hends : ∃ u n f, (Session.blank.machine.withLimit 3).runUnit .inert 60 u =
      some (n, .fault f) ∧ f.kind = .reference := by
    refine ⟨.ofBody "calls"
      [.function ⟨0, 9⟩ ⟨some "f", ["x"], [.return ⟨1, 8⟩ (some (.call ⟨1, 4⟩
          (.variable ⟨1, 2⟩ "g") []))]⟩,
        .function ⟨10, 19⟩ ⟨some "g", [], [.expression ⟨11, 18⟩ (.variable ⟨11, 18⟩ "missing")]⟩,
        .expression ⟨20, 24⟩ (.call ⟨20, 24⟩ (.variable ⟨20, 21⟩ "f") [.this ⟨22, 23⟩])]
      Session.blank.machine.globalEnvironment, _, _, rfl, rfl⟩
  obtain ⟨u, n, f, hrun, hkind⟩ := hends
  obtain ⟨n', hrun', hstore, houtput⟩ :=
    runUnit_of_limit_le hrest hfree (by decide : 3 ≤ 9) u hrun
      (fun hrange => absurd (hkind.symm.trans hrange) (by decide))
  exact ⟨u, n, n', f, hrun, hkind, hrun', hstore, houtput⟩

end Machine

end ScriptHost
