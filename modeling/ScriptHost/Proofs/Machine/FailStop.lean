import ScriptHost.Proofs.Machine.Course
import ScriptHost.Proofs.Machine.Moves
import ScriptHost.Proofs.Session.Rest

/-!
Faults end runs. From where a fault is raised nothing is done any more but to pass the frames that
are left: none of them stops the fault, replaces it or touches an object or the output, and only a
fault without a place is given one. So no run raises more than one fault, and what the run leaves is
what there was at that moment.
-/

namespace ScriptHost

variable {p q last : Phrase} {hosts : HostTable}

/-- A value or a completion. -/
def Ending.IsResult : Ending p → Prop
  | .value _ | .completion _ => True
  | _ => False

theorem Ending.isResult_of_focus {f : Focus p} {ending : Ending p} (h : f.ending? = some ending)
    (hf : ¬ f.IsFault) : ending.IsResult := by
  cases f with
  | value v =>
      cases h
      exact trivial
  | completion c =>
      cases h
      exact trivial
  | fault f => exact absurd trivial hf
  | _ => cases h

/-- The fault that is on its way. -/
def Focus.fault? : Focus p → Option Fault
  | .fault f => some f
  | _ => none

theorem Focus.fault?_of_not_isFault {f : Focus p} (h : ¬ f.IsFault) : f.fault? = none := by
  cases f <;> first | rfl | exact absurd trivial h

/-- The fault that a run ended with. -/
def Ending.fault? : Ending p → Option Fault
  | .fault f => some f
  | _ => none

theorem Ending.eq_fault_of_fault? {ending : Ending p} {f : Fault} (h : ending.fault? = some f) :
    ending = .fault f := by
  cases ending with
  | fault g => exact congrArg Ending.fault (Option.some.inj h)
  | _ => cases h

namespace Situation

/-- The fault that comes up in the next step, where none was on its way before. -/
def raised? (hosts : HostTable) (s : Situation last) : Option Fault :=
  match s.focus.fault?, s.step hosts with
  | none, .next t => t.focus.fault?
  | _, _ => none

/-- The faults that come up in a run, one after another. -/
def faultsRaised (hosts : HostTable) : Nat → Situation last → List Fault
  | 0, _ => []
  | fuel + 1, s => (s.raised? hosts).toList ++
    match s.step hosts with
    | .next t => faultsRaised hosts fuel t
    | .halt _ _ => []

theorem faultsRaised_of_next {s t : Situation last} {fuel : Nat} (hstep : s.step hosts = .next t)
    (hfault : ¬ s.focus.IsFault) :
    s.faultsRaised hosts (fuel + 1) = t.focus.fault?.toList ++ t.faultsRaised hosts fuel := by
  rw [faultsRaised, raised?, Focus.fault?_of_not_isFault hfault, hstep]

theorem faultsRaised_of_halt {s : Situation last} {fuel : Nat} {m : Machine} {ending : Ending last}
    (hstep : s.step hosts = .halt m ending) : s.faultsRaised hosts (fuel + 1) = [] := by
  rw [faultsRaised, raised?, hstep]
  cases s.focus.fault? <;> rfl

/-- What a step of a machine leads to while no fault is on its way: on, to a fault that leaves the
objects and the output as they are, or to a result that ends the run. -/
inductive Proceeds (m : Machine) : Progress last → Prop
  | onward {t : Situation last} (ht : ¬ t.focus.IsFault) : Proceeds m (.next t)
  | raised {p : Phrase} {f : Fault} {k : Stack p last} {n : Machine} (hstore : n.store = m.store)
      (houtput : n.output = m.output) : Proceeds m (.next ⟨p, .fault f, k, n⟩)
  | ended {n : Machine} {ending : Ending last} (hresult : ending.IsResult) :
      Proceeds m (.halt n ending)

theorem proceeds_raise {k : Stack p last} {m n : Machine} (kind : FaultKind) (message : String)
    (span : Option Span) (harmed : n.trap.armed = true) (hstore : n.store = m.store)
    (houtput : n.output = m.output) : Proceeds m (.raise n k kind message span) := by
  rw [Progress.raise, Trap.raise_eq_ok_iff.mpr ⟨harmed, rfl⟩]
  exact .raised hstore houtput

theorem proceeds_onward {k : Stack p last} {m n : Machine} {progress : Progress last} {work : Nat}
    (honward : progress.Onward n k work) (harmed : n.trap.armed = true)
    (hstore : n.store = m.store) (houtput : n.output = m.output) : Proceeds m progress := by
  cases honward with
  | moved hn hf => exact .onward hf
  | pushed hn hframe hf => exact .onward hf
  | raised b kind message span => exact proceeds_raise kind message span harmed hstore houtput

theorem proceeds_step (hosts : HostTable) {s : Situation last} (hfree : s.HostFree)
    (harmed : s.machine.trap.armed = true) (hfault : ¬ s.focus.IsFault) :
    Proceeds s.machine (s.step hosts) := by
  have hmoves := moves_step hosts hfree
  generalize s.step hosts = progress at hmoves
  cases hmoves with
  | tooDeep | tooMany => exact proceeds_raise _ _ _ harmed rfl rfl
  | begun hphrase hroom hwork honward => exact proceeds_onward honward harmed rfl rfl
  | entered => exact .onward id
  | went hbetween honward => exact proceeds_onward honward harmed rfl rfl
  | resumed hresult hf hframe honward => exact proceeds_onward honward harmed rfl rfl
  | again => exact .onward id
  | returned hresult hf hframe hg hgf => exact .onward hgf
  | unwound => exact absurd trivial hfault
  | ended hending => exact .ended (Ending.isResult_of_focus hending hfault)

/-- While a fault is on its way, none comes up. -/
theorem faultsRaised_of_fault {k : Stack p last} (hk : k.HostFree) (fuel : Nat) (f : Fault)
    (m : Machine) : faultsRaised hosts fuel ⟨p, .fault f, k, m⟩ = [] := by
  induction fuel generalizing p f m with
  | zero => rfl
  | succ fuel ih =>
      cases k with
      | nil => rfl
      | cons frame k =>
          cases frame with
          | host resume => exact hk.1.elim
          | _ => exact ih hk.2 _ _

/-- What becomes of a run in which no fault is on its way in the beginning. It yields a result and
raises no fault; or it raises one and ends with it at its first place, and what there was at that
moment is what it leaves. -/
inductive FailStop (hosts : HostTable) (s : Situation last) (fuel : Nat) (n : Machine) :
    Ending last → Prop
  | result {ending : Ending last} (hresult : ending.IsResult)
      (hraised : s.faultsRaised hosts fuel = []) : FailStop hosts s fuel n ending
  | fault {here there : Situation last} {f : Fault} (hpasses : s.Passes hosts here)
      (hstep : here.step hosts = .next there) (hf : here.raised? hosts = some f)
      (hraised : s.faultsRaised hosts fuel = [f]) (hstore : n.store = here.machine.store)
      (houtput : n.output = here.machine.output) :
      FailStop hosts s fuel n (.fault ⟨f.kind, f.message, there.stack.firstPlace f⟩)

theorem failStop_of_run {fuel : Nat} {s : Situation last} {n : Machine} {ending : Ending last}
    (hfree : s.HostFree) (harmed : s.machine.trap.armed = true) (hfault : ¬ s.focus.IsFault)
    (h : s.run hosts fuel = some (n, ending)) : s.FailStop hosts fuel n ending := by
  induction fuel generalizing s with
  | zero => simp [run] at h
  | succ fuel ih =>
      have hproceeds := proceeds_step hosts hfree harmed hfault
      have hfree' := hostFree_step hosts hfree
      rw [run] at h
      cases hstep : s.step hosts with
      | halt m e =>
          rw [hstep] at h hproceeds
          obtain ⟨rfl, rfl⟩ := Prod.mk.inj (Option.some.inj h)
          cases hproceeds with
          | ended hresult =>
              exact .result hresult (faultsRaised_of_halt hstep)
      | next t =>
          rw [hstep] at h hproceeds hfree'
          cases hproceeds with
          | onward ht =>
              have hnone := Focus.fault?_of_not_isFault ht
              have hlist : s.faultsRaised hosts (fuel + 1) = t.faultsRaised hosts fuel := by
                rw [faultsRaised_of_next hstep hfault, hnone]
                rfl
              cases ih hfree' (trap_of_step hstep ▸ harmed) ht h with
              | result hresult hraised => exact .result hresult (hlist.trans hraised)
              | fault hpasses hraise hf hraised hstore houtput =>
                  exact .fault (.head hstep hpasses) hraise hf (hlist.trans hraised) hstore houtput
          | raised hstore houtput =>
              obtain ⟨rfl, hstore', houtput'⟩ := run_of_fault hfree'.stack h
              refine .fault .refl hstep ?_ ?_ (hstore'.trans hstore) (houtput'.trans houtput)
              · rw [raised?, Focus.fault?_of_not_isFault hfault, hstep]
                rfl
              · rw [faultsRaised_of_next hstep hfault, faultsRaised_of_fault hfree'.stack]
                rfl

end Situation

namespace Machine

variable {m n : Machine} {u : ScriptUnit} {fuel : Nat} {ending : Ending .expression}

/-- Over a machine at rest that holds no native functions of a host, the run of a unit that ends
raises no fault if it yields a value. Otherwise it raises just one and ends with it, of the same
sort, with the same message and at the place that it was given first, and what is then printed and
held by the objects is what was when the fault was raised. -/
theorem failStop_runUnit (hrest : m.AtRest) (hfree : m.HostFree)
    (hrun : m.runUnit hosts fuel u = some (n, ending)) :
    (Situation.ofUnit m u).FailStop hosts fuel n ending := by
  obtain ⟨left, hleft, rfl⟩ :=
    (runUnit_eq_some_iff (congrArg Trap.armed hrest.trap)).mp hrun
  have hbegin : (Situation.ofUnit m u).HostFree := Situation.hostFree_ofUnit hfree u
  cases Situation.failStop_of_run hbegin rfl id hleft with
  | result hresult hraised => exact .result hresult hraised
  | fault hpasses hstep hf hraised hstore houtput =>
      exact .fault hpasses hstep hf hraised hstore houtput

/-- A function that prints and then evaluates a text that fails, called before another print. -/
theorem failStop_runUnit_within_eval :
    ∃ (m n : Machine) (u : ScriptUnit) (f : Fault),
      m.runUnit .inert 120 u = some (n, .fault f) ∧ f.kind = .reference ∧
      f.span = some ⟨0, 1⟩ ∧ n.output.contents = "a\n" ∧
      (Situation.ofUnit m u).FailStop .inert 120 n (.fault f) := by
  let m := create .empty .default (.buffer .empty)
  have hrest : m.AtRest := atRest_create _ _ _
  have hfree : m.HostFree := hostFree_create Store.hostFree_empty _ _
  let source := "function f() \x7b print('a'); eval('x'); \x7d f(); print('b');"
  have hends : ((m.compile stringUnitName source).1.toOption.any fun u =>
      (m.runUnit .inert 120 u).any fun result => result.1.output.contents == "a\n" &&
        result.2.fault?.any fun f => f.kind == .reference && f.span == some ⟨0, 1⟩) = true := by
    decide +kernel
  obtain ⟨u, -, hends⟩ := (Option.any_eq_true _ _).mp hends
  obtain ⟨⟨n, ending⟩, hrun, hends⟩ := (Option.any_eq_true _ _).mp hends
  obtain ⟨houtput, hfault⟩ := Bool.and_eq_true_iff.mp hends
  obtain ⟨f, hf, hshown⟩ := (Option.any_eq_true _ _).mp hfault
  obtain rfl := Ending.eq_fault_of_fault? hf
  simp only [Bool.and_eq_true, beq_iff_eq] at houtput hshown
  exact ⟨m, n, u, f, hrun, hshown.1, hshown.2, houtput, failStop_runUnit hrest hfree hrun⟩

end Machine

end ScriptHost
