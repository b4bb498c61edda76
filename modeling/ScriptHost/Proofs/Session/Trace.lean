import ScriptHost.Proofs.Session.Event
import ScriptHost.Proofs.Session.Trap

/-!
What events make of a session. Each event leads from one session to the next, and the machine runs
in one kind of event only: an execution is one run of the pending unit, over an armed trap, and
leaves the machine as that run left it. So what a session has become is told by its events in order.
-/

namespace ScriptHost

namespace Session

open Event

variable {s t u : Session} {fuel : Nat} {event : Event} {events before after : List Event}

/-- One event, and the session that it leads to. -/
inductive Happens (fuel : Nat) (s : Session) : Event → Session → Prop
  | loaded {name source : String} {unit : ScriptUnit} {m : Machine}
      (hcompile : s.machine.compile name source = (.ok unit, m)) :
      Happens fuel s (.loaded unit) { s with machine := m, pending := some unit }
  | refused {name source : String} {e : CompileError} {m : Machine}
      (hcompile : s.machine.compile name source = (.error e, m)) :
      Happens fuel s (.reported (LoadError.compile e).message)
        ({ s with machine := m }.report (LoadError.compile e).message)
  | executed {unit : ScriptUnit} {m : Machine} (hpending : s.pending = some unit)
      (hrun : Bracketed ((Situation.ofUnit s.machine unit).run s.hosts fuel)
        (.ok ((), { s with machine := m, pending := none }))) :
      Happens fuel s (.executed s.machine unit) { s with machine := m, pending := none }
  | reported (message : String) : Happens fuel s (.reported message) (s.report message)
  | assigned (name : String) (value : Value) :
      Happens fuel s (.assigned name value) (s.setGlobal name value)

/-- One event after another, and the session that they lead to. -/
inductive Trace (fuel : Nat) : Session → List Event → Session → Prop
  | nil (s : Session) : Trace fuel s [] s
  | cons {s t u : Session} {event : Event} {events : List Event} (h : s.Happens fuel event t)
      (rest : Trace fuel t events u) : Trace fuel s (event :: events) u

theorem Happens.trace (h : s.Happens fuel event t) : Trace fuel s [event] t :=
  .cons h (.nil t)

namespace Happens

theorem hosts_eq (h : s.Happens fuel event t) : t.hosts = s.hosts := by
  cases h with
  | refused => exact hosts_report _ _
  | reported message => exact hosts_report s message
  | loaded | executed | assigned => rfl

theorem diagnostics_eq (h : s.Happens fuel event t) :
    t.diagnostics = s.diagnostics.recorded (reports [event]) := by
  cases h with
  | refused | reported =>
      rw [report_eq]
      rfl
  | loaded | executed | assigned => rfl

/-- Where an event is neither an execution nor an assignment, of the machine at most the buffer for
string literals is another. -/
theorem machine_eq (h : s.Happens fuel event t) (hquiet : event.IsQuiet) :
    t.machine = s.machine.buffered t.machine.scratch := by
  cases h with
  | loaded hcompile => exact (Prod.mk.inj hcompile).2 ▸ rfl
  | refused hcompile =>
      rw [machine_report]
      exact (Prod.mk.inj hcompile).2 ▸ rfl
  | reported message =>
      rw [machine_report]
      rfl
  | executed | assigned => exact hquiet.elim

end Happens

namespace Trace

theorem append (h : Trace fuel s before t) (hafter : Trace fuel t after u) :
    Trace fuel s (before ++ after) u := by
  induction h with
  | nil s => exact hafter
  | cons hhappens _ ih => exact .cons hhappens (ih hafter)

theorem of_append (h : Trace fuel s (before ++ after) u) :
    ∃ t, Trace fuel s before t ∧ Trace fuel t after u := by
  induction before generalizing s with
  | nil => exact ⟨s, .nil s, h⟩
  | cons event before ih =>
      cases h with
      | cons hhappens hrest =>
          obtain ⟨t, hbefore, hafter⟩ := ih hrest
          exact ⟨t, .cons hhappens hbefore, hafter⟩

theorem hosts_eq (h : Trace fuel s events t) : t.hosts = s.hosts := by
  induction h with
  | nil s => rfl
  | cons hhappens _ ih => exact ih.trans hhappens.hosts_eq

/-- What the stream of diagnostics took is what was reported. -/
theorem diagnostics_eq (h : Trace fuel s events t) :
    t.diagnostics = s.diagnostics.recorded (reports events) := by
  induction h with
  | nil s => rfl
  | @cons _ _ _ event events hhappens _ ih =>
      rw [ih, hhappens.diagnostics_eq, ← Output.recorded_append, ← reports_append]
      rfl

theorem accounts (h : Trace fuel s events t) : Accounts s.pending events t.pending := by
  induction h with
  | nil s => exact .nil _
  | cons hhappens _ ih =>
      cases hhappens with
      | loaded => exact .loaded ih
      | executed hpending => exact hpending ▸ .executed ih
      | refused | reported =>
          rw [pending_report] at ih
          exact .aside trivial ih
      | assigned => exact .aside trivial ih

/-- As long as nothing is executed or assigned, of the machine at most the buffer for string
literals becomes another. -/
theorem machine_eq (h : Trace fuel s events t) (hquiet : ∀ e ∈ events, e.IsQuiet) :
    t.machine = s.machine.buffered t.machine.scratch := by
  induction h with
  | nil s => rfl
  | cons hhappens _ ih =>
      obtain ⟨hevent, hrest⟩ := List.forall_mem_cons.mp hquiet
      rw [ih hrest, hhappens.machine_eq hevent]
      rfl

/-- An execution is one run of the unit that is pending then. It begins with the machine as the
events before it left it, it takes the unit away, and the events after it go on with the machine
that the run left. -/
theorem bracketed_of_executed {m : Machine} {unit : ScriptUnit}
    (h : Trace fuel s (before ++ .executed m unit :: after) t) :
    ∃ u v, Trace fuel s before u ∧ u.machine = m ∧ u.pending = some unit ∧
      Bracketed ((Situation.ofUnit m unit).run s.hosts fuel) (.ok ((), v)) ∧
      v.pending = none ∧ Trace fuel v after t := by
  obtain ⟨u, hbefore, hrest⟩ := h.of_append
  have hhosts := hbefore.hosts_eq
  cases hrest with
  | cons hhappens hafter =>
      cases hhappens with
      | executed hpending hrun =>
          exact ⟨u, _, hbefore, rfl, hpending, hhosts ▸ hrun, rfl, hafter⟩

end Trace

end Session

end ScriptHost
