import ScriptHost.Proofs.Machine.BareRun
import ScriptHost.Proofs.Machine.Course
import ScriptHost.Proofs.Session.Evaluation
import ScriptHost.Proofs.Session.Event

/-!
What a session shows of a text that it runs: the status, what was written to both streams, and the
objects that the global one leads to. None of it tells where in its text a function was read.
-/

namespace ScriptHost

open Session

/-- The two endings are both values, or faults that are shown alike. -/
inductive Ending.ShownAlike : {p : Phrase} → Ending p → Ending p → Prop
  | value (v w : Value) : ShownAlike (.value v) (.value w)
  | fault {p : Phrase} {f g : Fault} (h : g.display = f.display) :
      ShownAlike (p := p) (.fault f) (.fault g)

theorem Ending.shownAlike_of_bare {e e' : Ending .expression} (h : e'.bare = e.bare)
    (hreturned : ¬ e.IsStranded) : e.ShownAlike e' := by
  cases e with
  | value v => cases e' <;> first | exact .value .. | cases h
  | fault f =>
      cases e' with
      | fault g =>
          have hbare : g.bare = f.bare := Ending.fault.inj h
          refine .fault ?_
          calc g.display = g.bare.display := rfl
            _ = f.display := by rw [hbare]; rfl
      | _ => cases h
  | stranded message => exact absurd trivial hreturned

namespace Session

variable {s t : Session} {source : String} {body : List Stmt} {fuel : Nat} {status : Status}
  {n : Machine} {ending : Ending .expression}

/-- The session is what operations have made of a new one. -/
def Reachable (s : Session) : Prop :=
  ∃ (store : Store) (config : Config) (output diagnostics : Output) (hosts : HostTable)
    (natives : List String) (fuel : Nat) (operations : List Operation) (answers : List Answer),
    (create store config output diagnostics hosts natives).performAll fuel operations =
      .ok (answers, s)

theorem Reachable.atRest (h : s.Reachable) : s.machine.AtRest := by
  obtain ⟨store, config, output, diagnostics, hosts, natives, fuel, operations, answers, h⟩ := h
  refine of_performAll (P := fun s => s.machine.AtRest) ?_
    (atRest_create store config output diagnostics hosts natives) h
  intro s operation answer t hs hperform
  exact atRest_perform hs hperform

theorem reachable_blank : blank.Reachable :=
  ⟨_, _, _, _, _, _, 0, [], [], rfl⟩

theorem hostFree_blank : blank.machine.store.HostFree :=
  (Machine.hostFree_create Store.hostFree_empty .default (.buffer .empty)).1

/-- The session that a run leaves and the status it answers, by how the run ended. -/
inductive Left (s : Session) (n : Machine) : Ending .expression → Status → Session → Prop
  | value (v : Value) :
      Left s n (.value v) .success { s with machine := { n with trap := .idle }, pending := none }
  | fault (f : Fault) :
      Left s n (.fault f) .failure
        (report { s with machine := { n with trap := .idle }, pending := none } f.display)

/-- The unit of these statements, about to be entered for a run of the text. -/
def entering (s : Session) (source : String) (body : List Stmt) : Situation .expression :=
  Situation.enteringUnit (s.machine.compile stringUnitName source).2.running stringUnitName body

/-- A text that is accepted runs as a unit from the global frame. -/
theorem left_of_runString (haccepted : (programOfSource source .empty).1 = .ok body)
    (hrest : s.machine.AtRest) (hrun : s.runString fuel source = .ok (status, t)) :
    ∃ n ending, (s.entering source body).run s.hosts fuel = some (n, ending) ∧
      s.Left n ending status t := by
  have hunarmed : (s.machine.compile stringUnitName source).2.trap.armed = false :=
    congrArg Trap.armed hrest.trap
  rw [runString, load, loadNamed_of_ok haccepted, callLoaded, call_eq_map, runPending] at hrun
  dsimp only at hrun
  rw [Machine.runUnit_of_unarmed hunarmed] at hrun
  obtain ⟨⟨value, left⟩, hpending, heq⟩ := exists_of_map_eq_ok hrun
  obtain ⟨rfl, rfl⟩ := Prod.mk.inj heq
  cases hunit : (Situation.ofUnit (s.machine.compile stringUnitName source).2
      (.ofBody stringUnitName body s.machine.globalEnvironment)).run s.hosts fuel with
  | none =>
      rw [hunit] at hpending
      cases hpending
  | some result =>
      obtain ⟨n, ending⟩ := result
      rw [hunit] at hpending
      refine ⟨n, ending, hunit, ?_⟩
      cases ending with
      | value v =>
          obtain ⟨rfl, rfl⟩ := Prod.mk.inj (Except.ok.inj hpending)
          exact .value v
      | fault f =>
          obtain ⟨rfl, rfl⟩ := Prod.mk.inj (Except.ok.inj hpending)
          exact .fault f
      | stranded message => cases hpending

/-- Where the unit of a text ends, so does the run of the text. -/
theorem exists_runString_of_run (haccepted : (programOfSource source .empty).1 = .ok body)
    (hrest : s.machine.AtRest)
    (hunit : (s.entering source body).run s.hosts fuel = some (n, ending)) :
    ∃ result, s.runString fuel source = .ok result := by
  have hunarmed : (s.machine.compile stringUnitName source).2.trap.armed = false :=
    congrArg Trap.armed hrest.trap
  have hbegun : (Situation.ofUnit (s.machine.compile stringUnitName source).2
      (.ofBody stringUnitName body s.machine.globalEnvironment)).run s.hosts fuel =
      some (n, ending) := hunit
  rw [runString, load, loadNamed_of_ok haccepted, callLoaded, call_eq_map, runPending]
  dsimp only
  rw [Machine.runUnit_of_unarmed hunarmed, hbegun]
  cases ending with
  | value v => exact ⟨_, rfl⟩
  | fault f => exact ⟨_, rfl⟩
  | stranded message => exact absurd trivial (Situation.returned_of_run rfl hunit).2

/-- Two runs from one session answer and show the same: status, output, reports, the properties of
the global object and the objects these lead to. Of functions it is not compared where in a text
they were read. -/
structure SameOutcome (first second : Status × Session) : Prop where
  status : second.1 = first.1
  output : second.2.machine.output = first.2.machine.output
  diagnostics : second.2.diagnostics = first.2.diagnostics
  globals : second.2.globals.bare = first.2.globals.bare
  store : second.2.machine.store.bare = first.2.machine.store.bare

/-- Endings that are shown alike, with machines that differ in spans alone, leave the same. -/
theorem sameOutcome_of_left {s' t' : Session} {n' : Machine} {ending' : Ending .expression}
    {status' : Status} (hdiagnostics : s'.diagnostics = s.diagnostics)
    (hleft : s.Left n ending status t) (hleft' : s'.Left n' ending' status' t')
    (hmachine : n'.bare = n.bare) (hending : ending.ShownAlike ending') :
    SameOutcome (status, t) (status', t') := by
  obtain ⟨store, registry, global, environment, receiver, depth, nesting, limit, trap, scratch,
    output⟩ := n
  obtain ⟨store', registry', global', environment', receiver', depth', nesting', limit', trap',
    scratch', output'⟩ := n'
  simp only [Machine.bare, Machine.mk.injEq] at hmachine
  obtain ⟨hstore, -, rfl, -, -, -, -, -, -, -, rfl⟩ := hmachine
  have hglobals :
      (store'.object global').properties.bare = (store.object global').properties.bare := by
    have hobject : (store'.object global').bare = (store.object global').bare := by
      rw [← Store.object_bare, ← Store.object_bare, hstore]
    exact congrArg Object.properties hobject
  cases hending with
  | value v w =>
      cases hleft
      cases hleft'
      exact ⟨rfl, rfl, hdiagnostics, hglobals, hstore⟩
  | fault hdisplay =>
      cases hleft
      cases hleft'
      rw [report_eq, report_eq, hdisplay, hdiagnostics]
      exact ⟨rfl, rfl, rfl, hglobals, hstore⟩

end Session

end ScriptHost
