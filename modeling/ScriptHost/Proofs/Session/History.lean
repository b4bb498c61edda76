import ScriptHost.Proofs.Session.Trace

/-!
The history of a session. Every operation answers that it failed exactly where it added one record
to the stream of diagnostics, and adds none otherwise; the pending unit is the last one loaded if
nothing was executed since, and no loaded unit is executed more than once. An execution in the
history is one run of the machine, and where the history has none the machine does not run.
-/

namespace ScriptHost

namespace Session

open Event

variable {s t u : Session} {fuel : Nat}

def eventsOfLoad (s : Session) (name source : String) : List Event :=
  match (s.machine.compile name source).1 with
  | .ok u => [.loaded u]
  | .error e => [.reported (LoadError.compile e).message]

def eventsOfLoadFile (s : Session) (path : String) (contents : Except FileProblem ByteArray) :
    List Event :=
  match sourceOfFile path contents with
  | .ok source => s.eventsOfLoad path source
  | .error e => [.reported e.message]

/-- What comes of the execution of the pending unit. -/
def eventsOfRun (fuel : Nat) (s : Session) : List Event :=
  match s.executionOfPending with
  | none => [.reported "no compiled unit is loaded"]
  | some (m, u) =>
    .executed m u :: match m.runUnit s.hosts fuel u with
      | some (_, .fault f) => [.reported f.display]
      | _ => []

/-- What comes of the run after a load. -/
def eventsAfter (fuel : Nat) : Status × Session → List Event
  | (.success, s) => s.eventsOfRun fuel
  | (.failure, _) => []

/-- What comes of an operation, in order. -/
def events (fuel : Nat) (s : Session) : Operation → List Event
  | .load source => s.eventsOfLoad stringUnitName source
  | .loadFile path contents => s.eventsOfLoadFile path contents
  | .call => s.eventsOfRun fuel
  | .run source | .evaluate source =>
    s.eventsOfLoad stringUnitName source ++ eventsAfter fuel (s.load source)
  | .runFile path contents =>
    s.eventsOfLoadFile path contents ++ eventsAfter fuel (s.loadFile path contents)
  | .report message => [.reported message]
  | .setGlobal name value => [.assigned name value]
  | .getGlobal _ => []

/-- What comes of one operation after another, in order. -/
def history (fuel : Nat) : Session → List Operation → List Event
  | _, [] => []
  | s, operation :: rest =>
    s.events fuel operation ++ match s.perform fuel operation with
      | .ok (_, s) => history fuel s rest
      | .error _ => []

theorem history_cons {operation : Operation} {answer : Answer}
    (h : s.perform fuel operation = .ok (answer, t)) (rest : List Operation) :
    s.history fuel (operation :: rest) = s.events fuel operation ++ t.history fuel rest := by
  rw [history, h]

theorem isQuiet_eventsOfLoad (s : Session) (name source : String) :
    ∀ e ∈ s.eventsOfLoad name source, e.IsQuiet := by
  unfold eventsOfLoad
  split <;> simp [IsQuiet]

theorem isQuiet_eventsOfLoadFile (s : Session) (path : String)
    (contents : Except FileProblem ByteArray) :
    ∀ e ∈ s.eventsOfLoadFile path contents, e.IsQuiet := by
  unfold eventsOfLoadFile
  split
  · exact isQuiet_eventsOfLoad s path _
  · simp [IsQuiet]

theorem isQuiet_eventsOfRun (h : s.executionOfPending = none) :
    ∀ e ∈ s.eventsOfRun fuel, e.IsQuiet := by
  rw [eventsOfRun, h]
  simp [IsQuiet]

theorem isQuiet_eventsAfter {loaded : Status × Session} (h : executionOfLoaded loaded = none) :
    ∀ e ∈ eventsAfter fuel loaded, e.IsQuiet := by
  obtain ⟨outcome, s⟩ := loaded
  cases outcome with
  | success => exact isQuiet_eventsOfRun h
  | failure => simp [eventsAfter]

/-- Where an operation makes no execution, nothing else that comes of it moves the machine, unless
it sets a global name. -/
theorem isQuiet_events {operation : Operation} (h : s.execution operation = none)
    (hset : ∀ name value, operation ≠ .setGlobal name value) :
    ∀ e ∈ s.events fuel operation, e.IsQuiet := by
  cases operation with
  | load source => exact isQuiet_eventsOfLoad s _ source
  | loadFile path contents => exact isQuiet_eventsOfLoadFile s path contents
  | call => exact isQuiet_eventsOfRun h
  | run source | evaluate source =>
      exact List.forall_mem_append.mpr ⟨isQuiet_eventsOfLoad s _ source, isQuiet_eventsAfter h⟩
  | runFile path contents =>
      exact List.forall_mem_append.mpr
        ⟨isQuiet_eventsOfLoadFile s path contents, isQuiet_eventsAfter h⟩
  | report message => simp [events, IsQuiet]
  | setGlobal name value => exact absurd rfl (hset name value)
  | getGlobal name => simp [events]

theorem executions_of_isQuiet {events : List Event} (h : ∀ e ∈ events, e.IsQuiet) :
    executions events = [] := by
  refine List.filterMap_eq_nil_iff.mpr fun e he => ?_
  cases e with
  | executed m u => exact (h _ he).elim
  | loaded | reported | assigned => rfl

theorem executions_eventsOfRun (fuel : Nat) (s : Session) :
    executions (s.eventsOfRun fuel) = s.executionOfPending.toList := by
  unfold eventsOfRun
  cases s.executionOfPending with
  | none => rfl
  | some begun =>
      dsimp only
      split <;> rfl

theorem executions_eventsAfter (fuel : Nat) (loaded : Status × Session) :
    executions (eventsAfter fuel loaded) = (executionOfLoaded loaded).toList := by
  obtain ⟨outcome, s⟩ := loaded
  cases outcome with
  | success => exact executions_eventsOfRun fuel s
  | failure => rfl

/-- The executions that come of an operation are the one that it makes, if it makes one. -/
theorem executions_events (fuel : Nat) (s : Session) (operation : Operation) :
    executions (s.events fuel operation) = (s.execution operation).toList := by
  cases operation with
  | load source => exact executions_of_isQuiet (isQuiet_eventsOfLoad s _ source)
  | loadFile path contents => exact executions_of_isQuiet (isQuiet_eventsOfLoadFile s path contents)
  | call => exact executions_eventsOfRun fuel s
  | run source | evaluate source =>
      rw [events, executions_append, executions_of_isQuiet (isQuiet_eventsOfLoad s _ source)]
      exact executions_eventsAfter fuel _
  | runFile path contents =>
      rw [events, executions_append,
        executions_of_isQuiet (isQuiet_eventsOfLoadFile s path contents)]
      exact executions_eventsAfter fuel _
  | report | getGlobal | setGlobal => rfl

/-- These events lead from one session to another, and they are one report on a failure and none
otherwise. -/
structure Course (fuel : Nat) (s t : Session) (events : List Event) (outcome : Status) : Prop where
  trace : Trace fuel s events t
  failure : outcome = .failure → ∃ message, reports events = [message]
  success : outcome = .success → reports events = []

theorem Course.append {before after : List Event} {outcome : Status}
    (hbefore : Course fuel s t before .success) (hafter : Course fuel t u after outcome) :
    Course fuel s u (before ++ after) outcome := by
  have hreports : reports (before ++ after) = reports after := by
    rw [reports_append, hbefore.success rfl, List.nil_append]
  constructor
  · exact hbefore.trace.append hafter.trace
  · rw [hreports]
    exact hafter.failure
  · rw [hreports]
    exact hafter.success

theorem course_of_reported {message : String} (h : s.Happens fuel (.reported message) t) :
    Course fuel s t [.reported message] .failure := by
  constructor
  · exact h.trace
  · exact fun _ => ⟨message, rfl⟩
  · intro hsuccess
    contradiction

theorem course_loadNamed (fuel : Nat) (s : Session) (name source : String) :
    Course fuel s (s.loadNamed name source).2 (s.eventsOfLoad name source)
      (s.loadNamed name source).1 := by
  unfold loadNamed eventsOfLoad
  dsimp only
  cases hcompiled : (s.machine.compile name source).1 with
  | ok unit =>
      have hloaded : s.Happens fuel (.loaded unit) _ := .loaded (Prod.ext hcompiled rfl)
      exact ⟨hloaded.trace, by simp, fun _ => rfl⟩
  | error e => exact course_of_reported (.refused (Prod.ext hcompiled rfl))

theorem course_loadFile (fuel : Nat) (s : Session) (path : String)
    (contents : Except FileProblem ByteArray) :
    Course fuel s (s.loadFile path contents).2 (s.eventsOfLoadFile path contents)
      (s.loadFile path contents).1 := by
  unfold loadFile eventsOfLoadFile
  cases sourceOfFile path contents with
  | ok source => exact course_loadNamed fuel s path source
  | error e => exact course_of_reported (.reported _)

theorem course_runPending {value : Option Value} (hs : s.machine.trap.armed = false)
    (h : s.runPending fuel = .ok (value, t)) :
    Course fuel s t (s.eventsOfRun fuel) (.ofValue value) := by
  have hexecutes := executes_runPending hs
  unfold eventsOfRun
  unfold executionOfPending at hexecutes ⊢
  cases hpending : s.pending with
  | none =>
      unfold runPending at h
      rw [hpending] at h
      obtain ⟨rfl, rfl⟩ := Prod.mk.inj (Except.ok.inj h)
      exact course_of_reported (.reported _)
  | some unit =>
      rw [hpending] at hexecutes
      obtain ⟨-, -, hends⟩ := hexecutes
      have hend := hends fuel
      dsimp only at hend
      rw [h] at hend
      unfold runPending at h
      rw [hpending] at h
      dsimp only [Option.map_some] at h ⊢
      cases hrun : s.machine.runUnit s.hosts fuel unit with
      | none => simp [hrun] at h
      | some result =>
          obtain ⟨machine, ending⟩ := result
          rw [hrun] at h
          -- the unit is taken away before its ending is looked at
          have htaken (hmachine : t.machine = machine) :
              Course fuel s { s with machine := machine, pending := none }
                [.executed s.machine unit] .success := by
            have hexecuted := Happens.executed hpending (hend.of_machine_eq hmachine.symm)
            exact ⟨hexecuted.trace, by simp, fun _ => rfl⟩
          cases ending with
          | value v =>
              obtain ⟨rfl, rfl⟩ := Prod.mk.inj (Except.ok.inj h)
              exact htaken rfl
          | fault f =>
              obtain ⟨rfl, rfl⟩ := Prod.mk.inj (Except.ok.inj h)
              exact (htaken (machine_report _ _)).append (course_of_reported (.reported _))
          | stranded message => contradiction

theorem course_runLoaded {loaded : Status × Session} {before : List Event} {value : Option Value}
    (hload : Course fuel s loaded.2 before loaded.1) (hs : loaded.2.machine.trap.armed = false)
    (h : runLoaded fuel loaded = .ok (value, t)) :
    Course fuel s t (before ++ eventsAfter fuel loaded) (.ofValue value) := by
  obtain ⟨outcome, left⟩ := loaded
  cases outcome with
  | success => exact hload.append (course_runPending hs h)
  | failure =>
      obtain ⟨rfl, rfl⟩ := Prod.mk.inj (Except.ok.inj h)
      rw [eventsAfter, List.append_nil]
      exact hload

theorem course_callLoaded {loaded : Status × Session} {before : List Event} {status : Status}
    (hload : Course fuel s loaded.2 before loaded.1) (hs : loaded.2.machine.trap.armed = false)
    (h : callLoaded fuel loaded = .ok (status, t)) :
    Course fuel s t (before ++ eventsAfter fuel loaded) status := by
  rw [callLoaded_eq_map] at h
  obtain ⟨⟨value, left⟩, hrun, heq⟩ := exists_of_map_eq_ok h
  obtain ⟨rfl, rfl⟩ := Prod.mk.inj heq
  exact course_runLoaded hload hs hrun

/-- What comes of an operation leads to the session that it leaves. -/
theorem course_perform {operation : Operation} {answer : Answer}
    (hs : s.machine.trap.armed = false) (h : s.perform fuel operation = .ok (answer, t)) :
    Course fuel s t (s.events fuel operation) (operation.outcome answer) := by
  have hstring (source : String) : (s.load source).2.machine.trap.armed = false :=
    (trap_loadNamed s stringUnitName source).symm ▸ hs
  cases operation with
  | load source =>
      obtain ⟨rfl, rfl⟩ := Prod.mk.inj (Except.ok.inj h)
      exact course_loadNamed fuel s _ source
  | loadFile path contents =>
      obtain ⟨rfl, rfl⟩ := Prod.mk.inj (Except.ok.inj h)
      exact course_loadFile fuel s path contents
  | call =>
      obtain ⟨⟨status, left⟩, hcall, heq⟩ := exists_of_map_eq_ok h
      obtain ⟨rfl, rfl⟩ := Prod.mk.inj heq
      rw [call_eq_map] at hcall
      obtain ⟨⟨value, left⟩, hrun, heq⟩ := exists_of_map_eq_ok hcall
      obtain ⟨rfl, rfl⟩ := Prod.mk.inj heq
      exact course_runPending hs hrun
  | run source =>
      obtain ⟨⟨status, left⟩, hcall, heq⟩ := exists_of_map_eq_ok h
      obtain ⟨rfl, rfl⟩ := Prod.mk.inj heq
      exact course_callLoaded (course_loadNamed fuel s _ source) (hstring source) hcall
  | runFile path contents =>
      obtain ⟨⟨status, left⟩, hcall, heq⟩ := exists_of_map_eq_ok h
      obtain ⟨rfl, rfl⟩ := Prod.mk.inj heq
      have hfile := (trap_loadFile s path contents).symm ▸ hs
      exact course_callLoaded (course_loadFile fuel s path contents) hfile hcall
  | evaluate source =>
      obtain ⟨⟨value, left⟩, heval, heq⟩ := exists_of_map_eq_ok h
      obtain ⟨rfl, rfl⟩ := Prod.mk.inj heq
      rw [evaluate_eq_runLoaded] at heval
      exact course_runLoaded (course_loadNamed fuel s _ source) (hstring source) heval
  | report message =>
      obtain ⟨rfl, rfl⟩ := Prod.mk.inj (Except.ok.inj h)
      exact course_of_reported (.reported message)
  | getGlobal name =>
      obtain ⟨rfl, rfl⟩ := Prod.mk.inj (Except.ok.inj h)
      exact ⟨.nil _, by simp [Operation.outcome], fun _ => rfl⟩
  | setGlobal name value =>
      obtain ⟨rfl, rfl⟩ := Prod.mk.inj (Except.ok.inj h)
      exact ⟨(Happens.assigned name value).trace, by simp [Operation.outcome], fun _ => rfl⟩

/-- The history of a session leads to what the session has become. -/
theorem trace_history {operations : List Operation} {answers : List Answer}
    (hs : s.machine.trap.armed = false) (h : s.performAll fuel operations = .ok (answers, t)) :
    Trace fuel s (s.history fuel operations) t := by
  induction operations generalizing s answers with
  | nil =>
      obtain ⟨-, rfl⟩ := Prod.mk.inj (Except.ok.inj h)
      exact .nil _
  | cons operation rest ih =>
      cases hperform : s.perform fuel operation with
      | error halt => simp [performAll, hperform] at h
      | ok result =>
          obtain ⟨answer, middle⟩ := result
          rw [performAll_cons hperform] at h
          obtain ⟨⟨others, last⟩, hrest, heq⟩ := exists_of_map_eq_ok h
          obtain ⟨-, rfl⟩ := Prod.mk.inj heq
          have hunarmed := ((guarded_of_unarmed hs).executes operation).unarmed hperform
          rw [history_cons hperform]
          exact (course_perform hs hperform).trace.append (ih hunarmed hrest)

/-- The session with another buffer for string literals and another stream of diagnostics. -/
def beside (s : Session) (b : TextBuffer) (diagnostics : Output) : Session :=
  { s with machine := s.machine.buffered b, diagnostics := diagnostics }

/-- A load that fails changes nothing else. -/
theorem eq_beside_of_loading {operation : Operation}
    (h : s.loading operation = some (.failure, t)) :
    t = s.beside t.machine.scratch t.diagnostics := by
  have hnamed : ∀ name source, s.loadNamed name source = (.failure, t) →
      t = s.beside t.machine.scratch t.diagnostics := by
    intro name source hload
    unfold loadNamed at hload
    dsimp only at hload
    split at hload
    · simp at hload
    · obtain ⟨-, rfl⟩ := Prod.mk.inj hload
      rw [report_eq]
      rfl
  have hfile : ∀ path contents, s.loadFile path contents = (.failure, t) →
      t = s.beside t.machine.scratch t.diagnostics := by
    intro path contents hload
    unfold loadFile at hload
    split at hload
    · exact hnamed path _ hload
    · obtain ⟨-, rfl⟩ := Prod.mk.inj hload
      rw [report_eq]
      rfl
  cases operation with
  | load | run | evaluate => exact hnamed _ _ (Option.some.inj h)
  | loadFile path contents | runFile path contents => exact hfile path contents (Option.some.inj h)
  | call | report | getGlobal | setGlobal => contradiction

theorem pending_of_loading {operation : Operation}
    (h : s.loading operation = some (.failure, t)) : t.pending = s.pending := by
  rw [eq_beside_of_loading h]
  rfl

/-- Where a load fails, an operation that begins with it does no more and answers that it failed. -/
theorem perform_of_loading {operation : Operation} (fuel : Nat)
    (h : s.loading operation = some (.failure, t)) :
    ∃ answer, s.perform fuel operation = .ok (answer, t) ∧ operation.outcome answer = .failure := by
  cases operation with
  | load source =>
      have hload : s.load source = (.failure, t) := Option.some.inj h
      exact ⟨.status .failure, by rw [perform, hload], rfl⟩
  | loadFile path contents =>
      have hload : s.loadFile path contents = (.failure, t) := Option.some.inj h
      exact ⟨.status .failure, by rw [perform, hload], rfl⟩
  | run source =>
      have hload : s.load source = (.failure, t) := Option.some.inj h
      exact ⟨.status .failure, by rw [perform, runString, hload]; rfl, rfl⟩
  | runFile path contents =>
      have hload : s.loadFile path contents = (.failure, t) := Option.some.inj h
      exact ⟨.status .failure, by rw [perform, runFile, hload]; rfl, rfl⟩
  | evaluate source =>
      have hload : s.load source = (.failure, t) := Option.some.inj h
      exact ⟨.value none, by rw [perform, evaluate, hload]; rfl, rfl⟩
  | call | report | getGlobal | setGlobal => contradiction

/-- A load that fails comes to one report. -/
theorem course_of_loading {operation : Operation} (fuel : Nat)
    (h : s.loading operation = some (.failure, t)) :
    Course fuel s t (s.events fuel operation) .failure := by
  have hnamed : ∀ name source, s.loadNamed name source = (.failure, t) →
      Course fuel s t (s.eventsOfLoad name source) .failure := by
    intro name source hload
    have hcourse := course_loadNamed fuel s name source
    rwa [hload] at hcourse
  have hfile : ∀ path contents, s.loadFile path contents = (.failure, t) →
      Course fuel s t (s.eventsOfLoadFile path contents) .failure := by
    intro path contents hload
    have hcourse := course_loadFile fuel s path contents
    rwa [hload] at hcourse
  cases operation with
  | load source => exact hnamed _ source (Option.some.inj h)
  | loadFile path contents => exact hfile path contents (Option.some.inj h)
  | run source | evaluate source =>
      rw [events, Option.some.inj h, eventsAfter, List.append_nil]
      exact hnamed _ source (Option.some.inj h)
  | runFile path contents =>
      rw [events, Option.some.inj h, eventsAfter, List.append_nil]
      exact hfile path contents (Option.some.inj h)
  | call | report | getGlobal | setGlobal => contradiction

/-- How one operation leads from a session to another. Its events do so one after another, the
executions among them are the one that it makes, if it makes one, and where it makes none the
machine is left alone, but for a global name that is set and the buffer for string literals. -/
structure Performed (fuel : Nat) (s t : Session) (operation : Operation) : Prop where
  trace : Trace fuel s (s.events fuel operation) t
  executions : executions (s.events fuel operation) = (s.execution operation).toList
  still : s.execution operation = none → t.machine = s.machine.buffered t.machine.scratch ∨
    ∃ name value, operation = .setGlobal name value ∧ t = s.setGlobal name value

theorem performed_of_unarmed {operation : Operation} {answer : Answer}
    (hs : s.machine.trap.armed = false) (h : s.perform fuel operation = .ok (answer, t)) :
    Performed fuel s t operation := by
  have htrace := (course_perform hs h).trace
  refine ⟨htrace, executions_events fuel s operation, fun hnone => ?_⟩
  by_cases hset : ∃ name value, operation = .setGlobal name value
  · obtain ⟨name, value, rfl⟩ := hset
    obtain ⟨-, rfl⟩ := Prod.mk.inj (Except.ok.inj h)
    exact .inr ⟨name, value, rfl, rfl⟩
  · have hother : ∀ name value, operation ≠ .setGlobal name value :=
      fun name value heq => hset ⟨name, value, heq⟩
    exact .inl (htrace.machine_eq (isQuiet_events hnone hother))

/-- What a session shows of its history, which led to it: an operation on it fails exactly where it
adds one record to the stream, the pending unit is the last one loaded if nothing was executed
since, and every execution is one run of the machine and the first one after the load of its
unit. -/
structure Accounted (fuel : Nat) (first : Session) (history : List Event) (s : Session) :
    Prop where
  trace : Trace fuel first history s
  performed : ∀ operation answer t, s.perform fuel operation = .ok (answer, t) →
    Performed fuel s t operation
  answered : ∃ written, s.diagnostics = .buffer written ∧
    ∀ operation answer t, s.perform fuel operation = .ok (answer, t) →
      (operation.outcome answer = .failure ↔
        ∃ message, t.diagnostics = .buffer (written.write (record message).toUTF8)) ∧
      (operation.outcome answer = .failure →
        ∃ message, reports (s.events fuel operation) = [message] ∧
          t.diagnostics = .buffer (written.write (record message).toUTF8)) ∧
      (operation.outcome answer = .success →
        reports (s.events fuel operation) = [] ∧ t.diagnostics = .buffer written)
  refused : ∀ operation t, s.loading operation = some (.failure, t) →
    t.pending = s.pending ∧
      ∃ answer, s.perform fuel operation = .ok (answer, t) ∧ operation.outcome answer = .failure
  pending : ∀ unit, s.pending = some unit ↔
    ∃ before after, history = before ++ .loaded unit :: after ∧ ∀ e ∈ after, e.IsAside
  executed : ∀ before m unit after, history = before ++ .executed m unit :: after →
    (∃ earlier between, before = earlier ++ .loaded unit :: between ∧ ∀ e ∈ between, e.IsAside) ∧
    ∃ u v, Trace fuel first before u ∧ u.machine = m ∧ u.pending = some unit ∧
      Bracketed ((Situation.ofUnit m unit).run first.hosts fuel) (.ok ((), v)) ∧
      v.pending = none ∧ Trace fuel v after s
  once : ∀ before unit after, history = before ++ .loaded unit :: after →
    (executions (after.takeWhile fun e => !e.isLoad)).length ≤ 1

theorem answered_of_course {events : List Event} {outcome : Status} {written : ByteBuffer}
    (h : Course fuel s t events outcome) (hwritten : s.diagnostics = .buffer written) :
    (outcome = .failure ↔
      ∃ message, t.diagnostics = .buffer (written.write (record message).toUTF8)) ∧
    (outcome = .failure → ∃ message, reports events = [message] ∧
      t.diagnostics = .buffer (written.write (record message).toUTF8)) ∧
    (outcome = .success → reports events = [] ∧ t.diagnostics = .buffer written) := by
  have hdiagnostics := h.trace.diagnostics_eq
  rw [hwritten] at hdiagnostics
  have hfailure : outcome = .failure → ∃ message, reports events = [message] ∧
      t.diagnostics = .buffer (written.write (record message).toUTF8) := by
    intro houtcome
    obtain ⟨message, hreports⟩ := h.failure houtcome
    rw [hreports] at hdiagnostics
    exact ⟨message, hreports, hdiagnostics⟩
  have hsuccess : outcome = .success → reports events = [] ∧ t.diagnostics = .buffer written := by
    intro houtcome
    have hreports := h.success houtcome
    rw [hreports] at hdiagnostics
    exact ⟨hreports, hdiagnostics⟩
  refine ⟨⟨?_, ?_⟩, hfailure, hsuccess⟩
  · intro houtcome
    obtain ⟨message, -, hrecord⟩ := hfailure houtcome
    exact ⟨message, hrecord⟩
  · rintro ⟨message, hrecord⟩
    cases outcome with
    | failure => rfl
    | success =>
        have hsame := hrecord.symm.trans (hsuccess rfl).2
        exact absurd hsame (Output.write_record_ne written message)

/-- After any operations on a new session that reports to a buffer, the session is accounted for by
what came of them. -/
theorem accounted_of_performAll (store : Store) (config : Config) (output : Output)
    (written : ByteBuffer) (hosts : HostTable) (natives : List String) (fuel : Nat)
    (operations : List Operation) (answers : List Answer) (s : Session)
    (h : (create store config output (.buffer written) hosts natives).performAll fuel operations =
      .ok (answers, s)) :
    Accounted fuel (create store config output (.buffer written) hosts natives)
      ((create store config output (.buffer written) hosts natives).history fuel operations) s := by
  have hcreated := unarmed_create store config output (.buffer written) hosts natives
  have hs := unarmed_of_performAll hcreated h
  have htrace := trace_history hcreated h
  obtain ⟨current, hcurrent⟩ := Output.exists_recorded_buffer written (reports
    ((create store config output (.buffer written) hosts natives).history fuel operations))
  have hbuffer : s.diagnostics = .buffer current := htrace.diagnostics_eq.trans hcurrent
  constructor
  · exact htrace
  · exact fun operation answer t hperform => performed_of_unarmed hs hperform
  · refine ⟨current, hbuffer, ?_⟩
    intro operation answer t hperform
    exact answered_of_course (course_perform hs hperform) hbuffer
  · intro operation t hloading
    exact ⟨pending_of_loading hloading, perform_of_loading fuel hloading⟩
  · exact fun unit => htrace.accounts.eq_some_iff
  · intro before m unit after hhistory
    rw [hhistory] at htrace
    obtain ⟨u, v, hbefore, hmachine, hpending, hrest⟩ := htrace.bracketed_of_executed
    exact ⟨hbefore.accounts.eq_some_iff.mp hpending, u, v, hbefore, hmachine, hpending, hrest⟩
  · intro before unit after hhistory
    have haccounts := htrace.accounts
    rw [hhistory] at haccounts
    obtain ⟨p, -, hafter⟩ := haccounts.of_append
    cases hafter with
    | loaded hafter => exact hafter.length_executions_le
    | aside he => exact he.elim

/-- A unit kept through a load that fails and then executed up to its fault, a call without a unit,
and a text evaluated. -/
def refusedLoad : List Operation :=
  [.load "print('a'); missing", .load "f(", .call, .call, .evaluate "1 + 1"]

/-- Two of the three texts are executed, each once. -/
theorem accounted_of_performAll_refused_load :
    ∃ (answers : List Answer) (s : Session),
      blank.performAll 60 refusedLoad = .ok (answers, s) ∧
      Accounted 60 blank (blank.history 60 refusedLoad) s ∧
      (executions (blank.history 60 refusedLoad)).length = 2 ∧
      reports (blank.history 60 refusedLoad) =
        ["(string):1:3: expected expression, found end of input",
          "ReferenceError: missing is not defined", "no compiled unit is loaded"] := by
  have hends : (blank.performAll 60 refusedLoad).isOk = true := by decide +kernel
  obtain ⟨⟨answers, s⟩, h⟩ := exists_of_isOk hends
  have haccounted := accounted_of_performAll _ _ _ _ _ _ _ _ _ _ h
  exact ⟨answers, s, h, haccounted, by decide +kernel, by decide +kernel⟩

end Session

end ScriptHost
