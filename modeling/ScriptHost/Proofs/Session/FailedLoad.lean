import ScriptHost.Proofs.Session.History

/-!
What a load that fails leaves behind: one record on the stream of diagnostics, and whatever the
buffer for string literals then holds. Neither is read again. Sessions that differ in the two alone
answer all operations alike, and go on to differ in the two alone.
-/

namespace ScriptHost

namespace Session

open Event

variable {s t u v : Session} {fuel : Nat}

theorem report_beside (s : Session) (b : TextBuffer) (d : Output) (message : String) :
    (s.beside b d).report message = (s.report message).beside b (d.put (record message)) := by
  rw [report_eq, report_eq]
  rfl

theorem loadNamed_beside (s : Session) (b : TextBuffer) (d : Output) (name source : String) :
    ∃ left, (s.beside b d).loadNamed name source = ((s.loadNamed name source).1,
      (s.loadNamed name source).2.beside left
        (d.recorded (reports (s.eventsOfLoad name source)))) := by
  obtain ⟨left, hcompile⟩ := Machine.compile_buffered s.machine b name source
  refine ⟨left, ?_⟩
  unfold loadNamed eventsOfLoad
  have hmachine : (s.beside b d).machine = s.machine.buffered b := rfl
  rw [hmachine, hcompile]
  generalize s.machine.compile name source = compiled
  obtain ⟨result, machine⟩ := compiled
  cases result with
  | ok unit => rfl
  | error e => exact Prod.ext rfl (report_beside { s with machine := machine } left d _)

theorem loadFile_beside (s : Session) (b : TextBuffer) (d : Output) (path : String)
    (contents : Except FileProblem ByteArray) :
    ∃ left, (s.beside b d).loadFile path contents = ((s.loadFile path contents).1,
      (s.loadFile path contents).2.beside left
        (d.recorded (reports (s.eventsOfLoadFile path contents)))) := by
  unfold loadFile eventsOfLoadFile
  cases sourceOfFile path contents with
  | ok source => exact loadNamed_beside s b d path source
  | error e => exact ⟨b, Prod.ext rfl (report_beside s b d _)⟩

theorem runPending_beside (fuel : Nat) (s : Session) (b : TextBuffer) (d : Output) :
    ∃ left, (s.beside b d).runPending fuel = (s.runPending fuel).map fun (value, t) =>
      (value, t.beside left (d.recorded (reports (s.eventsOfRun fuel)))) := by
  unfold runPending eventsOfRun executionOfPending
  have hpending : (s.beside b d).pending = s.pending := rfl
  rw [hpending]
  cases s.pending with
  | none =>
      refine ⟨b, ?_⟩
      dsimp only
      rw [report_beside]
      rfl
  | some unit =>
      obtain ⟨left, hrun⟩ := Machine.runUnit_buffered s.machine b s.hosts fuel unit
      refine ⟨left, ?_⟩
      have hbegin : (s.beside b d).machine.runUnit (s.beside b d).hosts fuel unit =
          (s.machine.buffered b).runUnit s.hosts fuel unit := rfl
      dsimp only [Option.map_some]
      rw [hbegin, hrun]
      cases s.machine.runUnit s.hosts fuel unit with
      | none => rfl
      | some result =>
          obtain ⟨machine, ending⟩ := result
          cases ending with
          | value w => rfl
          | fault f =>
              let ended : Session := { s with machine := machine, pending := none }
              have hreport := report_beside ended left d f.display
              exact congrArg (fun t => Except.ok (none, t)) hreport
          | stranded message => rfl

theorem runLoaded_beside (fuel : Nat) {loaded other : Status × Session} {b : TextBuffer}
    {d : Output} {before : List Event}
    (h : other = (loaded.1, loaded.2.beside b (d.recorded (reports before)))) :
    ∃ left, runLoaded fuel other = (runLoaded fuel loaded).map fun (value, t) =>
      (value, t.beside left (d.recorded (reports (before ++ eventsAfter fuel loaded)))) := by
  obtain ⟨outcome, s⟩ := loaded
  subst h
  rw [reports_append, Output.recorded_append]
  cases outcome with
  | success => exact runPending_beside fuel s b _
  | failure => exact ⟨b, rfl⟩

theorem callLoaded_beside (fuel : Nat) {loaded other : Status × Session} {b : TextBuffer}
    {d : Output} {before : List Event}
    (h : other = (loaded.1, loaded.2.beside b (d.recorded (reports before)))) :
    ∃ left, callLoaded fuel other = (callLoaded fuel loaded).map fun (status, t) =>
      (status, t.beside left (d.recorded (reports (before ++ eventsAfter fuel loaded)))) := by
  obtain ⟨left, hrun⟩ := runLoaded_beside fuel h
  refine ⟨left, ?_⟩
  rw [callLoaded_eq_map, callLoaded_eq_map, hrun]
  cases runLoaded fuel loaded <;> rfl

/-- An operation answers alike over sessions that differ in the buffer and the stream, and its
reports are added to either stream. -/
theorem perform_beside (fuel : Nat) (s : Session) (b : TextBuffer) (d : Output)
    (operation : Operation) :
    ∃ left, (s.beside b d).perform fuel operation =
      (s.perform fuel operation).map fun (answer, t) =>
        (answer, t.beside left (d.recorded (reports (s.events fuel operation)))) := by
  cases operation with
  | load source =>
      obtain ⟨left, hload⟩ := loadNamed_beside s b d stringUnitName source
      refine ⟨left, ?_⟩
      rw [perform, load, hload]
      rfl
  | loadFile path contents =>
      obtain ⟨left, hload⟩ := loadFile_beside s b d path contents
      refine ⟨left, ?_⟩
      rw [perform, hload]
      rfl
  | call =>
      obtain ⟨left, hrun⟩ := runPending_beside fuel s b d
      refine ⟨left, ?_⟩
      rw [perform, perform, call_eq_map, call_eq_map, hrun]
      cases s.runPending fuel <;> rfl
  | run source =>
      obtain ⟨_, hload⟩ := loadNamed_beside s b d stringUnitName source
      obtain ⟨left, hrun⟩ := callLoaded_beside fuel hload
      refine ⟨left, (congrArg (Except.map _) hrun).trans ?_⟩
      rw [perform, runString, load]
      cases callLoaded fuel (s.loadNamed stringUnitName source) <;> rfl
  | runFile path contents =>
      obtain ⟨_, hload⟩ := loadFile_beside s b d path contents
      obtain ⟨left, hrun⟩ := callLoaded_beside fuel hload
      refine ⟨left, (congrArg (Except.map _) hrun).trans ?_⟩
      rw [perform, runFile]
      cases callLoaded fuel (s.loadFile path contents) <;> rfl
  | evaluate source =>
      obtain ⟨_, hload⟩ := loadNamed_beside s b d stringUnitName source
      obtain ⟨left, hrun⟩ := runLoaded_beside fuel hload
      refine ⟨left, ?_⟩
      rw [perform, perform, evaluate_eq_runLoaded, evaluate_eq_runLoaded, load, load, hrun]
      cases runLoaded fuel (s.loadNamed stringUnitName source) <;> rfl
  | report message =>
      refine ⟨b, ?_⟩
      rw [perform, report_beside]
      rfl
  | getGlobal name => exact ⟨b, rfl⟩
  | setGlobal name value => exact ⟨b, rfl⟩

/-- Whole sequences of operations do so as well. -/
theorem performAll_beside (fuel : Nat) (s : Session) (b : TextBuffer) (d : Output)
    (operations : List Operation) :
    ∃ left, (s.beside b d).performAll fuel operations =
      (s.performAll fuel operations).map fun (answers, t) =>
        (answers, t.beside left (d.recorded (reports (s.history fuel operations)))) := by
  induction operations generalizing s b d with
  | nil => exact ⟨b, rfl⟩
  | cons operation rest ih =>
      obtain ⟨middle, hbeside⟩ := perform_beside fuel s b d operation
      cases hperform : s.perform fuel operation with
      | error halt =>
          rw [hperform] at hbeside
          refine ⟨b, ?_⟩
          rw [performAll, performAll, hbeside, hperform]
          rfl
      | ok result =>
          obtain ⟨answer, t⟩ := result
          rw [hperform] at hbeside
          obtain ⟨left, hrest⟩ := ih t middle (d.recorded (reports (s.events fuel operation)))
          refine ⟨left, ?_⟩
          rw [performAll_cons hbeside, performAll_cons hperform, history_cons hperform,
            reports_append, Output.recorded_append, hrest]
          cases t.performAll fuel rest <;> rfl

/-- What the stream of diagnostics takes is what was reported, whatever the machine is. -/
theorem diagnostics_of_performAll {operations : List Operation} {answers : List Answer}
    (h : s.performAll fuel operations = .ok (answers, t)) :
    t.diagnostics = s.diagnostics.recorded (reports (s.history fuel operations)) := by
  obtain ⟨left, hbeside⟩ := performAll_beside fuel s s.machine.scratch s.diagnostics operations
  have hsame : s.beside s.machine.scratch s.diagnostics = s := rfl
  rw [hsame, h] at hbeside
  exact congrArg Session.diagnostics (Prod.mk.inj (Except.ok.inj hbeside)).2

/-- A load that fails adds one record to the stream of diagnostics and is not noticed otherwise.
Operations done after it are answered as if it had not been there, report the same and leave the
session that they would have left, but for the record and for the buffer for string literals, whose
contents no scan depends on. -/
theorem unnoticed_failed_load {before : List Operation} {answers : List Answer}
    {operation : Operation} (hbefore : s.performAll fuel before = .ok (answers, u))
    (hfails : u.loading operation = some (.failure, v)) :
    (∃ answer message, operation.outcome answer = .failure ∧
      reports (u.events fuel operation) = [message] ∧
      (∃ left, v = u.beside left (u.diagnostics.put (record message))) ∧
      ∀ after, ∃ left,
        s.performAll fuel (before ++ after) =
          ((u.performAll fuel after).map fun (later, t) => (answers ++ later, t)) ∧
        (∀ later t, u.performAll fuel after = .ok (later, t) →
          t.diagnostics = u.diagnostics.recorded (reports (u.history fuel after))) ∧
        s.performAll fuel (before ++ operation :: after) =
          (u.performAll fuel after).map fun (later, t) =>
            (answers ++ answer :: later,
              t.beside left ((u.diagnostics.put (record message)).recorded
                (reports (u.history fuel after))))) ∧
    ∀ (source : String) (scratch other : TextBuffer),
      (tokenize source scratch).1 = (tokenize source other).1 ∧
      ∀ name env, (ScriptUnit.compile name source env scratch).1 =
        (ScriptUnit.compile name source env other).1 := by
  constructor
  · obtain ⟨answer, hperform, houtcome⟩ := perform_of_loading fuel hfails
    have hcourse := course_of_loading fuel hfails
    obtain ⟨message, hreports⟩ := hcourse.failure rfl
    have hdiagnostics : v.diagnostics = u.diagnostics.put (record message) := by
      rw [hcourse.trace.diagnostics_eq, hreports]
      rfl
    have hbeside := eq_beside_of_loading hfails
    rw [hdiagnostics] at hbeside
    refine ⟨answer, message, houtcome, hreports, ⟨_, hbeside⟩, fun after => ?_⟩
    obtain ⟨left, hafter⟩ := performAll_beside fuel u v.machine.scratch
      (u.diagnostics.put (record message)) after
    rw [← hbeside] at hafter
    refine ⟨left, performAll_append hbefore after, ?_, ?_⟩
    · intro later t hlater
      exact diagnostics_of_performAll hlater
    · rw [performAll_append hbefore, performAll_cons hperform, hafter]
      cases u.performAll fuel after <;> rfl
  · intro source scratch other
    exact ⟨tokenize_fst_eq source scratch other,
      fun name env => ScriptUnit.compile_fst_eq name source env scratch other⟩

/-- A load that fails in the middle of a string literal, between another load and the execution of
its unit. -/
theorem unnoticed_failed_load_literal :
    ∃ (answers : List Answer) (u v : Session),
      blank.performAll 60 [.load "var x = 'a'"] = .ok (answers, u) ∧
      u.loading (.load "x = 'b") = some (.failure, v) ∧
      ∃ (answer : Answer) (message : String) (left : TextBuffer),
        reports (u.events 60 (.load "x = 'b")) = [message] ∧
        blank.performAll 60 [.load "var x = 'a'", .load "x = 'b", .call, .evaluate "x + 'c'"] =
          (u.performAll 60 [.call, .evaluate "x + 'c'"]).map fun (later, t) =>
            (answers ++ answer :: later,
              t.beside left ((u.diagnostics.put (record message)).recorded
                (reports (u.history 60 [.call, .evaluate "x + 'c'"])))) := by
  have hbefore : blank.performAll 60 [.load "var x = 'a'"] =
      .ok ([.status (blank.load "var x = 'a'").1], (blank.load "var x = 'a'").2) := rfl
  have hfails : ((blank.load "var x = 'a'").2.load "x = 'b").1 = .failure := by decide +kernel
  have hloading : (blank.load "var x = 'a'").2.loading (.load "x = 'b") =
      some (.failure, ((blank.load "var x = 'a'").2.load "x = 'b").2) :=
    congrArg some (Prod.ext hfails rfl)
  obtain ⟨⟨answer, message, -, hreports, -, hafter⟩, -⟩ := unnoticed_failed_load hbefore hloading
  obtain ⟨left, -, -, hinserted⟩ := hafter [.call, .evaluate "x + 'c'"]
  exact ⟨_, _, _, hbefore, hloading, answer, message, left, hreports, hinserted⟩

end Session

end ScriptHost
