import ScriptHost.Session.Basic

/-!
What an embedding program does with a session: one operation after another, each of which answers
before the next is begun.
-/

namespace ScriptHost

/-- A session of which nothing is known yet and that writes to buffers. -/
def Session.blank : Session := create .empty .default (.buffer .empty) (.buffer .empty) .inert []

theorem exists_of_map_eq_ok {ε α β : Type} {f : α → β} {x : Except ε α} {b : β}
    (h : x.map f = .ok b) : ∃ a, x = .ok a ∧ f a = b := by
  cases x with
  | error e => simp [Except.map] at h
  | ok a => exact ⟨a, rfl, Except.ok.inj h⟩

theorem exists_of_isOk {ε α : Type} {x : Except ε α} (h : x.isOk = true) :
    ∃ a, x = .ok a := by
  cases x with
  | error e => simp [Except.isOk, Except.toBool] at h
  | ok a => exact ⟨a, rfl⟩

/-- An operation on a session. -/
inductive Operation
  | load (source : String)
  | loadFile (path : String) (contents : Except FileProblem ByteArray)
  | call
  | run (source : String)
  | runFile (path : String) (contents : Except FileProblem ByteArray)
  | evaluate (source : String)
  | report (message : String)
  | getGlobal (name : String)
  | setGlobal (name : String) (value : Value)

/-- What an operation answers. -/
inductive Answer
  | status (status : Status)
  | value (value : Option Value)
  | done

/-- The outcome of a run by the value that it may have come to. -/
def Status.ofValue (value : Option Value) : Status :=
  if value.isSome then .success else .failure

/-- The outcome that an operation answers. -/
def Operation.outcome : Operation → Answer → Status
  | .evaluate _, .value value => .ofValue value
  | _, .status status => status
  | _, _ => .success

namespace Session

/-- One operation, with fuel for a run if it makes one. -/
def perform (fuel : Nat) (s : Session) : Operation → Except Halt (Answer × Session)
  | .load source => .ok (.status (s.load source).1, (s.load source).2)
  | .loadFile path contents =>
    .ok (.status (s.loadFile path contents).1, (s.loadFile path contents).2)
  | .call => (s.call fuel).map fun (status, s) => (.status status, s)
  | .run source => (s.runString fuel source).map fun (status, s) => (.status status, s)
  | .runFile path contents =>
    (s.runFile fuel path contents).map fun (status, s) => (.status status, s)
  | .evaluate source => (s.evaluate fuel source).map fun (value, s) => (.value value, s)
  | .report message => .ok (.status .failure, s.report message)
  | .getGlobal name => .ok (.value (s.getGlobal name), s)
  | .setGlobal name value => .ok (.done, s.setGlobal name value)

/-- One operation after another, up to the first that comes to no end. -/
def performAll (fuel : Nat) : Session → List Operation → Except Halt (List Answer × Session)
  | s, [] => .ok ([], s)
  | s, operation :: rest =>
    match s.perform fuel operation with
    | .error halt => .error halt
    | .ok (answer, s) => (performAll fuel s rest).map fun (answers, s) => (answer :: answers, s)

theorem performAll_cons {fuel : Nat} {s t : Session} {operation : Operation} {answer : Answer}
    (h : s.perform fuel operation = .ok (answer, t)) (rest : List Operation) :
    s.performAll fuel (operation :: rest) =
      (t.performAll fuel rest).map fun (answers, u) => (answer :: answers, u) := by
  rw [performAll, h]

/-- Operations after others begin with the session that those leave. -/
theorem performAll_append {fuel : Nat} {s t : Session} {before : List Operation}
    {answers : List Answer} (h : s.performAll fuel before = .ok (answers, t))
    (after : List Operation) :
    s.performAll fuel (before ++ after) =
      (t.performAll fuel after).map fun (later, u) => (answers ++ later, u) := by
  induction before generalizing s answers with
  | nil =>
      obtain ⟨rfl, rfl⟩ := Prod.mk.inj (Except.ok.inj h)
      rw [List.nil_append]
      cases s.performAll fuel after <;> rfl
  | cons operation rest ih =>
      cases hperform : s.perform fuel operation with
      | error halt => simp [performAll, hperform] at h
      | ok result =>
          obtain ⟨answer, u⟩ := result
          rw [performAll_cons hperform] at h
          obtain ⟨⟨others, v⟩, hrest, heq⟩ := exists_of_map_eq_ok h
          obtain ⟨rfl, rfl⟩ := Prod.mk.inj heq
          rw [List.cons_append, performAll_cons hperform, ih hrest]
          cases v.performAll fuel after <;> rfl

/-- Runs the unit of a load that succeeded. -/
def runLoaded (fuel : Nat) : Status × Session → Except Halt (Option Value × Session)
  | (.success, s) => s.runPending fuel
  | (.failure, s) => .ok (none, s)

theorem call_eq_map (s : Session) (fuel : Nat) :
    s.call fuel = (s.runPending fuel).map fun (value, t) => (Status.ofValue value, t) := by
  unfold call
  cases s.runPending fuel <;> rfl

theorem callLoaded_eq_map (fuel : Nat) (loaded : Status × Session) :
    callLoaded fuel loaded =
      (runLoaded fuel loaded).map fun (value, t) => (Status.ofValue value, t) := by
  obtain ⟨outcome, s⟩ := loaded
  cases outcome with
  | success => exact call_eq_map s fuel
  | failure => rfl

theorem evaluate_eq_runLoaded (s : Session) (fuel : Nat) (source : String) :
    s.evaluate fuel source = runLoaded fuel (s.load source) := by
  rw [evaluate]
  split <;> simp_all [runLoaded]

/-- The load that an operation begins with. -/
def loading (s : Session) : Operation → Option (Status × Session)
  | .load source | .run source | .evaluate source => some (s.load source)
  | .loadFile path contents | .runFile path contents => some (s.loadFile path contents)
  | _ => none

section

variable {P : Session → Prop} {fuel : Nat}

theorem of_call (hrun : ∀ s v t, P s → s.runPending fuel = .ok (v, t) → P t) {s t : Session}
    {status : Status} (hs : P s) (h : s.call fuel = .ok (status, t)) : P t := by
  rw [call_eq_map] at h
  obtain ⟨⟨v, u⟩, hpending, heq⟩ := exists_of_map_eq_ok h
  obtain ⟨-, rfl⟩ := Prod.mk.inj heq
  exact hrun s v u hs hpending

theorem of_runLoaded (hrun : ∀ s v t, P s → s.runPending fuel = .ok (v, t) → P t)
    {loaded : Status × Session} {t : Session} {v : Option Value} (hs : P loaded.2)
    (h : runLoaded fuel loaded = .ok (v, t)) : P t := by
  obtain ⟨outcome, s⟩ := loaded
  cases outcome with
  | success => exact hrun s v t hs h
  | failure =>
      obtain ⟨-, rfl⟩ := Prod.mk.inj (Except.ok.inj h)
      exact hs

theorem of_callLoaded (hrun : ∀ s v t, P s → s.runPending fuel = .ok (v, t) → P t)
    {loaded : Status × Session} {t : Session} {status : Status} (hs : P loaded.2)
    (h : callLoaded fuel loaded = .ok (status, t)) : P t := by
  rw [callLoaded_eq_map] at h
  obtain ⟨⟨v, u⟩, hloaded, heq⟩ := exists_of_map_eq_ok h
  obtain ⟨-, rfl⟩ := Prod.mk.inj heq
  exact of_runLoaded hrun hs hloaded

theorem of_loadFile (hload : ∀ s name source, P s → P (s.loadNamed name source).2)
    (hreport : ∀ s message, P s → P (s.report message)) {s : Session} (path : String)
    (contents : Except FileProblem ByteArray) (hs : P s) : P (s.loadFile path contents).2 := by
  unfold loadFile
  split
  · exact hload s path _ hs
  · exact hreport s _ hs

/-- An operation keeps what loads, reports, runs and the setting of global names keep. -/
theorem of_perform (hload : ∀ s name source, P s → P (s.loadNamed name source).2)
    (hreport : ∀ s message, P s → P (s.report message))
    (hrun : ∀ s v t, P s → s.runPending fuel = .ok (v, t) → P t)
    (hset : ∀ s name value, P s → P (s.setGlobal name value)) {s t : Session}
    {operation : Operation} {answer : Answer} (hs : P s)
    (h : s.perform fuel operation = .ok (answer, t)) : P t := by
  cases operation with
  | load source =>
      simp only [perform, Except.ok.injEq, Prod.mk.injEq] at h
      exact h.2 ▸ hload s _ source hs
  | loadFile path contents =>
      simp only [perform, Except.ok.injEq, Prod.mk.injEq] at h
      exact h.2 ▸ of_loadFile hload hreport path contents hs
  | call =>
      rw [perform] at h
      obtain ⟨⟨status, u⟩, hcall, hu⟩ := exists_of_map_eq_ok h
      obtain ⟨-, rfl⟩ := Prod.mk.inj hu
      exact of_call hrun hs hcall
  | run source =>
      rw [perform] at h
      obtain ⟨⟨status, u⟩, hcall, hu⟩ := exists_of_map_eq_ok h
      obtain ⟨-, rfl⟩ := Prod.mk.inj hu
      exact of_callLoaded hrun (hload s _ source hs) hcall
  | runFile path contents =>
      rw [perform] at h
      obtain ⟨⟨status, u⟩, hcall, hu⟩ := exists_of_map_eq_ok h
      obtain ⟨-, rfl⟩ := Prod.mk.inj hu
      exact of_callLoaded hrun (of_loadFile hload hreport path contents hs) hcall
  | evaluate source =>
      rw [perform] at h
      obtain ⟨⟨v, u⟩, heval, hu⟩ := exists_of_map_eq_ok h
      obtain ⟨-, rfl⟩ := Prod.mk.inj hu
      rw [evaluate_eq_runLoaded] at heval
      exact of_runLoaded hrun (hload s _ source hs) heval
  | report message =>
      simp only [perform, Except.ok.injEq, Prod.mk.injEq] at h
      exact h.2 ▸ hreport s message hs
  | getGlobal name =>
      simp only [perform, Except.ok.injEq, Prod.mk.injEq] at h
      exact h.2 ▸ hs
  | setGlobal name value =>
      simp only [perform, Except.ok.injEq, Prod.mk.injEq] at h
      exact h.2 ▸ hset s name value hs

/-- What every operation keeps holds after any number of them. -/
theorem of_performAll
    (hstep : ∀ s operation answer t, P s → s.perform fuel operation = .ok (answer, t) → P t)
    {s t : Session} {operations : List Operation} {answers : List Answer} (hs : P s)
    (h : s.performAll fuel operations = .ok (answers, t)) : P t := by
  induction operations generalizing s answers with
  | nil =>
      simp only [performAll, Except.ok.injEq, Prod.mk.injEq] at h
      exact h.2 ▸ hs
  | cons operation rest ih =>
      rw [performAll] at h
      split at h
      · contradiction
      · rename_i answer u hp
        obtain ⟨⟨left, v⟩, hrest, hv⟩ := exists_of_map_eq_ok h
        obtain ⟨-, rfl⟩ := Prod.mk.inj hv
        exact ih (hstep s operation answer u hs hp) hrest

end

end Session

end ScriptHost
