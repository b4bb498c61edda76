import ScriptHost.Proofs.Session.Operation

/-!
What operations do to a session: units are loaded and executed, failures are reported, and global
names are set. Events account for the pending unit where a load puts its unit there and only the
unit that is there is executed, which takes it away. So no unit is executed twice, and the pending
unit is the last one loaded as long as nothing was executed since.
-/

namespace ScriptHost

/-- Something that comes of an operation. An execution is known by the machine that it begins with
and the unit. -/
inductive Event
  | loaded (u : ScriptUnit)
  | executed (m : Machine) (u : ScriptUnit)
  | reported (message : String)
  | assigned (name : String) (value : Value)

/-- The text that a failure is reported by. -/
def record (message : String) : String := "error: " ++ message ++ "\n"

namespace Output

/-- Writes text where it is taken. -/
def put (o : Output) (text : String) : Output :=
  match o.write text with
  | .ok o => o
  | .error _ => o

/-- Writes a record for each message. -/
def recorded (o : Output) (messages : List String) : Output :=
  messages.foldl (fun o message => o.put (record message)) o

theorem recorded_append (o : Output) (messages more : List String) :
    o.recorded (messages ++ more) = (o.recorded messages).recorded more :=
  List.foldl_append

theorem write_record_ne (written : ByteBuffer) (message : String) :
    buffer (written.write (record message).toUTF8) ≠ buffer written := by
  intro h
  have hbytes := congrArg ByteBuffer.bytes (buffer.inj h)
  have hempty : (record message).toUTF8 = "".toUTF8 :=
    (ByteArray.append_right_inj written.bytes).mp (hbytes.trans ByteArray.append_empty.symm)
  have hrecord := congrArg String.toList (String.toByteArray_inj.mp hempty)
  simp [record] at hrecord

theorem exists_recorded_buffer (written : ByteBuffer) (messages : List String) :
    ∃ after, (buffer written).recorded messages = .buffer after := by
  induction messages generalizing written with
  | nil => exact ⟨written, rfl⟩
  | cons message rest ih => exact ih (written.write (record message).toUTF8)

end Output

theorem Session.report_eq (s : Session) (message : String) :
    s.report message = { s with diagnostics := s.diagnostics.put (record message) } := by
  obtain ⟨machine, pending, diagnostics, hosts⟩ := s
  cases diagnostics <;> rfl

namespace Event

variable {u : ScriptUnit} {p q r : Option ScriptUnit} {before after events : List Event}

/-- The message of a report. -/
def message? : Event → Option String
  | reported message => some message
  | _ => none

/-- The messages of all reports, in order. -/
def reports (events : List Event) : List String := events.filterMap message?

theorem reports_append (events more : List Event) :
    reports (events ++ more) = reports events ++ reports more :=
  List.filterMap_append

/-- The execution that an event is. -/
def execution? : Event → Option (Machine × ScriptUnit)
  | executed m u => some (m, u)
  | _ => none

/-- All executions, in order. -/
def executions (events : List Event) : List (Machine × ScriptUnit) := events.filterMap execution?

theorem executions_append (events more : List Event) :
    executions (events ++ more) = executions events ++ executions more :=
  List.filterMap_append

/-- An event that is neither a load nor an execution. -/
def IsAside : Event → Prop
  | reported _ | assigned _ _ => True
  | _ => False

/-- An event that the machine neither runs in nor is given anything. -/
def IsQuiet : Event → Prop
  | loaded _ | reported _ => True
  | _ => False

def isLoad : Event → Bool
  | loaded _ => true
  | _ => false

/-- What events make of the pending unit. -/
inductive Accounts : Option ScriptUnit → List Event → Option ScriptUnit → Prop
  | nil (p : Option ScriptUnit) : Accounts p [] p
  | loaded {p q : Option ScriptUnit} {u : ScriptUnit} {events : List Event}
      (h : Accounts (some u) events q) : Accounts p (loaded u :: events) q
  | executed {q : Option ScriptUnit} {m : Machine} {u : ScriptUnit} {events : List Event}
      (h : Accounts none events q) : Accounts (some u) (executed m u :: events) q
  | aside {p q : Option ScriptUnit} {e : Event} {events : List Event} (he : e.IsAside)
      (h : Accounts p events q) : Accounts p (e :: events) q

namespace Accounts

theorem of_append (h : Accounts p (before ++ after) r) :
    ∃ q, Accounts p before q ∧ Accounts q after r := by
  induction before generalizing p with
  | nil => exact ⟨p, .nil p, h⟩
  | cons event before ih =>
      cases h with
      | loaded h =>
          obtain ⟨q, hbefore, hafter⟩ := ih h
          exact ⟨q, .loaded hbefore, hafter⟩
      | executed h =>
          obtain ⟨q, hbefore, hafter⟩ := ih h
          exact ⟨q, .executed hbefore, hafter⟩
      | aside he h =>
          obtain ⟨q, hbefore, hafter⟩ := ih h
          exact ⟨q, .aside he hbefore, hafter⟩

/-- What is neither a load nor an execution leaves the pending unit as it was. -/
theorem eq_of_isAside (h : Accounts p events q) (haside : ∀ e ∈ events, e.IsAside) : q = p := by
  induction h with
  | nil p => rfl
  | loaded | executed => exact (haside _ List.mem_cons_self).elim
  | aside _ _ ih => exact ih fun e he => haside e (List.mem_cons_of_mem _ he)

/-- A pending unit was there before and nothing happened to it, or it was the last to be loaded. -/
theorem pending_cases (h : Accounts p events q) (hq : q = some u) :
    (p = some u ∧ ∀ e ∈ events, e.IsAside) ∨
      ∃ before after, events = before ++ Event.loaded u :: after ∧ ∀ e ∈ after, e.IsAside := by
  induction h with
  | nil p => exact .inl ⟨hq, by simp⟩
  | @loaded _ _ v events _ ih =>
      right
      rcases ih hq with ⟨hv, haside⟩ | ⟨before, after, rfl, haside⟩
      · obtain rfl := Option.some.inj hv
        exact ⟨[], events, rfl, haside⟩
      · exact ⟨Event.loaded v :: before, after, rfl, haside⟩
  | @executed _ m v _ _ ih =>
      right
      rcases ih hq with ⟨hnone, -⟩ | ⟨before, after, rfl, haside⟩
      · contradiction
      · exact ⟨Event.executed m v :: before, after, rfl, haside⟩
  | @aside _ _ event _ hevent _ ih =>
      rcases ih hq with ⟨hp, haside⟩ | ⟨before, after, rfl, haside⟩
      · exact .inl ⟨hp, List.forall_mem_cons.mpr ⟨hevent, haside⟩⟩
      · exact .inr ⟨event :: before, after, rfl, haside⟩

/-- Where none was pending before, the pending unit is the last one loaded, unless something was
executed since. -/
theorem eq_some_iff (h : Accounts none events q) :
    q = some u ↔
      ∃ before after, events = before ++ Event.loaded u :: after ∧ ∀ e ∈ after, e.IsAside := by
  constructor
  · intro hq
    rcases h.pending_cases hq with ⟨hnone, -⟩ | hloaded
    · contradiction
    · exact hloaded
  · rintro ⟨before, after, rfl, haside⟩
    obtain ⟨p, -, hafter⟩ := h.of_append
    cases hafter with
    | loaded hafter => exact hafter.eq_of_isAside haside
    | aside he => exact he.elim

/-- Up to the next load at most the pending unit is executed, once. -/
theorem length_executions_le (h : Accounts p events q) :
    (executions (events.takeWhile fun e => !e.isLoad)).length ≤ p.toList.length := by
  induction h with
  | nil p => exact Nat.zero_le _
  | loaded => exact Nat.zero_le _
  | executed _ ih =>
      rw [List.takeWhile_cons_of_pos rfl]
      exact Nat.succ_le_succ ih
  | @aside _ _ event _ hevent _ ih =>
      cases event with
      | loaded | executed => exact hevent.elim
      | reported | assigned =>
          rw [List.takeWhile_cons_of_pos rfl]
          exact ih

end Accounts

end Event

end ScriptHost
