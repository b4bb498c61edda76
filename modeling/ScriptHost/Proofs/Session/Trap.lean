import ScriptHost.Proofs.Machine.Course
import ScriptHost.Proofs.Session.Rest

/-!
When the trap of a session is armed. Whatever operations came before, an operation finds the trap
unarmed. If it executes a unit, the trap is armed for just that run, in every situation of which a
fault can be raised, and is unarmed again after it, also where the run ended in a fault.
-/

namespace ScriptHost

namespace Session

variable {s t : Session} {fuel : Nat}

/-- The execution of the pending unit: the machine that it begins with and the unit. -/
def executionOfPending (s : Session) : Option (Machine × ScriptUnit) :=
  s.pending.map fun unit => (s.machine, unit)

def executionOfLoaded : Status × Session → Option (Machine × ScriptUnit)
  | (.success, s) => s.executionOfPending
  | (.failure, _) => none

/-- The execution that an operation makes, if it makes one. -/
def execution (s : Session) : Operation → Option (Machine × ScriptUnit)
  | .call => s.executionOfPending
  | .run source | .evaluate source => executionOfLoaded (s.load source)
  | .runFile path contents => executionOfLoaded (s.loadFile path contents)
  | _ => none

/-- What comes of an operation without a run: it ends, and the trap is unarmed. -/
inductive Quiet {α : Type} : Except Halt (α × Session) → Prop
  | intro {a : α} {t : Session} (hunarmed : t.machine.trap.armed = false) : Quiet (.ok (a, t))

/-- What comes of an operation that makes a run over an armed trap: it ends if the run does, no
fault was stranded, and the machine is left as the run left it with the trap disarmed. -/
inductive Bracketed {α : Type} :
    Option (Machine × Ending .expression) → Except Halt (α × Session) → Prop
  | outOfFuel : Bracketed none (.error .outOfFuel)
  | returned {left : Machine} {ending : Ending .expression} {a : α} {t : Session}
      (harmed : left.trap.armed = true) (hreturned : ¬ ending.IsStranded)
      (hmachine : t.machine = { left with trap := left.trap.disarm }) :
      Bracketed (some (left, ending)) (.ok (a, t))

/-- What comes of an operation, given the execution that it makes: the trap can be armed at the
beginning of it and is armed all through it. -/
def Executes {α : Type} (hosts : HostTable) (result : Nat → Except Halt (α × Session)) :
    Option (Machine × ScriptUnit) → Prop
  | none => ∀ fuel, Quiet (result fuel)
  | some (m, unit) =>
    m.trap.arm = .ok ⟨true⟩ ∧
    (∀ here, (Situation.ofUnit m unit).Passes hosts here → here.machine.trap.armed = true) ∧
    ∀ fuel, Bracketed ((Situation.ofUnit m unit).run hosts fuel) (result fuel)

/-- A session in which every fault meets an armed trap, as the trap is armed exactly while an
operation executes a unit. -/
structure Guarded (s : Session) : Prop where
  unarmed : s.machine.trap.armed = false
  executes : ∀ operation,
    Executes s.hosts (fun fuel => s.perform fuel operation) (s.execution operation)

section

variable {α β : Type} {hosts : HostTable} {result : Nat → Except Halt (α × Session)}
variable {execution : Option (Machine × ScriptUnit)}

theorem Quiet.map {final : Except Halt (α × Session)} (f : α → β) (h : Quiet final) :
    Quiet (final.map fun (a, t) => (f a, t)) := by
  cases h with
  | intro hunarmed => exact .intro hunarmed

theorem Bracketed.map {run : Option (Machine × Ending .expression)}
    {final : Except Halt (α × Session)} (f : α → β) (h : Bracketed run final) :
    Bracketed run (final.map fun (a, t) => (f a, t)) := by
  cases h with
  | outOfFuel => exact .outOfFuel
  | returned harmed hreturned hmachine => exact .returned harmed hreturned hmachine

theorem Bracketed.of_machine_eq {run : Option (Machine × Ending .expression)} {a : α} {b : β}
    {t u : Session} (h : Bracketed run (.ok (a, t))) (hmachine : u.machine = t.machine) :
    Bracketed run (.ok (b, u)) := by
  cases h with
  | returned harmed hreturned hleft => exact .returned harmed hreturned (hmachine.trans hleft)

theorem Executes.map (f : α → β) (h : Executes hosts result execution) :
    Executes hosts (fun fuel => (result fuel).map fun (a, t) => (f a, t)) execution := by
  cases execution with
  | none => exact fun fuel => (h fuel).map f
  | some begun =>
      obtain ⟨harm, hpasses, hends⟩ := h
      exact ⟨harm, hpasses, fun fuel => (hends fuel).map f⟩

/-- An operation that did execute something leaves the trap unarmed as well. -/
theorem Executes.unarmed (h : Executes hosts result execution) {a : α}
    (hresult : result fuel = .ok (a, t)) : t.machine.trap.armed = false := by
  cases execution with
  | none =>
      obtain ⟨hunarmed⟩ := hresult ▸ h fuel
      exact hunarmed
  | some begun =>
      obtain ⟨-, -, hends⟩ := h
      have hend := hresult ▸ hends fuel
      generalize (Situation.ofUnit begun.1 begun.2).run hosts fuel = run at hend
      cases hend with
      | returned harmed hreturned hmachine =>
          rw [hmachine]
          rfl

theorem Executes.not_stranded (h : Executes hosts result execution) (message : String) :
    result fuel ≠ .error (.stranded message) := by
  intro hresult
  cases execution with
  | none => exact nomatch hresult ▸ h fuel
  | some begun =>
      obtain ⟨-, -, hends⟩ := h
      have hend := hresult ▸ hends fuel
      generalize (Situation.ofUnit begun.1 begun.2).run hosts fuel = run at hend
      cases hend

end

theorem trap_loadNamed (s : Session) (name source : String) :
    (s.loadNamed name source).2.machine.trap = s.machine.trap :=
  congrArg Context.trap (context_machine_loadNamed s name source)

theorem trap_loadFile (s : Session) (path : String) (contents : Except FileProblem ByteArray) :
    (s.loadFile path contents).2.machine.trap = s.machine.trap := by
  unfold loadFile
  split
  · exact trap_loadNamed s path _
  · exact congrArg Machine.trap (machine_report s _)

theorem executes_runPending (hs : s.machine.trap.armed = false) :
    Executes s.hosts (fun fuel => s.runPending fuel) s.executionOfPending := by
  unfold executionOfPending runPending
  cases s.pending with
  | none => exact fun fuel => .intro (machine_report s _ ▸ hs)
  | some unit =>
      refine ⟨if_neg (by simp [hs]), fun here hpasses => ?_, fun fuel => ?_⟩
      · exact congrArg Trap.armed (Situation.trap_of_passes hpasses)
      · dsimp only
        rw [Machine.runUnit_of_unarmed hs]
        cases hrun : (Situation.ofUnit s.machine unit).run s.hosts fuel with
        | none => exact .outOfFuel
        | some result =>
            obtain ⟨left, ending⟩ := result
            obtain ⟨htrap, hreturned⟩ := Situation.returned_of_run rfl hrun
            have harmed : left.trap.armed = true := congrArg Trap.armed htrap
            cases ending with
            | value v => exact .returned harmed hreturned rfl
            | fault f => exact .returned harmed hreturned (machine_report _ _)
            | stranded message => exact absurd trivial hreturned

theorem executes_runLoaded {hosts : HostTable} {loaded : Status × Session}
    (hunarmed : loaded.2.machine.trap.armed = false) (hhosts : loaded.2.hosts = hosts) :
    Executes hosts (fun fuel => runLoaded fuel loaded) (executionOfLoaded loaded) := by
  obtain ⟨outcome, s⟩ := loaded
  subst hhosts
  cases outcome with
  | success => exact executes_runPending hunarmed
  | failure => exact fun fuel => .intro hunarmed

theorem executes_callLoaded {hosts : HostTable} {loaded : Status × Session}
    (hunarmed : loaded.2.machine.trap.armed = false) (hhosts : loaded.2.hosts = hosts) :
    Executes hosts (fun fuel => callLoaded fuel loaded) (executionOfLoaded loaded) := by
  simp only [callLoaded_eq_map]
  exact (executes_runLoaded hunarmed hhosts).map Status.ofValue

theorem hosts_report (s : Session) (message : String) : (s.report message).hosts = s.hosts := by
  unfold report
  split <;> rfl

theorem hosts_loadNamed (s : Session) (name source : String) :
    (s.loadNamed name source).2.hosts = s.hosts := by
  unfold loadNamed
  dsimp only
  split
  · rfl
  · rw [hosts_report]

theorem hosts_loadFile (s : Session) (path : String) (contents : Except FileProblem ByteArray) :
    (s.loadFile path contents).2.hosts = s.hosts := by
  unfold loadFile
  split
  · exact hosts_loadNamed s path _
  · exact hosts_report s _

theorem guarded_of_unarmed (hs : s.machine.trap.armed = false) : s.Guarded := by
  refine ⟨hs, fun operation => ?_⟩
  cases operation with
  | load source => exact fun fuel => .intro ((trap_loadNamed s _ source).symm ▸ hs)
  | loadFile path contents =>
      exact fun fuel => .intro ((trap_loadFile s path contents).symm ▸ hs)
  | call =>
      have hcall : Executes s.hosts (fun fuel => s.call fuel) s.executionOfPending := by
        simp only [call_eq_map]
        exact (executes_runPending hs).map Status.ofValue
      exact hcall.map Answer.status
  | run source =>
      have hloaded := (trap_loadNamed s stringUnitName source).symm ▸ hs
      exact (executes_callLoaded hloaded (hosts_loadNamed s _ source)).map Answer.status
  | runFile path contents =>
      have hloaded := (trap_loadFile s path contents).symm ▸ hs
      exact (executes_callLoaded hloaded (hosts_loadFile s path contents)).map Answer.status
  | evaluate source =>
      have hloaded := (trap_loadNamed s stringUnitName source).symm ▸ hs
      have heval : Executes s.hosts (fun fuel => s.evaluate fuel source)
          (executionOfLoaded (s.load source)) := by
        simp only [evaluate_eq_runLoaded]
        exact executes_runLoaded hloaded (hosts_loadNamed s _ source)
      exact heval.map Answer.value
  | report message => exact fun fuel => .intro ((machine_report s message).symm ▸ hs)
  | getGlobal | setGlobal => exact fun fuel => .intro hs

/-- No sequence of operations strands a fault. -/
theorem performAll_ne_stranded (hs : s.machine.trap.armed = false) (operations : List Operation)
    (message : String) : s.performAll fuel operations ≠ .error (.stranded message) := by
  induction operations generalizing s with
  | nil =>
      intro hhalt
      contradiction
  | cons operation rest ih =>
      have hexecutes := (guarded_of_unarmed hs).executes operation
      rw [performAll]
      cases hperform : s.perform fuel operation with
      | error halt =>
          intro hhalt
          obtain rfl := Except.error.inj hhalt
          exact hexecutes.not_stranded message hperform
      | ok result =>
          obtain ⟨answer, t⟩ := result
          have hrest := ih (hexecutes.unarmed hperform)
          dsimp only
          generalize t.performAll fuel rest = final at hrest
          cases final with
          | error halt => exact fun hhalt => hrest (congrArg _ (Except.error.inj hhalt))
          | ok last =>
              intro hhalt
              contradiction

theorem unarmed_of_performAll {operations : List Operation} {answers : List Answer}
    (hs : s.machine.trap.armed = false) (h : s.performAll fuel operations = .ok (answers, t)) :
    t.machine.trap.armed = false := by
  refine of_performAll (P := fun s => s.machine.trap.armed = false) ?_ hs h
  intro s operation answer t hs hperform
  exact ((guarded_of_unarmed hs).executes operation).unarmed hperform

theorem unarmed_create (store : Store) (config : Config) (output diagnostics : Output)
    (hosts : HostTable) (natives : List String) :
    (create store config output diagnostics hosts natives).machine.trap.armed = false :=
  congrArg Trap.armed (atRest_create store config output diagnostics hosts natives).trap

/-- In a session every fault meets an armed trap. Whatever was done before, the trap is unarmed
between operations and armed exactly while one of them executes a unit, however that ends; so no
sequence of operations strands a fault, and the trap can be armed whenever an execution begins. -/
theorem guarded_of_performAll (store : Store) (config : Config) (output diagnostics : Output)
    (hosts : HostTable) (natives : List String) (fuel : Nat) (operations : List Operation) :
    (∀ message,
      (create store config output diagnostics hosts natives).performAll fuel operations ≠
        .error (.stranded message)) ∧
    ∀ answers s,
      (create store config output diagnostics hosts natives).performAll fuel operations =
        .ok (answers, s) → s.Guarded := by
  have hcreated := unarmed_create store config output diagnostics hosts natives
  constructor
  · exact performAll_ne_stranded hcreated operations
  · exact fun answers s h => guarded_of_unarmed (unarmed_of_performAll hcreated h)

/-- A session after a load that is refused, a run that ends in a fault, and a call without a
unit. -/
theorem guarded_of_performAll_fault :
    ∃ (answers : List Answer) (s : Session),
      blank.performAll 60 [.load "f(", .run "missing", .evaluate "eval('f(')", .call] =
        .ok (answers, s) ∧ s.Guarded := by
  have hends : (blank.performAll 60
      [.load "f(", .run "missing", .evaluate "eval('f(')", .call]).isOk = true := by
    decide +kernel
  obtain ⟨⟨answers, s⟩, h⟩ := exists_of_isOk hends
  exact ⟨answers, s, h, (guarded_of_performAll _ _ _ _ _ _ _ _).2 _ _ h⟩

end Session

end ScriptHost
