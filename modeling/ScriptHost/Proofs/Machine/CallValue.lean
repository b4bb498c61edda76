import ScriptHost.Proofs.Machine.Moves
import ScriptHost.Proofs.Machine.Deeds

/-!
The value of a call. A unit comes to the value of the expression statement of its own code that was
evaluated last, whatever the functions that it calls and the units that it evaluates come to
meanwhile; a function comes to the value of the first return that it begins, and does nothing after
it.
-/

namespace ScriptHost

variable {last : Phrase} {hosts : HostTable} {closure : Closure} {deeds : List Deed}

/-- After these deeds a call of the closure hands back the value. -/
inductive Closure.Yields (closure : Closure) (deeds : List Deed) : Value → Prop
  | ended {latest : Option Value} (h : Done closure.code.body deeds latest) :
      Yields closure deeds (if closure.isUnit then latest.getD .undefined else .undefined)
  | returned {v : Value} (h : Returned closure.code.body deeds v) : Yields closure deeds v

/-- What has come of the call of a closure over the frames: it is under way, it has handed its value
to them, or a fault has passed it. -/
inductive Situation.OfCall (below : Stack .expression last) (caller : Machine) (closure : Closure)
    (deeds : List Deed) : Situation last → Prop
  | underWay {s : Situation .statement} (h : s.Keeps closure.code.body deeds) :
      OfCall below caller closure deeds
        (s.over (.cons (.returnTo caller.environment caller.receiver closure.isUnit) below))
  | handed {v : Value} {n : Machine} (h : closure.Yields deeds v) :
      OfCall below caller closure deeds ⟨_, .value v, below, n⟩
  | failed {f : Fault} {n : Machine} : OfCall below caller closure deeds ⟨_, .fault f, below, n⟩

namespace Situation

variable {below : Stack .expression last} {m n : Machine} {t u : Situation last}
variable {receiver : Value} {arguments : List Value}

theorem Keeps.agrees {body : List Stmt} {f : Focus .statement}
    (h : (⟨_, f, .nil, m⟩ : Situation .statement).Keeps body deeds) : f.Agrees body deeds none := by
  generalize hs : (⟨_, f, .nil, m⟩ : Situation .statement) = s at h
  cases h with
  | own hk hfocus =>
      cases hs
      exact hfocus
  | within hk hframe =>
      have hheight := congrArg (fun s : Situation .statement => s.stack.height) hs
      simp [Situation.over, Stack.height_append, Stack.height] at hheight

/-- A closure that is entered is under way with no deed, or fails. -/
theorem OfCall.enter (hosts : HostTable) (m : Machine) (receiver : Value) (closure : Closure)
    (arguments : List Value) (below : Stack .expression last) :
    ((entering m receiver closure arguments below).step hosts).Leads
      (fun t => t.OfCall below m closure []) fun _ ending => ending.IsStranded := by
  rw [entering, step]
  by_cases hroom : m.depth < m.maxCallDepth
  · rw [Machine.enterClosure_of_lt receiver closure arguments hroom]
    have hbegin : (⟨_, .executeAll closure.code.body none, .nil,
        m.inside receiver closure arguments⟩ : Situation .statement).Keeps closure.code.body [] :=
      .own trivial ⟨fun _ hs => Own.top hs, .nil⟩
    exact .underWay hbegin
  · rw [Machine.enterClosure, if_pos (Nat.not_lt.mp hroom)]
    exact Progress.leads_raise _ _ _ .failed fun _ => trivial

/-- A step of a call that is not over keeps its deeds. -/
theorem OfCall.step (hosts : HostTable) (h : t.OfCall below m closure deeds)
    (habove : below.height < t.stack.height) :
    (t.step hosts).Leads (fun u => u.OfCall below m closure (deeds ++ t.deeds (below.calls + 1)))
      fun _ ending => ending.IsStranded := by
  cases h with
  | handed | failed => exact absurd habove (Nat.lt_irrefl _)
  | @underWay s h =>
      by_cases hs : s.IsAtEnd
      · obtain ⟨phrase, f, k, n⟩ := s
        cases k with
        | nil =>
            have hagrees : f.Agrees closure.code.body (deeds ++ []) none := by
              rw [List.append_nil]
              exact h.agrees
            cases f with
            | completion c =>
                cases c with
                | normal latest =>
                    have hdone : Done closure.code.body (deeds ++ []) (latest.or none) := hagrees
                    rw [Option.or_none] at hdone
                    exact .handed (.ended hdone)
                | «return» v => exact .handed (.returned hagrees)
            | fault f => exact .failed
            | _ => exact hs.elim
        | cons frame k => cases f <;> exact hs.elim
      · have hdeeds := deeds_over 0
          (.cons (.returnTo m.environment m.receiver closure.isUnit) below) hs
        have hgoes := h.step hosts hs
        rw [Nat.zero_add] at hdeeds
        rw [← hdeeds] at hgoes
        rw [step_over hosts _ s hs]
        cases hinner : s.step hosts with
        | next s' =>
            rw [hinner] at hgoes
            exact .underWay hgoes
        | halt n ending =>
            rw [hinner] at hgoes
            cases ending with
            | stranded message => exact trivial
            | _ => exact hgoes.elim

/-- All through a call its deeds account for what has come of it. -/
theorem Performs.ofCall
    (h : (entering m receiver closure arguments below).Performs hosts below deeds t) :
    t.OfCall below m closure deeds := by
  induction h with
  | enter hstep =>
      have hleads := OfCall.enter hosts m receiver closure arguments below
      rw [hstep] at hleads
      exact hleads
  | step _ habove hstep ih =>
      have hleads := ih.step hosts habove
      rw [hstep] at hleads
      exact hleads

theorem OfCall.yields {v : Value} (h : (⟨_, .value v, below, n⟩ : Situation last).OfCall below m
    closure deeds) : closure.Yields deeds v := by
  generalize ht : (⟨_, .value v, below, n⟩ : Situation last) = t at h
  cases h with
  | underWay h =>
      have hheight := congrArg (fun t : Situation last => t.stack.height) ht
      simp only [Situation.over, Stack.height_append, Stack.height] at hheight
      omega
  | handed h =>
      cases ht
      exact h
  | failed => cases ht

/-- A call over no frames is over or on frames of its own. -/
theorem OfCall.cases_of_nil {t : Situation .expression} (h : t.OfCall .nil m closure deeds) :
    0 < t.stack.height ∨ (∃ v n, t = ⟨_, .value v, .nil, n⟩) ∨ ∃ f n, t = ⟨_, .fault f, .nil, n⟩ := by
  cases h with
  | underWay =>
      refine .inl ?_
      simp only [Situation.over, Stack.height_append, Stack.height]
      omega
  | @handed v n => exact .inr (.inl ⟨v, n, rfl⟩)
  | @failed f n => exact .inr (.inr ⟨f, n, rfl⟩)

/-- The run of a call by itself performs it, up to the value that the run comes to. -/
theorem exists_performs_of_run {fuel : Nat} {v : Value}
    (h : (entering m receiver closure arguments .nil).run hosts fuel = some (n, .value v)) :
    ∃ deeds, (entering m receiver closure arguments .nil).Performs hosts .nil deeds
      ⟨_, .value v, .nil, n⟩ := by
  have hrest {fuel : Nat} {deeds : List Deed} {t : Situation .expression}
      (ht : (entering m receiver closure arguments .nil).Performs hosts .nil deeds t)
      (hrun : t.run hosts fuel = some (n, .value v)) :
      ∃ deeds, (entering m receiver closure arguments .nil).Performs hosts .nil deeds
        ⟨_, .value v, .nil, n⟩ := by
    induction fuel generalizing t deeds with
    | zero => cases hrun
    | succ fuel ih =>
        rw [run] at hrun
        cases hstep : t.step hosts with
        | next u =>
            rw [hstep] at hrun
            rcases ht.ofCall.cases_of_nil with habove | ⟨w, o, rfl⟩ | ⟨f, o, rfl⟩
            · exact ih (ht.step habove hstep) hrun
            · cases hstep
            · cases hstep
        | halt n' ending =>
            rw [hstep] at hrun
            obtain ⟨rfl, rfl⟩ := Prod.mk.inj (Option.some.inj hrun)
            rcases ht.ofCall.cases_of_nil with habove | ⟨w, o, rfl⟩ | ⟨f, o, rfl⟩
            · have hleads := ht.ofCall.step hosts habove
              rw [hstep] at hleads
              exact hleads.elim
            · cases hstep
              exact ⟨deeds, ht⟩
            · cases hstep
  cases fuel with
  | zero => cases h
  | succ fuel =>
      rw [run] at h
      cases hstep : (entering m receiver closure arguments .nil).step hosts with
      | next t =>
          rw [hstep] at h
          exact hrest (.enter hstep) h
      | halt n' ending =>
          rw [hstep] at h
          obtain ⟨rfl, rfl⟩ := Prod.mk.inj (Option.some.inj h)
          have hleads := OfCall.enter hosts m receiver closure arguments .nil
          rw [hstep] at hleads
          exact hleads.elim

end Situation

/-- A compiled unit returns from nowhere, so it comes to the value that was evaluated last. -/
theorem Closure.Yields.eq_lastValue {u : ScriptUnit} {v : Value} (hu : u.Compiled)
    (h : u.closure.Yields deeds v) :
    Deed.OfCode u.body deeds ∧ v = (Deed.lastValue deeds).getD .undefined := by
  cases h with
  | ended hdone =>
      refine ⟨hdone.ofCode, ?_⟩
      rw [if_pos hu.isUnit, hdone.latest_eq]
  | returned hreturned =>
      obtain ⟨before, span, value, rfl, -⟩ := hreturned.first
      have hown : Own u.body (.return span value) := hreturned.ofCode.own _ (by simp)
      exact absurd (hu.isProgram.wellPlaced.inside 0 span value hown) (Nat.lt_irrefl 0)

theorem Closure.Yields.first_return {v : Value} (hfunction : closure.isUnit = false)
    (h : closure.Yields deeds v) :
    Deed.OfCode closure.code.body deeds ∧
      ((∀ d ∈ deeds, ¬ d.IsReturn) ∧ v = .undefined ∨
        ∃ before span value, deeds = before ++ [.began (.return span value), .returned v] ∧
          (∀ d ∈ before, ¬ d.IsReturn) ∧ (value = none → v = .undefined)) := by
  cases h with
  | ended hdone => exact ⟨hdone.ofCode, .inl ⟨hdone.not_isReturn, by simp [hfunction]⟩⟩
  | returned hreturned => exact ⟨hreturned.ofCode, .inr hreturned.first⟩

/-- Whatever unit was compiled from a text, on whatever machine it is run, if the run ends in a
value then this is the value of the expression statement that was evaluated last in time among those
of the unit's own code, or undefined if none was. It is so too where the unit is called, evaluated
by another one or run by the host, over whatever frames. A function instead hands back the value of
the first return that it begins, and does nothing after it; where it begins none it hands back
undefined. -/
theorem value_of_call (hosts : HostTable) :
    (∀ (m n : Machine) (u : ScriptUnit) (fuel : Nat) (v : Value), u.Compiled →
      m.runUnit hosts fuel u = some (n, .value v) →
      ∃ deeds left, (Situation.ofUnit m u).Performs hosts .nil deeds ⟨_, .value v, .nil, left⟩ ∧
        Deed.OfCode u.body deeds ∧ v = (Deed.lastValue deeds).getD .undefined) ∧
    (∀ (last : Phrase) (below : Stack .expression last) (m n : Machine) (u : ScriptUnit)
      (receiver : Value) (arguments : List Value) (deeds : List Deed) (v : Value), u.Compiled →
      (Situation.entering m receiver u.closure arguments below).Performs hosts below deeds
        ⟨_, .value v, below, n⟩ →
      Deed.OfCode u.body deeds ∧ v = (Deed.lastValue deeds).getD .undefined) ∧
    ∀ (last : Phrase) (below : Stack .expression last) (m n : Machine) (closure : Closure)
      (receiver : Value) (arguments : List Value) (deeds : List Deed) (v : Value),
      closure.isUnit = false →
      (Situation.entering m receiver closure arguments below).Performs hosts below deeds
        ⟨_, .value v, below, n⟩ →
      Deed.OfCode closure.code.body deeds ∧
        ((∀ d ∈ deeds, ¬ d.IsReturn) ∧ v = .undefined ∨
          ∃ before span value, deeds = before ++ [.began (.return span value), .returned v] ∧
            (∀ d ∈ before, ¬ d.IsReturn) ∧ (value = none → v = .undefined)) := by
  refine ⟨?_, ?_, ?_⟩
  · intro m n u fuel v hu hrun
    have hunarmed : m.trap.armed = false := by
      cases harmed : m.trap.armed with
      | false => rfl
      | true =>
          rw [Machine.runUnit, Trap.arm, if_pos harmed] at hrun
          cases hrun
    obtain ⟨left, hleft, -⟩ := (Machine.runUnit_eq_some_iff hunarmed).mp hrun
    obtain ⟨deeds, hdeeds⟩ := Situation.exists_performs_of_run hleft
    exact ⟨deeds, left, hdeeds, hdeeds.ofCall.yields.eq_lastValue hu⟩
  · intro last below m n u receiver arguments deeds v hu h
    exact h.ofCall.yields.eq_lastValue hu
  · intro last below m n closure receiver arguments deeds v hfunction h
    exact h.ofCall.yields.first_return hfunction

/-- Whether a run has come to this text. -/
def Ending.isText (text : String) : Ending .expression → Bool
  | .value (.string s) => s == text
  | _ => false

theorem Ending.eq_of_isText {text : String} {ending : Ending .expression}
    (h : ending.isText text = true) : ending = .value (.string text) := by
  unfold isText at h
  split at h
  · rw [beq_iff_eq.mp h]
  · cases h

/-- In a unit that calls a function, evaluates a text and leaves a branch out, a statement of the
second round of a loop is the last; and a function returns from the first round of a loop. -/
theorem value_of_call_in_loops :
    (∃ (m n : Machine) (u : ScriptUnit) (deeds : List Deed), u.Compiled ∧
      m.runUnit .inert 400 u = some (n, .value (.string "two")) ∧
      Value.string "two" = (Deed.lastValue deeds).getD .undefined) ∧
    ∃ (m n : Machine) (closure : Closure) (before : List Deed) (s : Stmt),
      closure.isUnit = false ∧
      (Situation.entering m .undefined closure [] .nil).Performs .inert .nil
        (before ++ [.began s, .returned (.string "b")]) ⟨_, .value (.string "b"), .nil, n⟩ := by
  let m := Machine.create .empty .default (.buffer .empty)
  constructor
  · let source := "function f() \x7b 'inner'; return 'in'; \x7d 'start'; var first = 'y'; " ++
      "var more = 'y'; while (more) \x7b if (first) \x7b first = ''; \x7d else \x7b more = ''; " ++
      "'two'; var r = f(); \x7d \x7d if ('') \x7b 'no'; \x7d var e = eval(\"'three';\");"
    have hruns : ((ScriptUnit.compile "unit" source m.globalEnvironment .empty).1.toOption.any
        fun u => (m.runUnit .inert 400 u).any fun result => result.2.isText "two") = true := by
      decide +kernel
    obtain ⟨u, hu, hruns⟩ := (Option.any_eq_true _ _).mp hruns
    obtain ⟨⟨n, ending⟩, hrun, htext⟩ := (Option.any_eq_true _ _).mp hruns
    obtain rfl := Ending.eq_of_isText htext
    have hcompiled : u.Compiled := by
      refine ⟨"unit", source, m.globalEnvironment, .empty, ?_⟩
      revert hu
      cases (ScriptUnit.compile "unit" source m.globalEnvironment .empty).1 with
      | ok v => exact fun hu => congrArg Except.ok (Option.some.inj hu)
      | error e => exact nofun
    obtain ⟨deeds, left, hdeeds, -⟩ := (value_of_call .inert).1 m n u 400 _ hcompiled hrun
    obtain ⟨-, hvalue⟩ := (value_of_call .inert).2.1 _ .nil { m with trap := ⟨true⟩ } left u
      m.globalValue [] deeds _ hcompiled hdeeds
    exact ⟨m, n, u, deeds, hcompiled, hrun, hvalue⟩
  · let span : Span := ⟨0, 0⟩
    let body : List Stmt :=
      [.while span (.literal span (.bool true)) (.block span
        [.expression span (.literal span (.string "a")),
          .return span (some (.literal span (.string "b")))]),
        .expression span (.literal span (.string "c"))]
    let closure : Closure := ⟨⟨none, [], body⟩, m.globalEnvironment, false⟩
    have hruns : (((Situation.entering m .undefined closure [] .nil).run .inert 100).any
        fun result => result.2.isText "b") = true := by
      decide +kernel
    obtain ⟨⟨n, ending⟩, hrun, htext⟩ := (Option.any_eq_true _ _).mp hruns
    obtain rfl := Ending.eq_of_isText htext
    obtain ⟨deeds, hdeeds⟩ := Situation.exists_performs_of_run hrun
    obtain ⟨-, hnone | ⟨before, span, value, rfl, -⟩⟩ :=
      (value_of_call .inert).2.2 _ .nil m n closure _ _ _ _ rfl hdeeds
    · cases hnone.2
    · exact ⟨m, n, closure, before, _, rfl, hdeeds⟩

end ScriptHost
