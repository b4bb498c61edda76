import ScriptHost.Proofs.Machine.Over
import ScriptHost.Proofs.Program.Proper

/-!
Statements executed in turn. Each begins where the one before it ended, so the run of two lists of
statements is the run of the first and then, unless it ended early, that of the second. Statements
outside of functions never end at a return.
-/

namespace ScriptHost

variable {p q : Phrase} {hosts : HostTable} {m n o : Machine} {body more : List Stmt}
  {latest : Option Value} {ending : Ending .statement}

namespace Situation

/-- A statement by itself. -/
def executing (m : Machine) (s : Stmt) : Situation .statement := ⟨_, .execute s, .nil, m⟩

/-- A list of statements by itself, after others with this last value. -/
def sequence (m : Machine) (body : List Stmt) (latest : Option Value) : Situation .statement :=
  ⟨_, .executeAll body latest, .nil, m⟩

end Situation

open Situation

/-- A statement ended otherwise than in its turn. -/
def Ending.IsEarly : Ending .statement → Prop
  | .completion (.normal _) => False
  | _ => True

/-- The statements, each run from what the one before left, make the second machine of the first and
end like this. -/
inductive InTurn (hosts : HostTable) :
    Machine → List Stmt → Option Value → Machine → Ending .statement → Prop
  | nil (m : Machine) (latest : Option Value) :
      InTurn hosts m [] latest m (.completion (.normal latest))
  | cons {m n o : Machine} {s : Stmt} {rest : List Stmt} {value latest : Option Value}
      {ending : Ending .statement}
      (hfirst : (executing m s).Comes hosts (n, .completion (.normal value)))
      (hrest : InTurn hosts n rest (value.or latest) o ending) :
      InTurn hosts m (s :: rest) latest o ending
  | stop {m n : Machine} {s : Stmt} {rest : List Stmt} {latest : Option Value}
      {ending : Ending .statement} (hfirst : (executing m s).Comes hosts (n, ending))
      (hearly : ending.IsEarly) : InTurn hosts m (s :: rest) latest n ending

theorem Situation.Comes.returned {s : Situation p} {n : Machine} {ending : Ending p}
    (h : s.Comes hosts (n, ending)) (harmed : s.machine.trap.armed = true) :
    n.trap.armed = true ∧ ¬ ending.IsStranded := by
  obtain ⟨fuel, h⟩ := h
  obtain ⟨htrap, hreturned⟩ := returned_of_run harmed h
  exact ⟨htrap ▸ harmed, hreturned⟩

theorem InTurn.of_comes (h : (sequence m body latest).Comes hosts (n, ending))
    (harmed : m.trap.armed = true) : InTurn hosts m body latest n ending := by
  induction body generalizing m latest with
  | nil =>
      obtain ⟨rfl, rfl⟩ := Prod.mk.inj ((h.next rfl).eq_of_halt rfl)
      exact .nil n latest
  | cons s rest ih =>
      have hfirst : ((executing m s).over (.cons (.sequence rest latest) .nil)).Comes hosts
          (n, ending) := h.next rfl
      obtain ⟨o, e, t, hs, ho, hresume, ht⟩ := hfirst.exists_of_over harmed
      cases e with
      | stranded message => cases hresume
      | fault f =>
          obtain rfl := Progress.next.inj hresume
          obtain ⟨rfl, rfl⟩ := Prod.mk.inj ((ht.next rfl).eq_of_halt rfl)
          exact .stop hs trivial
      | completion c =>
          obtain rfl := Progress.next.inj hresume
          cases c with
          | normal value => exact .cons hs (ih (ht.next rfl) ho)
          | «return» v =>
              obtain ⟨rfl, rfl⟩ := Prod.mk.inj ((ht.next rfl).eq_of_halt rfl)
              exact .stop hs trivial

theorem InTurn.comes (h : InTurn hosts m body latest n ending) (harmed : m.trap.armed = true) :
    (sequence m body latest).Comes hosts (n, ending) := by
  induction h with
  | nil m latest => exact .of_step rfl (.of_halt rfl)
  | cons hfirst _ ih =>
      have hrest := ih (hfirst.returned harmed).1
      exact .of_step rfl (hfirst.over rfl (.of_step rfl hrest))
  | @stop m n s rest latest ending hfirst hearly =>
      cases ending with
      | stranded message => exact absurd trivial (hfirst.returned harmed).2
      | fault f => exact .of_step rfl (hfirst.over rfl (.of_step rfl (.of_halt rfl)))
      | completion c =>
          cases c with
          | normal value => exact hearly.elim
          | «return» v => exact .of_step rfl (hfirst.over rfl (.of_step rfl (.of_halt rfl)))

/-- Statements behind others begin where these ended in their turn. -/
theorem InTurn.append {value : Option Value}
    (h : InTurn hosts m body latest n (.completion (.normal value)))
    (hmore : InTurn hosts n more value o ending) :
    InTurn hosts m (body ++ more) latest o ending := by
  induction body generalizing m latest with
  | nil =>
      cases h
      exact hmore
  | cons s rest ih =>
      cases h with
      | cons hfirst hrest => exact .cons hfirst (ih hrest)
      | stop _ hearly => exact hearly.elim

/-- Statements behind others are not reached where these end early. -/
theorem InTurn.append_of_isEarly (h : InTurn hosts m body latest n ending)
    (hearly : ending.IsEarly) (more : List Stmt) :
    InTurn hosts m (body ++ more) latest n ending := by
  induction h with
  | nil => exact hearly.elim
  | cons hfirst _ ih => exact .cons hfirst (ih hearly)
  | stop hfirst hstop => exact .stop hfirst hstop

/-- Endings that differ at most in the last value. -/
inductive Ending.SameButLast : Ending .statement → Ending .statement → Prop
  | normal (value value' : Option Value) :
      SameButLast (.completion (.normal value)) (.completion (.normal value'))
  | refl (ending : Ending .statement) : SameButLast ending ending

/-- After other statements the same is done, but for the last value. -/
theorem InTurn.after (h : InTurn hosts m body latest n ending) (latest' : Option Value) :
    ∃ ending', InTurn hosts m body latest' n ending' ∧ ending.SameButLast ending' := by
  induction h generalizing latest' with
  | nil m latest => exact ⟨_, .nil m latest', .normal ..⟩
  | @cons m n o s rest value latest ending hfirst _ ih =>
      obtain ⟨ending', hrest, hsame⟩ := ih (value.or latest')
      exact ⟨ending', .cons hfirst hrest, hsame⟩
  | stop hfirst hearly => exact ⟨_, .stop hfirst hearly, .refl _⟩

/-- An empty statement does nothing where there is room to enter it. -/
theorem InTurn.empty (span : Span) (latest : Option Value) (hroom : m.nesting < maxNesting) :
    InTurn hosts m [.empty span] latest m (.completion (.normal latest)) := by
  have hleft : Machine.left { m with nesting := m.nesting + 1 } = m := rfl
  have hstep : (executing m (.empty span)).step hosts =
      .next ⟨_, .completion (.normal none), .cons .leave .nil,
        { m with nesting := m.nesting + 1 }⟩ :=
    if_neg (Nat.not_le_of_lt hroom)
  have hfirst : (executing m (.empty span)).Comes hosts (m, .completion (.normal none)) :=
    .of_step hstep (.of_step rfl (.of_halt rfl))
  exact .cons hfirst (.nil m latest)

/-! ### Outside of functions -/

/-- The frame goes on with nothing but code that stands outside of functions. -/
def Frame.Outside : Frame p q → Prop
  | .leave | .defineVar _ | .complete => True
  | .branch thenBranch elseBranch =>
    thenBranch.Proper false ∧ ∀ s ∈ elseBranch, s.Proper false
  | .loopTest _ body _ | .loopBody _ body _ => body.Proper false
  | .sequence rest _ => Stmt.ProperAll false rest
  | _ => False

def Stack.Outside : {p q : Phrase} → Stack p q → Prop
  | _, _, .nil => True
  | _, _, .cons frame rest => frame.Outside ∧ rest.Outside

/-- Control is at an expression, at a statement outside of functions, or at the result of one. -/
def Focus.Outside : Focus p → Prop
  | .evaluate _ | .value _ | .fault _ | .completion (.normal _) => True
  | .execute s => s.Proper false
  | .executeAll body _ => Stmt.ProperAll false body
  | _ => False

structure Situation.Outside (s : Situation .statement) : Prop where
  focus : s.focus.Outside
  stack : s.stack.Outside

def Ending.IsReturn : Ending .statement → Prop
  | .completion (.return _) => True
  | _ => False

def Progress.Outside : Progress .statement → Prop :=
  Leads Situation.Outside fun _ ending => ¬ ending.IsReturn

theorem Progress.outside_raise (m : Machine) {k : Stack p .statement} (kind : FaultKind)
    (message : String) (span : Option Span) (hk : k.Outside) :
    (raise m k kind message span).Outside := by
  unfold raise
  split
  · exact ⟨trivial, hk⟩
  · exact id

namespace Machine

theorem outside_executeEntered {k : Stack .statement .statement} {s : Stmt}
    (hs : s.Proper false) (hk : k.Outside) : (m.executeEntered k s).Outside := by
  cases s with
  | var span name initial =>
      cases initial with
      | none => exact ⟨trivial, hk⟩
      | some e => exact ⟨trivial, trivial, hk⟩
  | function | empty => exact ⟨trivial, hk⟩
  | expression => exact ⟨trivial, trivial, hk⟩
  | block span body => exact ⟨hs, hk⟩
  | conditional span condition thenBranch elseBranch =>
      cases elseBranch with
      | none => exact ⟨trivial, ⟨hs.2, by simp⟩, hk⟩
      | some s => exact ⟨trivial, ⟨hs.2.1, by simpa using hs.2.2.2⟩, hk⟩
  | «while» span condition body => exact ⟨trivial, hs.2, hk⟩
  | «return» span value => cases value <;> simp [Stmt.Proper] at hs

theorem outside_resumeValue (v : Value) {frame : Frame .expression q} {k : Stack q .statement}
    (hframe : frame.Outside) (hk : k.Outside) : (m.resumeValue v frame k).Outside := by
  cases frame with
  | leave | defineVar | complete => exact ⟨trivial, hk⟩
  | branch thenBranch elseBranch =>
      unfold resumeValue
      dsimp only
      split
      · exact ⟨hframe.1, hk⟩
      · cases elseBranch with
        | none => exact ⟨trivial, hk⟩
        | some s => exact ⟨hframe.2 s rfl, hk⟩
  | loopTest condition body value =>
      unfold resumeValue
      dsimp only
      split
      · exact ⟨hframe, hframe, hk⟩
      · exact ⟨trivial, hk⟩
  | _ => exact hframe.elim

theorem outside_resumeCompletion (value : Option Value) {frame : Frame .statement q}
    {k : Stack q .statement} (hframe : frame.Outside) (hk : k.Outside) :
    (m.resumeCompletion (.normal value) frame k).Outside := by
  cases frame with
  | leave => exact ⟨trivial, hk⟩
  | returnTo => exact hframe.elim
  | loopBody => exact ⟨trivial, hframe, hk⟩
  | sequence => exact ⟨hframe, hk⟩

theorem outside_passFault (f : Fault) {frame : Frame p q} {k : Stack q .statement}
    (hframe : frame.Outside) (hk : k.Outside) : (m.passFault f frame k).Outside := by
  cases frame <;> first | exact ⟨trivial, hk⟩ | exact hframe.elim

end Machine

namespace Situation

/-- An expression comes next. -/
def Evaluates : {last : Phrase} → Situation last → Prop
  | _, ⟨_, .evaluate _, _, _⟩ => True
  | _, _ => False

/-- Unless it enters an expression, a step of code outside of functions stays outside of them. -/
theorem outside_step (hosts : HostTable) {s : Situation .statement} (hs : s.Outside)
    (hevaluates : ¬ s.Evaluates) : (s.step hosts).Outside := by
  obtain ⟨phrase, focus, k, m⟩ := s
  obtain ⟨hfocus, hk⟩ := hs
  cases focus with
  | evaluate e => exact absurd trivial hevaluates
  | execute s =>
      rw [step, Machine.enterPhrase]
      split
      · exact Progress.outside_raise m _ _ _ hk
      · exact Machine.outside_executeEntered hfocus ⟨trivial, hk⟩
  | executeAll body value =>
      cases body with
      | nil => exact ⟨trivial, hk⟩
      | cons s rest => exact ⟨hfocus.1, hfocus.2, hk⟩
  | invoke | enter | perform => exact hfocus.elim
  | value v =>
      cases k with
      | cons frame k => exact Machine.outside_resumeValue v hk.1 hk.2
  | completion c =>
      cases c with
      | «return» v => exact hfocus.elim
      | normal value =>
          cases k with
          | nil => exact id
          | cons frame k => exact Machine.outside_resumeCompletion value hk.1 hk.2
  | fault f =>
      cases k with
      | nil => exact id
      | cons frame k => exact Machine.outside_passFault f hk.1 hk.2

/-- Code outside of functions does not end at a return. -/
theorem not_isReturn_of_run {fuel : Nat} {s : Situation .statement} (hs : s.Outside)
    (harmed : s.machine.trap.armed = true) (hrun : s.run hosts fuel = some (n, ending)) :
    ¬ ending.IsReturn := by
  induction fuel using Nat.strongRecOn generalizing s with
  | ind fuel ih =>
      by_cases hevaluates : s.Evaluates
      · -- an expression comes to its result by itself, whatever functions it calls on the way
        obtain ⟨phrase, focus, k, m⟩ := s
        cases focus with
        | evaluate e =>
            let alone : Situation .expression := ⟨_, .evaluate e, .nil, m⟩
            have hover : (alone.over k).run hosts fuel = some (n, ending) := hrun
            obtain ⟨o, e, t, left, -, ho, hresume, hleft, -, hlt⟩ :=
              exists_run_of_over (s := alone) harmed hover
            cases e with
            | stranded message => cases hresume
            | value | fault =>
                obtain rfl := Progress.next.inj hresume
                refine ih left (hlt id) ?_ ho hleft
                exact ⟨trivial, hs.stack⟩
        | _ => exact hevaluates.elim
      · have houtside := outside_step hosts hs hevaluates
        cases fuel with
        | zero => cases hrun
        | succ fuel =>
            rw [run] at hrun
            cases hstep : s.step hosts with
            | next t =>
                rw [hstep] at hrun houtside
                exact ih fuel (Nat.lt_succ_self fuel) houtside (trap_of_step hstep ▸ harmed) hrun
            | halt m ending =>
                rw [hstep] at hrun houtside
                obtain ⟨rfl, rfl⟩ := Prod.mk.inj (Option.some.inj hrun)
                exact houtside

end Situation

end ScriptHost
