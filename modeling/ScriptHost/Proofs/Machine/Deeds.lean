import ScriptHost.Proofs.Machine.Counters
import ScriptHost.Proofs.Machine.Lockstep
import ScriptHost.Proofs.Machine.Over
import ScriptHost.Proofs.Program.WellPlaced

/-!
What the code of a call does by itself, in order of time. It begins statements and comes to values
of expression statements until its statements are at an end or it comes to the value of a return;
what is done meanwhile by the functions that it calls is none of it. The machine keeps the values
that expression statements came to on frames, each beside those that other statements around it
came to before; together they always are the value that was evaluated last.
-/

namespace ScriptHost

variable {p q last : Phrase}

/-- A deed of the code of a call. -/
inductive Deed
  | began (s : Stmt)
  | evaluated (value : Value)
  | returned (value : Value)

namespace Deed

/-- The value of an expression statement. -/
def value? : Deed → Option Value
  | .evaluated v => some v
  | _ => none

/-- A return is begun or comes to its value. -/
def IsReturn : Deed → Prop
  | .began (.return _ _) | .returned _ => True
  | _ => False

/-- The value that was evaluated last in time. -/
def lastValue (deeds : List Deed) : Option Value := (deeds.filterMap value?).getLast?

theorem lastValue_append (deeds more : List Deed) :
    lastValue (deeds ++ more) = (lastValue more).or (lastValue deeds) := by
  rw [lastValue, List.filterMap_append, List.getLast?_append]
  rfl

end Deed

/-- A return of nothing comes to its value as soon as it is entered. -/
def Machine.returnsAtOnce (m : Machine) : Stmt → List Deed
  | .return _ none => if m.nesting < maxNesting then [.returned .undefined] else []
  | _ => []

namespace Situation

/-- What is done next by the code of the call that has so many calls below it, itself counted. In a
function that it calls nothing is. -/
def deeds (calls : Nat) : {last : Phrase} → Situation last → List Deed
  | _, ⟨_, .execute s, k, m⟩ => if k.calls = calls then .began s :: m.returnsAtOnce s else []
  | _, ⟨_, .value v, .cons .complete k, _⟩ => if k.calls = calls then [.evaluated v] else []
  | _, ⟨_, .value v, .cons .returnValue k, _⟩ => if k.calls = calls then [.returned v] else []
  | _, _ => []

/-- The closure is entered over the frames. -/
def entering (m : Machine) (receiver : Value) (closure : Closure) (arguments : List Value)
    (below : Stack .expression last) : Situation last :=
  ⟨_, .enter receiver closure arguments, below, m⟩

/-- From the situation, in which a closure is entered over the frames, a run comes to another one
before anything was handed to these frames, or just as it is; these are the deeds of the closure on
the way. -/
inductive Performs (hosts : HostTable) (below : Stack .expression last) (start : Situation last) :
    List Deed → Situation last → Prop
  | enter {t : Situation last} (hstep : start.step hosts = .next t) :
      Performs hosts below start [] t
  | step {deeds : List Deed} {t u : Situation last} (h : Performs hosts below start deeds t)
      (habove : below.height < t.stack.height) (hstep : t.step hosts = .next u) :
      Performs hosts below start (deeds ++ t.deeds (below.calls + 1)) u

end Situation

/-- The statement is one of the code itself: it stands among these statements or in their blocks,
branches and loops, and in no function. -/
def Own (body : List Stmt) (s : Stmt) : Prop := Lies body 0 (.stmt s)

/-- Deeds of the code up to a point where it has begun no return, with the value evaluated last. -/
inductive Done (body : List Stmt) : List Deed → Option Value → Prop
  | nil : Done body [] none
  | began {deeds : List Deed} {latest : Option Value} {s : Stmt} (h : Done body deeds latest)
      (hs : Own body s) (hplain : ∀ span value, s ≠ .return span value) :
      Done body (deeds ++ [.began s]) latest
  | evaluated {deeds : List Deed} {latest : Option Value} {span : Span} {e : Expr}
      (h : Done body deeds latest) (hs : Own body (.expression span e)) (v : Value) :
      Done body (deeds ++ [.began (.expression span e), .evaluated v]) (some v)

/-- Deeds of the code up to its first return, which has come to this value. -/
inductive Returned (body : List Stmt) : List Deed → Value → Prop
  | value {deeds : List Deed} {latest : Option Value} {span : Span} {e : Expr}
      (h : Done body deeds latest) (hs : Own body (.return span (some e))) (v : Value) :
      Returned body (deeds ++ [.began (.return span (some e)), .returned v]) v
  | nothing {deeds : List Deed} {latest : Option Value} {span : Span}
      (h : Done body deeds latest) (hs : Own body (.return span none)) :
      Returned body (deeds ++ [.began (.return span none), .returned .undefined]) .undefined

namespace Done

variable {body : List Stmt} {deeds : List Deed} {latest : Option Value}

theorem latest_eq (h : Done body deeds latest) : latest = Deed.lastValue deeds := by
  induction h with
  | nil => rfl
  | began _ _ _ ih => rw [Deed.lastValue_append]; exact ih
  | evaluated _ _ v _ => rw [Deed.lastValue_append]; rfl

theorem not_isReturn (h : Done body deeds latest) : ∀ d ∈ deeds, ¬ d.IsReturn := by
  induction h with
  | nil => exact List.forall_mem_nil _
  | @began deeds latest s _ _ hplain ih =>
      refine List.forall_mem_append.mpr ⟨ih, List.forall_mem_singleton.mpr ?_⟩
      cases s with
      | «return» span value => exact absurd rfl (hplain span value)
      | _ => exact id
  | evaluated _ _ v ih =>
      refine List.forall_mem_append.mpr ⟨ih, List.forall_mem_cons.mpr ⟨id, ?_⟩⟩
      exact List.forall_mem_singleton.mpr id

end Done

/-- A list that is one longer is cut at an element of it, which is the last one or not. -/
theorem concat_eq_append_cons {α : Type} {xs before after : List α} {x y : α}
    (h : xs ++ [x] = before ++ y :: after) :
    (xs = before ∧ x = y) ∨ ∃ rest, xs = before ++ y :: rest := by
  rcases List.eq_nil_or_concat after with rfl | ⟨rest, z, rfl⟩
  · obtain ⟨hfront, hlast⟩ := List.append_inj' h rfl
    exact .inl ⟨hfront, (List.cons.inj hlast).1⟩
  · have hsplit : before ++ y :: rest.concat z = (before ++ y :: rest) ++ [z] := by simp
    obtain ⟨hfront, -⟩ := List.append_inj' (h.trans hsplit) rfl
    exact .inr ⟨rest, hfront⟩

/-- The deeds are of this code: what is begun stands in it, and each value that is evaluated is that
of the expression statement that was begun just before. -/
structure Deed.OfCode (body : List Stmt) (deeds : List Deed) : Prop where
  own : ∀ s, .began s ∈ deeds → Own body s
  paired : ∀ before v after, deeds = before ++ .evaluated v :: after →
    ∃ earlier span e, before = earlier ++ [.began (.expression span e)]

namespace Deed.OfCode

variable {body : List Stmt} {deeds : List Deed}

theorem concat (h : OfCode body deeds) {d : Deed} (hown : ∀ s, d = .began s → Own body s)
    (hpaired : ∀ v, d = .evaluated v →
      ∃ earlier span e, deeds = earlier ++ [.began (.expression span e)]) :
    OfCode body (deeds ++ [d]) := by
  constructor
  · intro s hs
    rcases List.mem_append.mp hs with hbefore | hlast
    · exact h.own s hbefore
    · exact hown s (List.mem_singleton.mp hlast).symm
  · intro before v after heq
    rcases concat_eq_append_cons heq with ⟨rfl, hlast⟩ | ⟨rest, hfront⟩
    · exact hpaired v hlast
    · exact h.paired before v rest hfront

theorem began (h : OfCode body deeds) {s : Stmt} (hs : Own body s) :
    OfCode body (deeds ++ [.began s]) :=
  h.concat (fun _ heq => Deed.began.inj heq ▸ hs) (by rintro _ ⟨⟩)

theorem evaluated (h : OfCode body deeds) {span : Span} {e : Expr}
    (hs : Own body (.expression span e)) (v : Value) :
    OfCode body (deeds ++ [.began (.expression span e), .evaluated v]) := by
  rw [List.append_cons]
  exact (h.began hs).concat (by rintro _ ⟨⟩) fun _ _ => ⟨deeds, span, e, rfl⟩

theorem returned (h : OfCode body deeds) {s : Stmt} (hs : Own body s) (v : Value) :
    OfCode body (deeds ++ [.began s, .returned v]) := by
  rw [List.append_cons]
  exact (h.began hs).concat (by rintro _ ⟨⟩) (by rintro _ ⟨⟩)

end Deed.OfCode

theorem Done.ofCode {body : List Stmt} {deeds : List Deed} {latest : Option Value}
    (h : Done body deeds latest) : Deed.OfCode body deeds := by
  induction h with
  | nil => exact ⟨fun _ hs => absurd hs List.not_mem_nil, by simp⟩
  | began _ hs _ ih => exact ih.began hs
  | evaluated _ hs v ih => exact ih.evaluated hs v

theorem Returned.ofCode {body : List Stmt} {deeds : List Deed} {v : Value}
    (h : Returned body deeds v) : Deed.OfCode body deeds := by
  cases h with
  | value hbefore hs v => exact hbefore.ofCode.returned hs v
  | nothing hbefore hs => exact hbefore.ofCode.returned hs .undefined

/-- Nothing is done after the first return that is begun, and it has come to the value. -/
theorem Returned.first {body : List Stmt} {deeds : List Deed} {v : Value}
    (h : Returned body deeds v) :
    ∃ before span value, deeds = before ++ [.began (.return span value), .returned v] ∧
      (∀ d ∈ before, ¬ d.IsReturn) ∧ (value = none → v = .undefined) := by
  cases h with
  | value hbefore hs v => exact ⟨_, _, _, rfl, hbefore.not_isReturn, nofun⟩
  | nothing hbefore hs => exact ⟨_, _, _, rfl, hbefore.not_isReturn, fun _ => rfl⟩

/-! ### What the frames of the code keep -/

variable {body : List Stmt} {deeds : List Deed} {hosts : HostTable}

namespace Own

theorem top {s : Stmt} (hs : s ∈ body) : Own body s := Lies.top hs

theorem block {span : Span} {inner : List Stmt} (h : Own body (.block span inner)) :
    ∀ s ∈ inner, Own body s := fun _ hs => h.inner rfl (List.mem_map_of_mem hs)

theorem thenBranch {span : Span} {condition : Expr} {thenBranch : Stmt} {elseBranch : Option Stmt}
    (h : Own body (.conditional span condition thenBranch elseBranch)) : Own body thenBranch :=
  h.inner rfl (List.mem_cons_of_mem _ List.mem_cons_self)

theorem elseBranch {span : Span} {condition : Expr} {thenBranch : Stmt} {elseBranch : Option Stmt}
    (h : Own body (.conditional span condition thenBranch elseBranch)) :
    ∀ s ∈ elseBranch, Own body s := by
  intro s hs
  refine h.inner rfl (List.mem_cons_of_mem _ (List.mem_cons_of_mem _ ?_))
  exact List.mem_map_of_mem (Option.mem_toList.mpr hs)

theorem loop {span : Span} {condition : Expr} {inner : Stmt}
    (h : Own body (.while span condition inner)) : Own body inner :=
  h.inner rfl (List.mem_cons_of_mem _ List.mem_cons_self)

end Own

/-- The value that other statements came to before. -/
def Frame.held : Frame p q → Option Value
  | .sequence _ value | .loopBody _ _ value => value
  | .leave => none
  | _ => none

def Stack.held : {p q : Phrase} → Stack p q → Option Value
  | _, _, .nil => none
  | _, _, .cons frame rest => frame.held.or rest.held

/-- The frame goes on with statements of the code. -/
def Frame.Own (body : List Stmt) : Frame p q → Prop
  | .leave => True
  | .sequence rest _ => ∀ s ∈ rest, ScriptHost.Own body s
  | .loopBody _ inner _ => ScriptHost.Own body inner
  | _ => False

def Stack.Own (body : List Stmt) : {p q : Phrase} → Stack p q → Prop
  | _, _, .nil => True
  | _, _, .cons frame rest => frame.Own body ∧ rest.Own body

/-- Control is at a statement of the code or at what came of one; the last value is the one that is
at hand or else the one that is held. -/
def Focus.Agrees (body : List Stmt) (deeds : List Deed) (held : Option Value) :
    Focus .statement → Prop
  | .execute s => Own body s ∧ Done body deeds held
  | .executeAll rest latest => (∀ s ∈ rest, Own body s) ∧ Done body deeds (latest.or held)
  | .completion (.normal latest) => Done body deeds (latest.or held)
  | .completion (.return v) => Returned body deeds v
  | .fault _ => True

/-- The frame waits for an expression of a statement of the code. -/
def Frame.Agrees (body : List Stmt) (deeds : List Deed) (held : Option Value) :
    Frame .expression .statement → Prop
  | .defineVar _ => Done body deeds held
  | .complete => ∃ before span e, deeds = before ++ [.began (.expression span e)] ∧
      ScriptHost.Own body (.expression span e) ∧ Done body before held
  | .branch thenBranch elseBranch => Done body deeds held ∧
      ScriptHost.Own body thenBranch ∧ ∀ s ∈ elseBranch, ScriptHost.Own body s
  | .loopTest _ inner value => Done body deeds (value.or held) ∧ ScriptHost.Own body inner
  | .returnValue => ∃ before latest span e, deeds = before ++ [.began (.return span (some e))] ∧
      ScriptHost.Own body (.return span (some e)) ∧ Done body before latest

/-- What the statements of the code have come to: control is at one of them, or somewhere within an
expression of one. -/
inductive Situation.Keeps (body : List Stmt) (deeds : List Deed) : Situation .statement → Prop
  | own {focus : Focus .statement} {k : Stack .statement .statement} {m : Machine}
      (hk : k.Own body) (hfocus : focus.Agrees body deeds k.held) :
      Keeps body deeds ⟨_, focus, k, m⟩
  | within {s : Situation .expression} {frame : Frame .expression .statement}
      {k : Stack .statement .statement} (hk : k.Own body)
      (hframe : frame.Agrees body deeds k.held) : Keeps body deeds (s.over (.cons frame k))

namespace Stack

theorem calls_append {r : Phrase} (j : Stack p q) (k : Stack q r) :
    (j.append k).calls = j.calls + k.calls := by
  induction j with
  | nil => simp [append, calls]
  | cons frame rest ih => simp [append, calls, ih, Nat.add_right_comm]

/-- From a statement up to an expression around it there is a call. -/
theorem calls_pos (k : Stack p q) (hp : p = .statement) (hq : q = .expression) : 0 < k.calls := by
  induction k with
  | nil => exact nomatch hp.symm.trans hq
  | @cons p r q frame rest ih =>
      subst hp
      cases r with
      | statement => exact Nat.add_pos_left (ih rfl hq) _
      | expression =>
          cases frame with
          | returnTo => exact Nat.succ_pos _

theorem Own.calls {k : Stack p q} (h : k.Own body) : k.calls = 0 := by
  induction k with
  | nil => rfl
  | cons frame rest ih =>
      rw [Stack.calls, ih h.2]
      cases frame <;> first | rfl | exact h.1.elim

end Stack

namespace Situation

/-- Over further frames the same is done. -/
theorem deeds_over (calls : Nat) (below : Stack q last) {s : Situation q} (hs : ¬ s.IsAtEnd) :
    (s.over below).deeds (calls + below.calls) = s.deeds calls := by
  obtain ⟨phrase, focus, k, m⟩ := s
  have hcalls {p : Phrase} (k : Stack p q) :
      ((k.append below).calls = calls + below.calls) = (k.calls = calls) := by
    rw [Stack.calls_append, Nat.add_right_cancel_iff]
  cases focus with
  | execute s => simp only [Situation.over, deeds, hcalls]
  | value v =>
      cases k with
      | nil => exact absurd trivial hs
      | cons frame k =>
          cases frame <;> simp only [Situation.over, Stack.append, deeds, hcalls]
  | _ => rfl

/-- Within an expression nothing is done by the code that it stands in. -/
theorem deeds_of_expression (s : Situation .expression) : s.deeds 0 = [] := by
  obtain ⟨phrase, focus, k, m⟩ := s
  have hcalls (k : Stack .statement .expression) : ¬ k.calls = 0 :=
    Nat.ne_of_gt (k.calls_pos rfl rfl)
  cases focus with
  | execute s => exact if_neg (hcalls k)
  | value v =>
      cases k with
      | nil => rfl
      | cons frame k =>
          cases frame with
          | complete | returnValue => exact if_neg (hcalls k)
          | _ => rfl
  | _ => rfl

end Situation

/-- The statements go on with these deeds, or halt for a stranded fault. -/
def Progress.GoesOn (body : List Stmt) (deeds : List Deed) : Progress .statement → Prop :=
  Leads (Situation.Keeps body deeds) fun _ ending => ending.IsStranded

namespace Situation.Keeps

variable {k : Stack .statement .statement} {m : Machine} {frame : Frame .expression .statement}
  {progress : Progress .statement} {t : Situation .statement}

theorem goesOn (hstep : progress = .next t) (h : t.Keeps body deeds) :
    progress.GoesOn body deeds := hstep ▸ h

/-- Where nothing is done the deeds are the same. -/
theorem still (h : progress.GoesOn body deeds) : progress.GoesOn body (deeds ++ []) := by
  rwa [List.append_nil]

theorem raise (hk : k.Own body) (kind : FaultKind) (message : String) (span : Option Span) :
    (Progress.raise m k kind message span).GoesOn body deeds :=
  Progress.leads_raise kind message span (.own hk trivial) fun _ => trivial

/-- Control goes on to an expression of a statement. -/
theorem evaluating (hk : k.Own body) (hframe : frame.Agrees body deeds k.held) (e : Expr)
    (m : Machine) : Keeps body deeds ⟨_, .evaluate e, .cons frame k, m⟩ := by
  have hwithin := within (s := ⟨_, .evaluate e, .nil, m⟩) hk hframe
  exact hwithin

/-- Whatever an expression of a statement goes on to, or ends in, the statement waits for it. -/
theorem waiting (hk : k.Own body) (hframe : frame.Agrees body deeds k.held)
    (progress : Progress .expression) :
    (progress.over (.cons frame k)).GoesOn body deeds := by
  cases progress with
  | next u => exact goesOn rfl (within hk hframe)
  | halt m ending =>
      cases ending with
      | value v => exact goesOn rfl (within (s := ⟨_, .value v, .nil, m⟩) hk hframe)
      | fault f => exact goesOn rfl (within (s := ⟨_, .fault f, .nil, m⟩) hk hframe)
      | stranded message => exact trivial

/-- A statement is begun. -/
theorem execute {s : Stmt} (hk : k.Own body) (hs : Own body s) (h : Done body deeds k.held) :
    ((⟨_, .execute s, k, m⟩ : Situation .statement).step hosts).GoesOn body
      (deeds ++ .began s :: m.returnsAtOnce s) := by
  rw [Situation.step, Machine.enterPhrase]
  split
  · exact raise hk _ _ _
  · rename_i hroom
    have hleave : (Stack.cons .leave k).Own body := ⟨trivial, hk⟩
    cases s with
    | var span name initial =>
        have hdone := h.began hs (by simp)
        cases initial with
        | none => exact goesOn rfl (.own hleave hdone)
        | some e =>
            have hdefine : (Frame.defineVar name).Agrees body _ (Stack.cons .leave k).held := hdone
            exact goesOn rfl (evaluating hleave hdefine e _)
    | function span code => exact goesOn rfl (.own hleave (h.began hs (by simp)))
    | expression span e =>
        have hbegun : Frame.complete.Agrees body (deeds ++ [.began (.expression span e)])
          (Stack.cons .leave k).held := ⟨deeds, span, e, rfl, hs, h⟩
        exact goesOn rfl (evaluating hleave hbegun e _)
    | block span inner => exact goesOn rfl (.own hleave ⟨hs.block, h.began hs (by simp)⟩)
    | conditional span condition thenBranch elseBranch =>
        have hbranch : (Frame.branch thenBranch elseBranch).Agrees body _
          (Stack.cons .leave k).held := ⟨h.began hs (by simp), hs.thenBranch, hs.elseBranch⟩
        exact goesOn rfl (evaluating hleave hbranch condition _)
    | «while» span condition inner =>
        have hloop : (Frame.loopTest condition inner none).Agrees body _
          (Stack.cons .leave k).held := ⟨h.began hs (by simp), hs.loop⟩
        exact goesOn rfl (evaluating hleave hloop condition _)
    | «return» span value =>
        cases value with
        | none =>
            have hatOnce : m.returnsAtOnce (.return span none) = [.returned .undefined] :=
              if_pos (Nat.not_le.mp hroom)
            rw [hatOnce]
            exact goesOn rfl (.own hleave (.nothing h hs))
        | some e =>
            have hbegun : Frame.returnValue.Agrees body
              (deeds ++ [.began (.return span (some e))]) (Stack.cons .leave k).held :=
              ⟨deeds, _, span, e, rfl, hs, h⟩
            exact goesOn rfl (evaluating hleave hbegun e _)
    | empty span => exact goesOn rfl (.own hleave (h.began hs (by simp)))

/-- An expression of a statement has come to its value. -/
theorem value {v : Value} (hk : k.Own body) (hframe : frame.Agrees body deeds k.held) :
    ((⟨_, .value v, .cons frame k, m⟩ : Situation .statement).step hosts).GoesOn body
      (deeds ++ (⟨_, .value v, .cons frame k, m⟩ : Situation .statement).deeds 0) := by
  cases frame with
  | defineVar name => exact still (goesOn rfl (.own hk hframe))
  | complete =>
      obtain ⟨before, span, e, rfl, hs, hdone⟩ := hframe
      rw [Situation.deeds, if_pos hk.calls, List.append_assoc]
      exact goesOn rfl (.own hk (hdone.evaluated hs v))
  | branch thenBranch elseBranch =>
      obtain ⟨hdone, hthen, helse⟩ := hframe
      refine still ?_
      rw [Situation.step]
      unfold Machine.resumeValue
      dsimp only
      split
      · exact goesOn rfl (.own hk ⟨hthen, hdone⟩)
      · cases elseBranch with
        | some s => exact goesOn rfl (.own hk ⟨helse s rfl, hdone⟩)
        | none => exact goesOn rfl (.own hk hdone)
  | loopTest condition inner value =>
      obtain ⟨hdone, hinner⟩ := hframe
      refine still ?_
      rw [Situation.step]
      unfold Machine.resumeValue
      dsimp only
      split
      · exact goesOn rfl (.own ⟨hinner, hk⟩ ⟨hinner, hdone⟩)
      · exact goesOn rfl (.own hk hdone)
  | returnValue =>
      obtain ⟨before, latest, span, e, rfl, hs, hdone⟩ := hframe
      rw [Situation.deeds, if_pos hk.calls, List.append_assoc]
      exact goesOn rfl (.own hk (.value hdone hs v))

/-- A statement has ended. -/
theorem completion {c : Completion} {frame : Frame .statement .statement}
    (hk : (Stack.cons frame k).Own body)
    (h : (Focus.completion c).Agrees body deeds (Stack.cons frame k).held) :
    ((⟨_, .completion c, .cons frame k, m⟩ : Situation .statement).step hosts).GoesOn body
      deeds := by
  obtain ⟨hframe, hk⟩ := hk
  cases frame with
  | leave => exact goesOn rfl (.own hk (by cases c <;> exact h))
  | loopBody condition inner value =>
      cases c with
      | «return» v => exact goesOn rfl (.own hk h)
      | normal latest =>
          have hloop : (Frame.loopTest condition inner (latest.or value)).Agrees body deeds
            k.held := ⟨by rw [Option.or_assoc]; exact h, hframe⟩
          exact goesOn rfl (evaluating hk hloop condition _)
  | sequence rest value =>
      cases c with
      | «return» v => exact goesOn rfl (.own hk h)
      | normal latest =>
          have hdone : Done body deeds ((latest.or value).or k.held) := by
            rw [Option.or_assoc]
            exact h
          exact goesOn rfl (.own hk ⟨hframe, hdone⟩)

/-- What the statements have come to is kept by a step, with the deeds in it. -/
theorem step (hosts : HostTable) {s : Situation .statement} (h : s.Keeps body deeds)
    (hs : ¬ s.IsAtEnd) :
    (s.step hosts).GoesOn body (deeds ++ s.deeds 0) := by
  cases h with
  | @own focus k m hk hfocus =>
      cases focus with
      | execute s =>
          rw [Situation.deeds, if_pos hk.calls]
          exact execute hk hfocus.1 hfocus.2
      | executeAll rest latest =>
          refine still ?_
          cases rest with
          | nil => exact goesOn rfl (.own hk hfocus.2)
          | cons s rest =>
              obtain ⟨hs, hrest⟩ := List.forall_mem_cons.mp hfocus.1
              exact goesOn rfl (.own ⟨hrest, hk⟩ ⟨hs, hfocus.2⟩)
      | completion c =>
          cases k with
          | nil => exact absurd trivial hs
          | @cons _ r _ frame k =>
              cases r with
              | expression => cases frame; exact hk.1.elim
              | statement => exact still (completion hk hfocus)
      | fault f =>
          cases k with
          | nil => exact absurd trivial hs
          | cons frame k =>
              obtain ⟨hframe, hk⟩ := hk
              cases frame with
              | returnTo => exact hframe.elim
              | leave | loopBody | sequence => exact still (goesOn rfl (.own hk trivial))
  | @within s frame k hk hframe =>
      by_cases hend : s.IsAtEnd
      · obtain ⟨phrase, focus, stack, m⟩ := s
        cases stack with
        | nil =>
            cases focus with
            | value v => exact value hk hframe
            | fault f =>
                have hpassed : (Situation.over (.cons frame k) ⟨_, .fault f, .nil, m⟩).step hosts =
                    .next ⟨_, .fault f, k, m⟩ := by
                  cases frame <;> rfl
                exact still (goesOn hpassed (.own hk trivial))
            | _ => exact hend.elim
        | cons next stack => cases focus <;> exact hend.elim
      · have hnothing : (s.over (.cons frame k)).deeds 0 = [] := by
          have hover := deeds_over 0 (.cons frame k) hend
          have hcalls : (Stack.cons frame k).calls = 0 := by
            rw [Stack.calls, hk.calls]
            cases frame <;> rfl
          rw [hcalls] at hover
          exact hover.trans (deeds_of_expression s)
        rw [step_over hosts (.cons frame k) s hend, hnothing]
        exact still (waiting hk hframe _)

end Situation.Keeps

end ScriptHost
