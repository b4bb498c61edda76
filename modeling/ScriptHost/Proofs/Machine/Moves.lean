import ScriptHost.Proofs.Machine.Alike
import ScriptHost.Proofs.Machine.Lockstep
import ScriptHost.Proofs.Program.Work
import ScriptHost.Proofs.Store.Growth

/-!
All that a step can do where no native function of a host is about. It enters a phrase or a closure
or raises a fault for want of room, goes on with the code that it is in, or hands what came of a
phrase past the frame that waits for it. Whatever goes on leaves the context as it is and, but for
another round of a loop, less work than there was.
-/

namespace ScriptHost

variable {p q last : Phrase}

/-- The machine has changed nothing but what its objects hold and what it has written. -/
structure Machine.Edited (m n : Machine) : Prop where
  context : n.context = m.context
  grows : m.store.Grows n.store

namespace Machine

theorem Edited.refl (m : Machine) : m.Edited m := ⟨rfl, .refl _⟩

theorem edited_allocate (m : Machine) (kind : ObjectClass) : m.Edited (m.allocate kind).2 :=
  ⟨rfl, m.store.grows_allocate kind⟩

theorem edited_close (m : Machine) (code : FunctionCode) : m.Edited (m.close code).2 :=
  ⟨rfl, m.store.grows_identify⟩

theorem edited_set (m : Machine) (id : ObjectId) (name : String) (value : Value) :
    m.Edited { m with store := m.store.set id name value } :=
  ⟨rfl, m.store.grows_set id name value⟩

theorem edited_define (m : Machine) (name : String) (value : Value) :
    m.Edited (m.define name value) :=
  m.edited_set m.environment.scope name value

theorem Edited.trans {m n o : Machine} (h : m.Edited n) (h' : n.Edited o) : m.Edited o :=
  ⟨h'.context.trans h.context, h.grows.trans h'.grows⟩

end Machine

/-- The work that is to be done before there is a result. -/
def Focus.work : Focus p → Nat
  | .evaluate e => e.work
  | .execute s => s.work
  | .executeAll body _ => Stmt.workAll body + 1
  | .invoke .. => 2
  | .enter .. | .perform _ => 1
  | .value _ | .completion _ | .fault _ => 0

/-- The work that is to be done with a result. -/
def Frame.work : Frame p q → Nat
  | .binaryRight _ right => right.work + 2
  | .logicalRight _ right => right.work + 1
  | .assignTo target => target.work + 1
  | .callMember site _ | .callFunction site => Expr.workAll site.arguments + 4
  | .callArgument _ _ _ _ rest => Expr.workAll rest + 4
  | .objectEntry _ _ rest => Entry.workAll rest + 1
  | .branch thenBranch elseBranch => thenBranch.work + Stmt.workOption elseBranch + 1
  | .loopTest _ body _ => body.work + 2
  | .sequence rest _ => Stmt.workAll rest + 2
  | _ => 1

theorem Frame.work_leave : (leave : Frame p p).work = 1 := by
  cases p <;> rfl

theorem Frame.work_pos (frame : Frame p q) : 0 < frame.work := by
  cases frame <;> simp [work]

/-- A fault is on its way. -/
def Focus.IsFault : Focus p → Prop
  | .fault _ => True
  | _ => False

/-- A phrase that is about to be entered. -/
def Focus.IsPhrase : Focus p → Prop
  | .evaluate _ | .execute _ => True
  | _ => False

/-- Control is between phrases: at the statements that are left, or at a value that is called. -/
def Focus.IsBetween : Focus p → Prop
  | .executeAll .. | .invoke .. => True
  | _ => False

theorem Focus.work_pos_of_isPhrase {f : Focus p} (h : f.IsPhrase) : 0 < f.work := by
  cases f with
  | evaluate e => exact e.work_pos
  | execute s => exact s.work_pos
  | _ => exact h.elim

theorem Focus.work_of_isResult {f : Focus p} (h : f.IsResult) : f.work = 0 := by
  cases f <;> first | rfl | exact h.elim

/-- A frame that gives back something of the context. -/
def Frame.Restores : Frame p q → Prop
  | .leave | .returnTo .. => True
  | _ => False

/-- How a run ends that has come to this. -/
def Focus.ending? : Focus p → Option (Ending p)
  | .value v => some (.value v)
  | .completion c => some (.completion c)
  | .fault f => some (.fault f)
  | _ => none

/-- The machine after a result or a fault has passed a frame. -/
def Frame.release : Frame p q → Machine → Machine
  | .leave, m => m.left
  | .returnTo environment receiver _, m => m.returned environment receiver
  | _, m => m

/-- The fault after it has passed a frame. -/
def Frame.place : Frame p q → Fault → Fault
  | .locate span, f => f.locate span
  | _, f => f

/-- The machine inside of a closure that it has entered. -/
def Machine.inside (m : Machine) (receiver : Value) (closure : Closure) (arguments : List Value) :
    Machine :=
  if closure.isUnit then
    { m with environment := closure.environment, receiver := receiver, depth := m.depth + 1 }
  else
    let (scope, n) := m.allocate .scope
    { n with
      store := n.store.bindParameters scope closure.code.parameters arguments
      environment := .child scope closure.environment
      receiver := receiver
      depth := m.depth + 1 }

namespace Machine

variable (m : Machine) (receiver : Value) (closure : Closure) (arguments : List Value)

theorem depth_inside : (m.inside receiver closure arguments).depth = m.depth + 1 := by
  unfold inside
  split <;> rfl

theorem nesting_inside : (m.inside receiver closure arguments).nesting = m.nesting := by
  unfold inside
  split <;> rfl

theorem maxCallDepth_inside :
    (m.inside receiver closure arguments).maxCallDepth = m.maxCallDepth := by
  unfold inside
  split <;> rfl

end Machine

theorem Frame.release_of_not_restores {frame : Frame p q} (h : ¬ frame.Restores) (m : Machine) :
    frame.release m = m := by
  cases frame <;> first | rfl | exact absurd trivial h

namespace Progress

/-- Control goes on over the same frames, or over one more, and leaves less work than so much. -/
inductive Onward (m : Machine) (k : Stack p last) (work : Nat) : Progress last → Prop
  | moved {n : Machine} {f : Focus p} (hn : m.Edited n) (hf : ¬ f.IsFault) (hwork : f.work < work) :
      Onward m k work (focus n k f)
  | pushed {q : Phrase} {n : Machine} {frame : Frame q p} {f : Focus q} (hn : m.Edited n)
      (hframe : ¬ frame.Restores) (hf : ¬ f.IsFault) (hwork : f.work + frame.work < work) :
      Onward m k work (focus n (.cons frame k) f)
  | raised (b : TextBuffer) (kind : FaultKind) (message : String) (span : Option Span)
      (hwork : 0 < work) : Onward m k work (raise (m.buffered b) k kind message span)

variable {m : Machine} {k : Stack p last} {work : Nat}

theorem onward_raise (kind : FaultKind) (message : String) (span : Option Span)
    (hwork : 0 < work) : (raise m k kind message span).Onward m k work :=
  .raised m.scratch kind message span hwork

end Progress

/-- All that a step can do. -/
inductive Situation.Moves {last : Phrase} : Situation last → Progress last → Prop
  | tooDeep {p : Phrase} {f : Focus p} {k : Stack p last} {m : Machine} (hphrase : f.IsPhrase)
      (hfull : maxNesting ≤ m.nesting) :
      Moves ⟨p, f, k, m⟩ (.raise m k .range Machine.stackExceeded none)
  | begun {p : Phrase} {f : Focus p} {k : Stack p last} {m : Machine} {progress : Progress last}
      {work : Nat} (hphrase : f.IsPhrase) (hroom : m.nesting < maxNesting) (hwork : work < f.work)
      (honward : progress.Onward { m with nesting := m.nesting + 1 } (.cons .leave k) work) :
      Moves ⟨p, f, k, m⟩ progress
  | tooMany {receiver : Value} {closure : Closure} {arguments : List Value}
      {k : Stack .expression last} {m : Machine} (hfull : m.maxCallDepth ≤ m.depth) :
      Moves ⟨_, .enter receiver closure arguments, k, m⟩
        (.raise m k .range Machine.stackExceeded none)
  | entered {receiver : Value} {closure : Closure} {arguments : List Value}
      {k : Stack .expression last} {m : Machine} (hroom : m.depth < m.maxCallDepth) :
      Moves ⟨_, .enter receiver closure arguments, k, m⟩
        (.focus (m.inside receiver closure arguments)
          (.cons (.returnTo m.environment m.receiver closure.isUnit) k)
          (.executeAll closure.code.body none))
  | went {p : Phrase} {f : Focus p} {k : Stack p last} {m : Machine} {progress : Progress last}
      (hbetween : f.IsBetween) (honward : progress.Onward m k f.work) : Moves ⟨p, f, k, m⟩ progress
  | resumed {p q : Phrase} {f : Focus p} {frame : Frame p q} {k : Stack q last} {m : Machine}
      {progress : Progress last} (hresult : f.IsResult) (hf : ¬ f.IsFault)
      (hframe : ¬ frame.Restores) (honward : progress.Onward m k frame.work) :
      Moves ⟨p, f, .cons frame k, m⟩ progress
  | again {condition : Expr} {body : Stmt} {value latest : Option Value}
      {k : Stack .statement last} {m : Machine} :
      Moves ⟨_, .completion (.normal latest), .cons (.loopBody condition body value) k, m⟩
        (.focus m (.cons (.loopTest condition body (latest.or value)) k) (.evaluate condition))
  | returned {p q : Phrase} {f : Focus p} {g : Focus q} {frame : Frame p q} {k : Stack q last}
      {m : Machine} (hresult : f.IsResult) (hf : ¬ f.IsFault) (hframe : frame.Restores)
      (hg : g.IsResult) (hgf : ¬ g.IsFault) :
      Moves ⟨p, f, .cons frame k, m⟩ (.focus (frame.release m) k g)
  | unwound {p q : Phrase} {f : Fault} {frame : Frame p q} {k : Stack q last} {m : Machine} :
      Moves ⟨p, .fault f, .cons frame k, m⟩ (.focus (frame.release m) k (.fault (frame.place f)))
  | ended {f : Focus last} {m : Machine} {ending : Ending last} (hending : f.ending? = some ending) :
      Moves ⟨last, f, .nil, m⟩ (.halt m ending)

namespace Machine

variable {m : Machine} {work : Nat}

/-! One lemma for each part of a step. -/

theorem onward_readMember {k : Stack .expression last} {owner : Value} {property : String}
    {span : Span} {use : Value → Progress last} (hwork : 0 < work)
    (huse : ∀ v, (use v).Onward m k work) :
    (m.readMember k owner property span use).Onward m k work := by
  cases owner with
  | object id => exact huse _
  | string s => exact huse _
  | undefined | null => exact Progress.onward_raise _ _ _ hwork
  | _ => exact huse _

theorem onward_callWith {k : Stack .expression last} {site : CallSite} {receiver function : Value}
    {done : List Value} (rest : List Expr) :
    (m.callWith k site receiver function done rest).Onward m k (Expr.workAll rest + 4) := by
  cases rest with
  | nil =>
      rw [callWith]
      split
      · exact .pushed (.refl m) id id (by simp [Focus.work, Frame.work])
      · exact Progress.onward_raise _ _ _ (Nat.succ_pos _)
  | cons argument rest =>
      refine .pushed (.refl m) id id ?_
      simp only [Focus.work, Frame.work, Expr.workAll]
      omega

theorem onward_fillObject {n : Machine} {k : Stack .expression last} {id : ObjectId}
    (hn : m.Edited n) (entries : List Entry) :
    (n.fillObject k id entries).Onward m k (Entry.workAll entries + 1) := by
  cases entries with
  | nil => exact .moved hn (fun h => h) (Nat.succ_pos _)
  | cons entry rest =>
      obtain ⟨key, value⟩ := entry
      refine .pushed hn (fun h => h) (fun h => h) ?_
      simp only [Focus.work, Frame.work, Entry.workAll]
      omega

theorem onward_evaluateEntered {k : Stack .expression last} {e : Expr} (hwork : e.work = work + 1) :
    (m.evaluateEntered k e).Onward m k work := by
  have hpos : 0 < work := by
    cases e <;> simp only [Expr.work] at hwork <;> omega
  cases e with
  | literal | this => exact .moved (.refl m) id hpos
  | function span code => exact .moved (m.edited_close code) id hpos
  | «variable» span name =>
      rw [evaluateEntered]
      split
      · exact .moved (.refl m) id hpos
      · exact Progress.onward_raise _ _ _ hpos
  | binary | logical | assign | member =>
      refine .pushed (.refl m) id id ?_
      simp only [Focus.work, Frame.work, Expr.work] at hwork ⊢
      omega
  | unary span op operand =>
      have hpush : (Focus.evaluate operand).work + 1 < work := by
        simp only [Focus.work, Expr.work] at hwork ⊢
        omega
      unfold evaluateEntered
      split
      all_goals first
        | contradiction
        | exact .moved (.refl m) id hpos
        | cases ‹Expr.unary _ _ _ = _›; exact .pushed (.refl m) id id hpush
  | call span callee arguments =>
      cases callee with
      | member ownerSpan owner property =>
          refine .pushed (.refl m) id id ?_
          simp only [Focus.work, Frame.work, Expr.work] at hwork ⊢
          omega
      | _ =>
          refine .pushed (.refl m) id id ?_
          simp only [Focus.work, Frame.work, Expr.work] at hwork ⊢
          omega
  | object span entries =>
      have hbound : work = Entry.workAll entries + 1 := by
        rw [Expr.work] at hwork
        omega
      subst hbound
      exact onward_fillObject (m.edited_allocate .plain) entries

theorem onward_executeEntered {k : Stack .statement last} {s : Stmt} (hwork : s.work = work + 1) :
    (m.executeEntered k s).Onward m k work := by
  have hpos : 0 < work := by
    cases s <;> simp only [Stmt.work] at hwork <;> omega
  cases s with
  | var span name initial =>
      cases initial with
      | some e =>
          refine .pushed (.refl m) id id ?_
          simp only [Focus.work, Frame.work, Stmt.work, Expr.workOption] at hwork ⊢
          omega
      | none =>
          rw [executeEntered]
          split
          · exact .moved (.refl m) id hpos
          · exact .moved (m.edited_define name .undefined) id hpos
  | function span code =>
      unfold executeEntered
      dsimp only
      split
      · exact .moved ((m.edited_close code).trans (edited_define _ _ _)) id hpos
      · exact .moved (m.edited_close code) id hpos
  | block span body =>
      refine .moved (.refl m) id ?_
      simp only [Focus.work, Stmt.work] at hwork ⊢
      omega
  | «return» span value =>
      cases value with
      | some e =>
          refine .pushed (.refl m) id id ?_
          simp only [Focus.work, Frame.work, Stmt.work, Expr.workOption] at hwork ⊢
          omega
      | none => exact .moved (.refl m) id hpos
  | empty span => exact .moved (.refl m) id hpos
  | expression | conditional | «while» =>
      refine .pushed (.refl m) id id ?_
      simp only [Focus.work, Frame.work, Stmt.work] at hwork ⊢
      omega

theorem onward_print {k : Stack .expression last} (arguments : List Value) (hwork : 0 < work) :
    (m.print k arguments).Onward m k work := by
  unfold print
  dsimp only
  split
  · exact .moved ⟨rfl, .refl _⟩ id hwork
  · exact Progress.onward_raise _ _ _ hwork

theorem onward_evalArgument {k : Stack .expression last} (arguments : List Value) :
    (m.evalArgument k arguments).Onward m k 2 := by
  unfold evalArgument
  split
  · exact .moved (.refl m) id Nat.two_pos
  · dsimp only
    split
    · exact .moved ⟨rfl, .refl _⟩ id Nat.one_lt_two
    · exact .raised _ _ _ _ Nat.two_pos
  · exact .moved (.refl m) id Nat.two_pos

theorem onward_invoke {k : Stack .expression last} (hosts : HostTable) (receiver : Value)
    (arguments : List Value) {callee : Value} (hcallee : callee.HostFree) :
    (m.invoke hosts k receiver arguments callee).Onward m k 2 := by
  unfold invoke
  split
  · exact .moved (.refl m) id Nat.one_lt_two
  · exact onward_print arguments Nat.two_pos
  · exact onward_evalArgument arguments
  · exact hcallee.elim
  · exact Progress.onward_raise _ _ _ Nat.two_pos

theorem onward_assignTo {k : Stack .expression last} (value : Value) (target : Expr) :
    (m.assignTo k value target).Onward m k (target.work + 1) := by
  unfold assignTo
  split
  · exact .moved ⟨rfl, m.store.grows_assign _ _ _⟩ id (Nat.succ_pos _)
  · refine .pushed (.refl m) id id ?_
    simp only [Focus.work, Frame.work, Expr.work]
    omega
  · exact Progress.onward_raise _ _ _ (Nat.succ_pos _)

theorem onward_resumeValue (v : Value) {frame : Frame .expression q} {k : Stack q last}
    (hfree : frame.HostFree) (hframe : ¬ frame.Restores) :
    (m.resumeValue v frame k).Onward m k frame.work := by
  cases frame with
  | leave => exact absurd trivial hframe
  | host resume => exact hfree.elim
  | binaryRight op right =>
      exact .pushed (.refl m) id id (Nat.lt_succ_self _)
  | logicalRight op right =>
      unfold resumeValue
      dsimp only
      split <;> split <;> first
        | exact .moved (.refl m) id (Nat.succ_pos _)
        | exact .moved (.refl m) id (Nat.lt_succ_self _)
  | assignTo target => exact onward_assignTo v target
  | assignMember span property value =>
      unfold resumeValue
      dsimp only
      split
      · exact .moved (m.edited_set _ property value) id Nat.one_pos
      · exact Progress.onward_raise _ _ _ Nat.one_pos
  | readMember span property =>
      unfold resumeValue
      exact onward_readMember Nat.one_pos fun w => .moved (.refl m) id Nat.one_pos
  | callMember site property =>
      unfold resumeValue
      exact onward_readMember (Nat.succ_pos _) fun f => onward_callWith _
  | callFunction site => exact onward_callWith _
  | callArgument site receiver function done rest => exact onward_callWith _
  | objectEntry id key rest => exact onward_fillObject (m.edited_set id key v) rest
  | defineVar name => exact .moved (m.edited_define name v) id Nat.one_pos
  | branch thenBranch elseBranch =>
      unfold resumeValue
      dsimp only
      split
      · refine .moved (.refl m) id ?_
        simp only [Focus.work, Frame.work]
        omega
      · split
        · refine .moved (.refl m) id ?_
          simp only [Focus.work, Frame.work, Stmt.workOption]
          omega
        · exact .moved (.refl m) id (Nat.succ_pos _)
  | loopTest condition body value =>
      unfold resumeValue
      dsimp only
      split
      · exact .pushed (.refl m) id id (Nat.lt_succ_self _)
      · exact .moved (.refl m) id (Nat.succ_pos _)
  | binaryApply | unaryApply | locate | complete | returnValue =>
      exact .moved (.refl m) id Nat.one_pos

theorem enterClosure_of_lt {k : Stack .expression last} (receiver : Value) (closure : Closure)
    (arguments : List Value) (h : m.depth < m.maxCallDepth) :
    m.enterClosure k receiver closure arguments =
      .focus (m.inside receiver closure arguments)
        (.cons (.returnTo m.environment m.receiver closure.isUnit) k)
        (.executeAll closure.code.body none) := by
  rw [enterClosure, if_neg (Nat.not_le.mpr h), inside]
  cases closure.isUnit <;> rfl

end Machine

namespace Situation

/-- Without native functions of a host, these are all the steps there are. -/
theorem moves_step (hosts : HostTable) {s : Situation last} (hs : s.HostFree) :
    s.Moves (s.step hosts) := by
  obtain ⟨phrase, focus, k, m⟩ := s
  obtain ⟨hfocus, hk, -⟩ := hs
  cases focus with
  | evaluate e =>
      rw [step, Machine.enterPhrase]
      split
      · rename_i hfull
        exact .tooDeep trivial hfull
      · rename_i hroom
        have hwork : e.work = (e.work - 1) + 1 := (Nat.succ_pred_eq_of_pos e.work_pos).symm
        exact .begun trivial (Nat.not_le.mp hroom) (Nat.pred_lt_self e.work_pos)
          (Machine.onward_evaluateEntered hwork)
  | execute s =>
      rw [step, Machine.enterPhrase]
      split
      · rename_i hfull
        exact .tooDeep trivial hfull
      · rename_i hroom
        have hwork : s.work = (s.work - 1) + 1 := (Nat.succ_pred_eq_of_pos s.work_pos).symm
        exact .begun trivial (Nat.not_le.mp hroom) (Nat.pred_lt_self s.work_pos)
          (Machine.onward_executeEntered hwork)
  | executeAll body value =>
      cases body with
      | nil => exact .went trivial (.moved (.refl m) id (Nat.succ_pos _))
      | cons s rest =>
          refine .went trivial (.pushed (.refl m) id id ?_)
          simp only [Focus.work, Frame.work, Stmt.workAll]
          omega
  | invoke receiver callee arguments =>
      exact .went trivial (Machine.onward_invoke hosts receiver arguments hfocus.2.1)
  | enter receiver closure arguments =>
      rw [step]
      by_cases hroom : m.depth < m.maxCallDepth
      · rw [Machine.enterClosure_of_lt receiver closure arguments hroom]
        exact .entered hroom
      · rw [Machine.enterClosure, if_pos (Nat.not_lt.mp hroom)]
        exact .tooMany (Nat.not_lt.mp hroom)
  | perform script => exact hfocus.elim
  | value v =>
      cases k with
      | nil => exact .ended rfl
      | cons frame k =>
          by_cases hframe : frame.Restores
          · cases frame with
            | leave => exact .returned trivial id trivial trivial id
            | _ => exact hframe.elim
          · exact .resumed trivial id hframe (Machine.onward_resumeValue v hk.1 hframe)
  | completion c =>
      cases k with
      | nil => exact .ended rfl
      | cons frame k =>
          cases frame with
          | leave => exact .returned trivial id trivial trivial id
          | returnTo environment receiver isUnit => exact .returned trivial id trivial trivial id
          | loopBody condition body value =>
              cases c with
              | normal latest => exact .again
              | «return» v => exact .resumed trivial id id (.moved (.refl m) id Nat.one_pos)
          | sequence rest value =>
              cases c with
              | normal latest =>
                  exact .resumed trivial id id (.moved (.refl m) id (Nat.lt_succ_self _))
              | «return» v =>
                  exact .resumed trivial id id (.moved (.refl m) id (Nat.succ_pos _))
  | fault f =>
      cases k with
      | nil => exact .ended rfl
      | cons frame k =>
          cases frame with
          | host resume => exact hk.1.elim
          | _ => exact .unwound

end Situation

end ScriptHost
