import ScriptHost.Proofs.Machine.HostFree
import ScriptHost.Proofs.Token.Scratch

/-!
Two runs of the same code over different frames. The runs begin with equal stores and outputs and
with the same thing to do, one at counters that leave it more room than the other has. They go the
same way, step for step, until both hand the same result to the frames below, or the one with less
room comes to a limit and raises a range fault.
-/

namespace ScriptHost

variable {p q first second : Phrase}

/-- What a machine may differ in while it goes the way of another. -/
structure Tuning where
  registry : Registry
  scratch : TextBuffer
  depth : Nat
  nesting : Nat
  maxCallDepth : Nat

def Machine.retuned (m : Machine) (t : Tuning) : Machine :=
  { m with
    registry := t.registry
    scratch := t.scratch
    depth := t.depth
    nesting := t.nesting
    maxCallDepth := t.maxCallDepth }

theorem Machine.eq_retuned {m n : Machine} (hstore : n.store = m.store)
    (hglobal : n.global = m.global) (henvironment : n.environment = m.environment)
    (hreceiver : n.receiver = m.receiver) (htrap : n.trap = m.trap) (houtput : n.output = m.output) :
    n = m.retuned ⟨n.registry, n.scratch, n.depth, n.nesting, n.maxCallDepth⟩ := by
  cases m
  cases n
  simp_all [retuned]

/-- The counters of a machine where code begins to run, and the limit on its calls. -/
structure Ground where
  depth : Nat
  nesting : Nat
  maxCallDepth : Nat

/-- On the second ground every limit is reached as soon as on the first. -/
def Ground.Tighter (g h : Ground) : Prop :=
  g.nesting ≤ h.nesting ∧ h.maxCallDepth + g.depth ≤ g.maxCallDepth + h.depth

/-- Calls that a frame returns from. -/
def Frame.calls : Frame p q → Nat
  | .returnTo .. => 1
  | _ => 0

/-- Evaluations that a frame leaves. -/
def Frame.entered : Frame p q → Nat
  | .leave => 1
  | _ => 0

def Stack.calls : {p q : Phrase} → Stack p q → Nat
  | _, _, .nil => 0
  | _, _, .cons frame rest => rest.calls + frame.calls

def Stack.entered : {p q : Phrase} → Stack p q → Nat
  | _, _, .nil => 0
  | _, _, .cons frame rest => rest.entered + frame.entered

/-- The counters of a machine count the frames pushed since the ground. -/
def Machine.Stands (g : Ground) (k : Stack p q) (m : Machine) : Prop :=
  m.depth = g.depth + k.calls ∧ m.nesting = g.nesting + k.entered ∧
    m.maxCallDepth = g.maxCallDepth

/-- A result, which is for the next frame to take. -/
def Focus.IsResult : Focus p → Prop
  | .value _ | .completion _ | .fault _ => True
  | _ => False

/-- The fault that a limit raises. -/
def Ending.IsRangeFault : Ending p → Prop
  | .fault f => f.kind = .range
  | _ => False

namespace Situation

/-- A range fault is on its way. -/
def AtRangeFault : Situation p → Prop
  | ⟨_, .fault f, _, _⟩ => f.kind = .range
  | _ => False

/-- Two situations that are alike but for the frames below and the counters. -/
inductive Lockstep (g h : Ground) (below : Stack q first) (other : Stack q second) :
    Situation first → Situation second → Prop
  | intro {p : Phrase} (f : Focus p) (k : Stack p q) {m : Machine} {t : Tuning}
      (hm : m.Stands g k) (hn : (m.retuned t).Stands h k) (harmed : m.trap.armed = true) :
      Lockstep g h below other ⟨p, f, k.append below, m⟩ ⟨p, f, k.append other, m.retuned t⟩

/-- Two situations that hand the same result to the frames below. -/
inductive Arrived (below : Stack q first) (other : Stack q second) :
    Situation first → Situation second → Prop
  | intro (f : Focus q) (m : Machine) (t : Tuning) (hresult : f.IsResult) :
      Arrived below other ⟨q, f, below, m⟩ ⟨q, f, other, m.retuned t⟩

end Situation

section Steps

variable {g h : Ground} {below : Stack q first} {other : Stack q second} {m : Machine} {t : Tuning}

namespace Progress

/-- Two steps lead to situations that are alike, or the second to a range fault. -/
inductive Lockstep (g h : Ground) (below : Stack q first) (other : Stack q second) :
    Progress first → Progress second → Prop
  | alike {s : Situation first} {s' : Situation second}
      (hstep : s.Lockstep g h below other s') : Lockstep g h below other (.next s) (.next s')
  | limited {progress : Progress first} {s' : Situation second} (hrange : s'.AtRangeFault) :
      Lockstep g h below other progress (.next s')

theorem lockstep_focus {n n' : Machine} (f : Focus p) (k : Stack p q) (hn' : n' = n.retuned t)
    (hn : n.Stands g k) (ht : (n.retuned t).Stands h k) (harmed : n.trap.armed = true) :
    (focus n (k.append below) f).Lockstep g h below other (focus n' (k.append other) f) := by
  subst hn'
  exact .alike (.intro f k hn ht harmed)

theorem lockstep_push {r : Phrase} {n n' : Machine} {frame : Frame p r} (f : Focus p)
    (k : Stack r q) (hn' : n' = n.retuned t) (hn : n.Stands g (.cons frame k))
    (ht : (n.retuned t).Stands h (.cons frame k)) (harmed : n.trap.armed = true) :
    (focus n (.cons frame (k.append below)) f).Lockstep g h below other
      (focus n' (.cons frame (k.append other)) f) :=
  lockstep_focus f (.cons frame k) hn' hn ht harmed

theorem lockstep_raise {k : Stack p q} (kind : FaultKind) (message : String) (span : Option Span)
    (hm : m.Stands g k) (hn : (m.retuned t).Stands h k) (harmed : m.trap.armed = true) :
    (raise m (k.append below) kind message span).Lockstep g h below other
      (raise (m.retuned t) (k.append other) kind message span) := by
  have hraise : m.trap.raise ⟨kind, message, span⟩ = .ok ⟨kind, message, span⟩ :=
    Trap.raise_eq_ok_iff.mpr ⟨harmed, rfl⟩
  have hother : (m.retuned t).trap.raise ⟨kind, message, span⟩ = .ok ⟨kind, message, span⟩ := hraise
  rw [raise, raise, hraise, hother]
  exact lockstep_focus _ k rfl hm hn harmed

theorem lockstep_raise_range {k : Stack p second} {progress : Progress first} {n : Machine}
    (message : String) (span : Option Span) (harmed : n.trap.armed = true) :
    progress.Lockstep g h below other (raise n k .range message span) := by
  have hraise : n.trap.raise ⟨.range, message, span⟩ = .ok ⟨.range, message, span⟩ :=
    Trap.raise_eq_ok_iff.mpr ⟨harmed, rfl⟩
  rw [raise, hraise]
  exact .limited rfl

end Progress
namespace Machine

/-! One lemma for each part of a step. The hypotheses say that the counters of both machines count
the frames of `k`. -/

theorem lockstep_readMember {k : Stack .expression q} {owner : Value} {property : String}
    {span : Span} {use : Value → Progress first} {use' : Value → Progress second}
    (hm : m.Stands g k) (hn : (m.retuned t).Stands h k) (harmed : m.trap.armed = true)
    (huse : ∀ v, (use v).Lockstep g h below other (use' v)) :
    (m.readMember (k.append below) owner property span use).Lockstep g h below other
      ((m.retuned t).readMember (k.append other) owner property span use') := by
  unfold readMember
  cases owner with
  | object id => exact huse _
  | string s => exact huse _
  | undefined | null => exact Progress.lockstep_raise _ _ _ hm hn harmed
  | _ => exact huse _

theorem lockstep_callWith {k : Stack .expression q} {site : CallSite} {receiver function : Value}
    {done : List Value} (rest : List Expr) (hm : m.Stands g k) (hn : (m.retuned t).Stands h k)
    (harmed : m.trap.armed = true) :
    (m.callWith (k.append below) site receiver function done rest).Lockstep g h below other
      ((m.retuned t).callWith (k.append other) site receiver function done rest) := by
  cases rest with
  | nil =>
      rw [callWith, callWith]
      split
      · exact Progress.lockstep_push _ k rfl hm hn harmed
      · exact Progress.lockstep_raise _ _ _ hm hn harmed
  | cons argument rest =>
      exact Progress.lockstep_push _ k rfl hm hn harmed

theorem lockstep_fillObject {k : Stack .expression q} {id : ObjectId} (entries : List Entry)
    (hm : m.Stands g k) (hn : (m.retuned t).Stands h k) (harmed : m.trap.armed = true) :
    (m.fillObject (k.append below) id entries).Lockstep g h below other
      ((m.retuned t).fillObject (k.append other) id entries) := by
  cases entries with
  | nil => exact Progress.lockstep_focus _ k rfl hm hn harmed
  | cons entry rest =>
      exact Progress.lockstep_push _ k rfl hm hn harmed

theorem lockstep_evaluateEntered {k : Stack .expression q} (e : Expr) (hm : m.Stands g k)
    (hn : (m.retuned t).Stands h k) (harmed : m.trap.armed = true) :
    (m.evaluateEntered (k.append below) e).Lockstep g h below other
      ((m.retuned t).evaluateEntered (k.append other) e) := by
  cases e with
  | literal span literal => exact Progress.lockstep_focus _ k rfl hm hn harmed
  | «variable» span name =>
      have hlookup : (m.retuned t).store.lookup (m.retuned t).environment name =
          m.store.lookup m.environment name := rfl
      rw [evaluateEntered, evaluateEntered, hlookup]
      split
      · exact Progress.lockstep_focus _ k rfl hm hn harmed
      · exact Progress.lockstep_raise _ _ _ hm hn harmed
  | this span => exact Progress.lockstep_focus _ k rfl hm hn harmed
  | binary span op left right =>
      exact Progress.lockstep_push _ k rfl hm hn harmed
  | logical span op left right =>
      exact Progress.lockstep_push _ k rfl hm hn harmed
  | unary span op operand =>
      unfold evaluateEntered
      split
      all_goals first
        | contradiction
        | exact Progress.lockstep_focus _ k rfl hm hn harmed
        | exact Progress.lockstep_push _ k rfl hm hn harmed
  | assign span target value =>
      exact Progress.lockstep_push _ k rfl hm hn harmed
  | call span callee arguments =>
      cases callee <;> exact Progress.lockstep_push _ k rfl hm hn harmed
  | member span owner property =>
      exact Progress.lockstep_push _ k rfl hm hn harmed
  | object span entries =>
      exact lockstep_fillObject (m := (m.allocate .plain).2)
        (t := { t with registry := ((m.retuned t).allocate .plain).2.registry }) entries hm hn harmed
  | function span code => exact Progress.lockstep_focus _ k rfl hm hn harmed

theorem lockstep_executeEntered {k : Stack .statement q} (s : Stmt) (hm : m.Stands g k)
    (hn : (m.retuned t).Stands h k) (harmed : m.trap.armed = true) :
    (m.executeEntered (k.append below) s).Lockstep g h below other
      ((m.retuned t).executeEntered (k.append other) s) := by
  cases s with
  | var span name initial =>
      cases initial with
      | some e => exact Progress.lockstep_push _ k rfl hm hn harmed
      | none =>
          have hhas : (m.retuned t).store.has (m.retuned t).environment.scope name =
              m.store.has m.environment.scope name := rfl
          rw [executeEntered, executeEntered, hhas]
          split
          · exact Progress.lockstep_focus _ k rfl hm hn harmed
          · exact Progress.lockstep_focus (n := m.define name .undefined) (t := t) _ k rfl hm hn harmed
  | function span code =>
      unfold executeEntered
      dsimp only
      split
      · exact Progress.lockstep_focus (t := t) _ k rfl hm hn harmed
      · exact Progress.lockstep_focus (t := t) _ k rfl hm hn harmed
  | expression span e => exact Progress.lockstep_push _ k rfl hm hn harmed
  | block span body => exact Progress.lockstep_focus _ k rfl hm hn harmed
  | conditional span condition thenBranch elseBranch =>
      exact Progress.lockstep_push _ k rfl hm hn harmed
  | «while» span condition body =>
      exact Progress.lockstep_push _ k rfl hm hn harmed
  | «return» span value =>
      cases value with
      | some e => exact Progress.lockstep_push _ k rfl hm hn harmed
      | none => exact Progress.lockstep_focus _ k rfl hm hn harmed
  | empty span => exact Progress.lockstep_focus _ k rfl hm hn harmed

theorem lockstep_enterClosure {k : Stack .expression q} (receiver : Value) (closure : Closure)
    (arguments : List Value) (htight : g.Tighter h) (hm : m.Stands g k)
    (hn : (m.retuned t).Stands h k) (harmed : m.trap.armed = true) :
    (m.enterClosure (k.append below) receiver closure arguments).Lockstep g h below other
      ((m.retuned t).enterClosure (k.append other) receiver closure arguments) := by
  obtain ⟨hdepth, hnesting, hmax⟩ := hm
  obtain ⟨hdepth', hnesting', hmax'⟩ := hn
  unfold enterClosure
  by_cases hfull : (m.retuned t).maxCallDepth ≤ (m.retuned t).depth
  · rw [if_pos hfull]
    exact Progress.lockstep_raise_range _ _ harmed
  · have hroom : ¬ m.maxCallDepth ≤ m.depth := by
      have hgap := htight.2
      omega
    rw [if_neg hroom, if_neg hfull]
    have hcount : m.depth + 1 = g.depth + (k.calls + 1) := by omega
    have hcount' : t.depth + 1 = h.depth + (k.calls + 1) := by
      rw [← Nat.add_assoc, ← hdepth']
      rfl
    dsimp only
    split
    · exact Progress.lockstep_push (t := { t with depth := t.depth + 1 }) _ k rfl
        ⟨hcount, hnesting, hmax⟩ ⟨hcount', hnesting', hmax'⟩ harmed
    · exact Progress.lockstep_push (t := { t with
          depth := t.depth + 1, registry := ((m.retuned t).allocate .scope).2.registry }) _ k rfl
        ⟨hcount, hnesting, hmax⟩ ⟨hcount', hnesting', hmax'⟩ harmed

theorem lockstep_print {k : Stack .expression q} (arguments : List Value) (hm : m.Stands g k)
    (hn : (m.retuned t).Stands h k) (harmed : m.trap.armed = true) :
    (m.print (k.append below) arguments).Lockstep g h below other
      ((m.retuned t).print (k.append other) arguments) := by
  have houtput : (m.retuned t).output = m.output := rfl
  unfold print
  dsimp only
  rw [houtput]
  split
  · exact Progress.lockstep_focus (t := t) _ k rfl hm hn harmed
  · exact Progress.lockstep_raise _ _ _ hm hn harmed

theorem lockstep_evalArgument {k : Stack .expression q} (arguments : List Value)
    (hm : m.Stands g k) (hn : (m.retuned t).Stands h k) (harmed : m.trap.armed = true) :
    (m.evalArgument (k.append below) arguments).Lockstep g h below other
      ((m.retuned t).evalArgument (k.append other) arguments) := by
  unfold evalArgument
  split
  · exact Progress.lockstep_focus _ k rfl hm hn harmed
  · rename_i source rest
    have hcompiled : ((m.retuned t).compile evalUnitName source).1 =
        (m.compile evalUnitName source).1 :=
      ScriptUnit.compile_fst_eq _ _ _ _ _
    have hretuned : ((m.retuned t).compile evalUnitName source).2 =
        (m.compile evalUnitName source).2.retuned
          { t with scratch := ((m.retuned t).compile evalUnitName source).2.scratch } := rfl
    dsimp only
    rw [hcompiled, hretuned]
    split
    · exact Progress.lockstep_focus _ k rfl hm hn harmed
    · exact Progress.lockstep_raise _ _ _ hm hn harmed
  · exact Progress.lockstep_focus _ k rfl hm hn harmed

theorem lockstep_invoke {k : Stack .expression q} (hosts : HostTable) (receiver : Value)
    (arguments : List Value) {callee : Value} (hcallee : callee.HostFree) (hm : m.Stands g k)
    (hn : (m.retuned t).Stands h k) (harmed : m.trap.armed = true) :
    (m.invoke hosts (k.append below) receiver arguments callee).Lockstep g h below other
      ((m.retuned t).invoke hosts (k.append other) receiver arguments callee) := by
  unfold invoke
  split
  · exact Progress.lockstep_focus _ k rfl hm hn harmed
  · exact lockstep_print arguments hm hn harmed
  · exact lockstep_evalArgument arguments hm hn harmed
  · exact hcallee.elim
  · exact Progress.lockstep_raise _ _ _ hm hn harmed

theorem lockstep_assignTo {k : Stack .expression q} (value : Value) (target : Expr)
    (hm : m.Stands g k) (hn : (m.retuned t).Stands h k) (harmed : m.trap.armed = true) :
    (m.assignTo (k.append below) value target).Lockstep g h below other
      ((m.retuned t).assignTo (k.append other) value target) := by
  unfold assignTo
  split
  · exact Progress.lockstep_focus (t := t) _ k rfl hm hn harmed
  · exact Progress.lockstep_push _ k rfl hm hn harmed
  · exact Progress.lockstep_raise _ _ _ hm hn harmed

theorem lockstep_left {k : Stack p q} (f : Focus p) (hm : m.Stands g (.cons .leave k))
    (hn : (m.retuned t).Stands h (.cons .leave k)) (harmed : m.trap.armed = true) :
    (Progress.focus m.left (k.append below) f).Lockstep g h below other
      (Progress.focus (m.retuned t).left (k.append other) f) := by
  obtain ⟨hdepth, hnesting, hmax⟩ := hm
  obtain ⟨hdepth', hnesting', hmax'⟩ := hn
  have hcount : m.nesting - 1 = g.nesting + k.entered := by
    rw [hnesting]
    rfl
  have hcount' : (m.retuned t).nesting - 1 = h.nesting + k.entered := by
    rw [hnesting']
    rfl
  exact Progress.lockstep_focus (t := { t with nesting := t.nesting - 1 }) f k rfl
    ⟨hdepth, hcount, hmax⟩ ⟨hdepth', hcount', hmax'⟩ harmed

theorem lockstep_returned {k : Stack .expression q} {environment : Environment} {receiver : Value}
    {isUnit : Bool} (f : Focus .expression)
    (hm : m.Stands g (.cons (.returnTo environment receiver isUnit) k))
    (hn : (m.retuned t).Stands h (.cons (.returnTo environment receiver isUnit) k))
    (harmed : m.trap.armed = true) :
    (Progress.focus (m.returned environment receiver) (k.append below) f).Lockstep g h below other
      (Progress.focus ((m.retuned t).returned environment receiver) (k.append other) f) := by
  obtain ⟨hdepth, hnesting, hmax⟩ := hm
  obtain ⟨hdepth', hnesting', hmax'⟩ := hn
  have hcount : m.depth - 1 = g.depth + k.calls := by
    rw [hdepth]
    rfl
  have hcount' : (m.retuned t).depth - 1 = h.depth + k.calls := by
    rw [hdepth']
    rfl
  exact Progress.lockstep_focus (t := { t with depth := t.depth - 1 }) f k rfl
    ⟨hcount, hnesting, hmax⟩ ⟨hcount', hnesting', hmax'⟩ harmed

theorem lockstep_resumeValue {r : Phrase} (v : Value) {frame : Frame .expression r}
    {k : Stack r q} (hframe : frame.HostFree) (hm : m.Stands g (.cons frame k))
    (hn : (m.retuned t).Stands h (.cons frame k)) (harmed : m.trap.armed = true) :
    (m.resumeValue v frame (k.append below)).Lockstep g h below other
      ((m.retuned t).resumeValue v frame (k.append other)) := by
  cases frame with
  | leave => exact lockstep_left (.value v) hm hn harmed
  | logicalRight op right =>
      unfold resumeValue
      dsimp only
      split <;> split <;> exact Progress.lockstep_focus _ k rfl hm hn harmed
  | assignTo target => exact lockstep_assignTo v target hm hn harmed
  | assignMember span property value =>
      unfold resumeValue
      dsimp only
      split
      · exact Progress.lockstep_focus (t := t) _ k rfl hm hn harmed
      · exact Progress.lockstep_raise _ _ _ hm hn harmed
  | readMember span property =>
      unfold resumeValue
      exact lockstep_readMember hm hn harmed fun w =>
        Progress.lockstep_focus _ k rfl hm hn harmed
  | callMember site property =>
      unfold resumeValue
      exact lockstep_readMember hm hn harmed fun f => lockstep_callWith _ hm hn harmed
  | callFunction site => exact lockstep_callWith _ hm hn harmed
  | callArgument site receiver function done rest => exact lockstep_callWith _ hm hn harmed
  | objectEntry id key rest =>
      exact lockstep_fillObject (m := { m with store := m.store.set id key v }) (t := t) rest
        hm hn harmed
  | host resume => exact hframe.elim
  | defineVar name => exact Progress.lockstep_focus (t := t) _ k rfl hm hn harmed
  | branch thenBranch elseBranch =>
      unfold resumeValue
      dsimp only
      split
      · exact Progress.lockstep_focus _ k rfl hm hn harmed
      · split
        · exact Progress.lockstep_focus _ k rfl hm hn harmed
        · exact Progress.lockstep_focus _ k rfl hm hn harmed
  | loopTest condition body value =>
      unfold resumeValue
      dsimp only
      split
      · exact Progress.lockstep_push _ k rfl hm hn harmed
      · exact Progress.lockstep_focus _ k rfl hm hn harmed
  | binaryRight => exact Progress.lockstep_push _ k rfl hm hn harmed
  | binaryApply | unaryApply | locate | complete | returnValue =>
      exact Progress.lockstep_focus _ k rfl hm hn harmed

theorem lockstep_resumeCompletion {r : Phrase} (c : Completion) {frame : Frame .statement r}
    {k : Stack r q} (hm : m.Stands g (.cons frame k)) (hn : (m.retuned t).Stands h (.cons frame k))
    (harmed : m.trap.armed = true) :
    (m.resumeCompletion c frame (k.append below)).Lockstep g h below other
      ((m.retuned t).resumeCompletion c frame (k.append other)) := by
  cases frame with
  | leave => exact lockstep_left (.completion c) hm hn harmed
  | returnTo environment receiver isUnit => exact lockstep_returned _ hm hn harmed
  | loopBody condition body value =>
      cases c with
      | normal latest => exact Progress.lockstep_push _ k rfl hm hn harmed
      | «return» v => exact Progress.lockstep_focus _ k rfl hm hn harmed
  | sequence rest value =>
      cases c <;> exact Progress.lockstep_focus _ k rfl hm hn harmed

theorem lockstep_passFault {r : Phrase} (f : Fault) {frame : Frame p r} {k : Stack r q}
    (hframe : frame.HostFree) (hm : m.Stands g (.cons frame k))
    (hn : (m.retuned t).Stands h (.cons frame k)) (harmed : m.trap.armed = true) :
    (m.passFault f frame (k.append below)).Lockstep g h below other
      ((m.retuned t).passFault f frame (k.append other)) := by
  cases frame with
  | leave => exact lockstep_left (.fault f) hm hn harmed
  | returnTo environment receiver isUnit => exact lockstep_returned _ hm hn harmed
  | host resume => exact hframe.elim
  | _ => exact Progress.lockstep_focus _ k rfl hm hn harmed

theorem lockstep_enterPhrase {k : Stack p q} {entered : Machine → Stack p first → Progress first}
    {entered' : Machine → Stack p second → Progress second} (htight : g.Tighter h)
    (hm : m.Stands g k) (hn : (m.retuned t).Stands h k) (harmed : m.trap.armed = true)
    (hentered : ∀ {n : Machine} {u : Tuning} {l : Stack p q}, n.Stands g l →
      (n.retuned u).Stands h l → n.trap.armed = true →
        (entered n (l.append below)).Lockstep g h below other
          (entered' (n.retuned u) (l.append other))) :
    (m.enterPhrase (k.append below) entered).Lockstep g h below other
      ((m.retuned t).enterPhrase (k.append other) entered') := by
  obtain ⟨hdepth, hnesting, hmax⟩ := hm
  obtain ⟨hdepth', hnesting', hmax'⟩ := hn
  unfold enterPhrase
  by_cases hfull : maxNesting ≤ (m.retuned t).nesting
  · rw [if_pos hfull]
    exact Progress.lockstep_raise_range _ _ harmed
  · have hroom : ¬ maxNesting ≤ m.nesting := by
      have hgap := htight.1
      omega
    rw [if_neg hroom, if_neg hfull]
    have hcount : m.nesting + 1 = g.nesting + (k.entered + 1) := by omega
    have hcount' : (m.retuned t).nesting + 1 = h.nesting + (k.entered + 1) := by omega
    exact hentered (u := { t with nesting := t.nesting + 1 }) (l := .cons .leave k)
      ⟨hdepth, hcount, hmax⟩ ⟨hdepth', hcount', hmax'⟩ harmed

end Machine

namespace Situation

/-- Two situations that are alike take steps that are alike, unless they have arrived. -/
theorem lockstep_step (hosts : HostTable) (htight : g.Tighter h) {s : Situation first}
    {s' : Situation second} (hs : s.Lockstep g h below other s') (hfree : s'.HostFree) :
    s.Arrived below other s' ∨ (s.step hosts).Lockstep g h below other (s'.step hosts) := by
  obtain ⟨f, k, hm, hn, harmed⟩ := hs
  cases f with
  | evaluate e =>
      rw [step, step]
      exact .inr (Machine.lockstep_enterPhrase htight hm hn harmed fun hm hn harmed =>
        Machine.lockstep_evaluateEntered e hm hn harmed)
  | execute s =>
      rw [step, step]
      exact .inr (Machine.lockstep_enterPhrase htight hm hn harmed fun hm hn harmed =>
        Machine.lockstep_executeEntered s hm hn harmed)
  | executeAll body value =>
      cases body with
      | nil => exact .inr (Progress.lockstep_focus _ k rfl hm hn harmed)
      | cons s rest => exact .inr (Progress.lockstep_push _ k rfl hm hn harmed)
  | invoke receiver callee arguments =>
      exact .inr (Machine.lockstep_invoke hosts receiver arguments hfree.focus.2.1 hm hn harmed)
  | enter receiver closure arguments =>
      exact .inr (Machine.lockstep_enterClosure receiver closure arguments htight hm hn harmed)
  | perform script => exact hfree.focus.elim
  | value v =>
      cases k with
      | nil => exact .inl (.intro _ _ _ trivial)
      | cons frame k => exact .inr (Machine.lockstep_resumeValue v hfree.stack.1 hm hn harmed)
  | completion c =>
      cases k with
      | nil => exact .inl (.intro _ _ _ trivial)
      | cons frame k => exact .inr (Machine.lockstep_resumeCompletion c hm hn harmed)
  | fault f =>
      cases k with
      | nil => exact .inl (.intro _ _ _ trivial)
      | cons frame k => exact .inr (Machine.lockstep_passFault f hfree.stack.1 hm hn harmed)

variable {hosts : HostTable}

theorem isRangeFault_of_run {fuel : Nat} {s : Situation second} {n : Machine}
    {ending : Ending second} (hs : s.AtRangeFault) (hfree : s.HostFree)
    (hrun : s.run hosts fuel = some (n, ending)) : ending.IsRangeFault := by
  obtain ⟨phrase, focus, k, m⟩ := s
  cases focus with
  | fault f =>
      obtain ⟨last, rfl, hkind, -⟩ := fault_of_run hfree.stack hrun
      exact hkind.trans hs
  | _ => exact hs.elim

/-- Two runs that begin alike hand the same result to the frames below, unless the second ends in a
range fault. -/
theorem arrived_of_run (htight : g.Tighter h) {fuel fuel' : Nat} {s : Situation first}
    {s' : Situation second} {m' n' : Machine} {ending : Ending first} {ending' : Ending second}
    (hs : s.Lockstep g h below other s') (hfree : s'.HostFree)
    (hrun : s.run hosts fuel = some (m', ending))
    (hrun' : s'.run hosts fuel' = some (n', ending')) :
    ending'.IsRangeFault ∨ ∃ t t' left left', Arrived below other t t' ∧
      t.run hosts left = some (m', ending) ∧ t'.run hosts left' = some (n', ending') := by
  induction fuel' generalizing fuel s s' with
  | zero => simp [run] at hrun'
  | succ fuel' ih =>
      rcases lockstep_step hosts htight hs hfree with harrived | hstep
      · exact .inr ⟨s, s', fuel, fuel' + 1, harrived, hrun, hrun'⟩
      · have hfree' := hostFree_step hosts hfree
        rw [run] at hrun'
        generalize hp' : s'.step hosts = progress' at hstep hfree' hrun'
        generalize hp : s.step hosts = progress at hstep
        cases hstep with
        | alike halike =>
            cases fuel with
            | zero => simp [run] at hrun
            | succ fuel =>
                rw [run, hp] at hrun
                exact ih halike hfree' hrun hrun'
        | limited hrange => exact .inl (isRangeFault_of_run hrange hfree' hrun')

/-- Where the result is for one frame of a call alone, both runs end in the same way. -/
theorem ending_of_arrived {environment environment' : Environment} {receiver receiver' : Value}
    {isUnit : Bool} {fuel fuel' : Nat} {s s' : Situation .expression} {n n' : Machine}
    {ending ending' : Ending .expression}
    (harrived : s.Arrived (.cons (.returnTo environment receiver isUnit) .nil)
      (.cons (.returnTo environment' receiver' isUnit) .nil) s')
    (hrun : s.run hosts fuel = some (n, ending))
    (hrun' : s'.run hosts fuel' = some (n', ending')) :
    ending' = ending ∧ n'.store = n.store ∧ n'.output = n.output := by
  have hlonger := run_add hrun 2
  have hlonger' := run_add hrun' 2
  cases harrived with
  | intro f m t hresult =>
      cases f with
      | execute | executeAll => exact hresult.elim
      | completion | fault =>
          obtain ⟨rfl, rfl⟩ := Prod.mk.inj (Option.some.inj hlonger)
          obtain ⟨rfl, rfl⟩ := Prod.mk.inj (Option.some.inj hlonger')
          exact ⟨rfl, rfl, rfl⟩

end Situation

end Steps

end ScriptHost
