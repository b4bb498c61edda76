import ScriptHost.Proofs.Machine.Counters
import ScriptHost.Proofs.Machine.Course
import ScriptHost.Proofs.Program.WellPlaced

/-!
Code comes from accepted texts. Whatever a machine runs lies in a text that was accepted, within a
function body there exactly when a function is being run and not a unit. Natives of a host may be
about; all that is asked of them is that they make no code. So no statement of a unit ends at a
return, and nothing is ever assigned to but variables and members.
-/

namespace ScriptHost

variable {p q last : Phrase} {inside : Bool}

/-- The statements lie in accepted texts; those of a unit stand outside of functions. -/
def Closure.Sourced (c : Closure) : Prop := Stmt.SourcedAll (!c.isUnit) c.code.body

/-- If the value is a function, its code comes from an accepted text. -/
def Value.Sourced : Value → Prop
  | .function _ closure => closure.Sourced
  | _ => True

def Completion.Sourced (inside : Bool) : Completion → Prop
  | .normal value => ∀ v ∈ value, v.Sourced
  | .return v => inside = true ∧ v.Sourced

/-- All that objects hold is sourced. -/
def Store.Sourced (s : Store) : Prop := ∀ id, ∀ p ∈ (s.object id).properties, p.2.Sourced

structure Machine.Sourced (m : Machine) : Prop where
  store : m.store.Sourced
  receiver : m.receiver.Sourced

/-- What the host asks for brings in no code but such as comes from accepted texts, if none but such
is given in answer. -/
def HostScript.Sourced : HostScript → Prop
  | .finish v => v.Sourced
  | .fail _ | .raise _ _ => True
  | .invoke receiver callee arguments resume =>
    (receiver.Sourced ∧ callee.Sourced ∧ ∀ v ∈ arguments, v.Sourced) ∧
      ∀ answer, (∀ v, answer = .ok v → v.Sourced) → (resume answer).Sourced
  | .compile _ _ resume => ∀ answer, (∀ v, answer = .ok v → v.Sourced) → (resume answer).Sourced
  | .create bindings resume =>
    (∀ p ∈ bindings, p.2.Sourced) ∧ ∀ v, v.Sourced → (resume v).Sourced
  | .properties _ resume => ∀ found, (∀ p ∈ found, p.2.Sourced) → (resume found).Sourced
  | .armed resume => ∀ answer, (resume answer).Sourced

/-- The natives of the host make no code. -/
def HostTable.Sourced (hosts : HostTable) : Prop :=
  ∀ name arguments, (∀ v ∈ arguments, v.Sourced) → (hosts name arguments).Sourced

/-- Whether a function is called over the frame, and not a unit, if anything is. -/
def Frame.callsFunction? : Frame p q → Option Bool
  | .returnTo _ _ isUnit => some !isUnit
  | .leave => none
  | _ => none

/-- Whether the call under way over these frames is of a function, and not of a unit. -/
def Stack.isInside : {p q : Phrase} → Stack p q → Bool
  | _, _, .nil => false
  | _, _, .cons frame rest => frame.callsFunction?.getD rest.isInside

/-- What is at hand comes from accepted texts, and lies in a function body there just if it is said
to be inside. -/
def Focus.Sourced (inside : Bool) : Focus p → Prop
  | .evaluate e => (Tree.expr e).Sourced inside
  | .execute s => (Tree.stmt s).Sourced inside
  | .executeAll body latest => Stmt.SourcedAll inside body ∧ ∀ v ∈ latest, v.Sourced
  | .invoke receiver callee arguments =>
    receiver.Sourced ∧ callee.Sourced ∧ ∀ v ∈ arguments, v.Sourced
  | .enter receiver closure arguments =>
    receiver.Sourced ∧ closure.Sourced ∧ ∀ v ∈ arguments, v.Sourced
  | .perform script => script.Sourced
  | .value v => v.Sourced
  | .completion c => c.Sourced inside
  | .fault _ => True

def Frame.Sourced (inside : Bool) : Frame p q → Prop
  | .binaryRight _ e | .logicalRight _ e => (Tree.expr e).Sourced inside
  | .assignTo target => (Tree.expr target).Sourced inside ∧ target.isAssignable = true
  | .binaryApply _ v | .assignMember _ _ v => v.Sourced
  | .callMember site _ | .callFunction site =>
    ∀ e ∈ site.arguments, (Tree.expr e).Sourced inside
  | .callArgument _ receiver function done rest =>
    (receiver.Sourced ∧ function.Sourced ∧ ∀ v ∈ done, v.Sourced) ∧
      ∀ e ∈ rest, (Tree.expr e).Sourced inside
  | .objectEntry _ _ rest => ∀ entry ∈ rest, (Tree.expr entry.value).Sourced inside
  | .host resume => ∀ answer, (∀ v, answer = .ok v → v.Sourced) → (resume answer).Sourced
  | .returnTo _ receiver _ => receiver.Sourced
  | .branch thenBranch elseBranch =>
    (Tree.stmt thenBranch).Sourced inside ∧ ∀ s ∈ elseBranch, (Tree.stmt s).Sourced inside
  | .loopTest condition body value | .loopBody condition body value =>
    ((Tree.expr condition).Sourced inside ∧ (Tree.stmt body).Sourced inside) ∧
      ∀ v ∈ value, v.Sourced
  | .sequence rest value => Stmt.SourcedAll inside rest ∧ ∀ v ∈ value, v.Sourced
  | .returnValue => inside = true
  | .leave | .unaryApply _ | .readMember .. | .locate _ | .defineVar _ | .complete => True

def Stack.Sourced : {p q : Phrase} → Stack p q → Prop
  | _, _, .nil => True
  | _, _, .cons frame rest => frame.Sourced rest.isInside ∧ rest.Sourced

structure Situation.Sourced (s : Situation last) : Prop where
  focus : s.focus.Sourced s.stack.isInside
  stack : s.stack.Sourced
  machine : s.machine.Sourced

/-- Nothing that a run comes to is a return. -/
def Ending.Sourced : Ending p → Prop
  | .value v => v.Sourced
  | .completion c => c.Sourced false
  | .fault _ | .stranded _ => True

/-- The fault of an assignment to what cannot be assigned to. -/
def Fault.IsInvalidTarget (f : Fault) : Prop :=
  f.kind = .reference ∧ f.message = "invalid assignment target"

/-- That fault is on its way. -/
def Focus.IsInvalidTarget : Focus p → Prop
  | .fault f => f.IsInvalidTarget
  | _ => False

/-- A native of the host has control. -/
def Focus.IsHost : Focus p → Prop
  | .perform _ => True
  | _ => False

/-- A step leads to sourced code alone. -/
def Progress.Sourced : Progress last → Prop :=
  Leads Situation.Sourced fun m ending => m.Sourced ∧ ending.Sourced

/-- It also raises no fault of an assignment. -/
def Progress.Sound : Progress last → Prop :=
  Leads (fun s => s.Sourced ∧ ¬ s.focus.IsInvalidTarget) fun m ending => m.Sourced ∧ ending.Sourced

theorem Progress.Leads.mono {P P' : Situation last → Prop} {Q Q' : Machine → Ending last → Prop}
    {progress : Progress last} (h : progress.Leads P Q) (hnext : ∀ s, P s → P' s)
    (hhalt : ∀ m ending, Q m ending → Q' m ending) : progress.Leads P' Q' := by
  cases progress with
  | next s => exact hnext s h
  | halt m ending => exact hhalt m ending h

theorem Progress.Sound.sourced {progress : Progress last} (h : progress.Sound) :
    progress.Sourced := h.mono (fun _ hs => hs.1) fun _ _ hhalt => hhalt

theorem Value.sourced_binary (op : BinaryOp) (a b : Value) : (binary op a b).Sourced := by
  cases op with
  | add =>
      unfold binary add
      dsimp only
      split <;> exact trivial
  | _ => exact trivial

theorem Value.sourced_unary (op : UnaryOp) (a : Value) : (unary op a).Sourced := by
  cases op <;> exact trivial

theorem Literal.sourced_value (literal : Literal) : literal.value.Sourced := by
  cases literal <;> exact trivial

theorem sourced_none : ∀ v ∈ (none : Option Value), v.Sourced := by simp

theorem sourced_or {latest value : Option Value} (hlatest : ∀ v ∈ latest, v.Sourced)
    (hvalue : ∀ v ∈ value, v.Sourced) : ∀ v ∈ latest.or value, v.Sourced := by
  cases latest with
  | none => simpa using hvalue
  | some w => simpa using hlatest

theorem sourced_getD {value : Option Value} (h : ∀ v ∈ value, v.Sourced) :
    (value.getD .undefined).Sourced := by
  cases value with
  | none => exact trivial
  | some v => exact h v rfl

namespace Bindings

theorem mem_of_get? {b : Bindings} {name : String} {value : Value} (h : b.get? name = some value) :
    (name, value) ∈ b := by
  obtain ⟨front, rest, rfl, -⟩ := List.lookup_eq_some_iff.mp h
  exact List.mem_append_cons_self

end Bindings

namespace Store

variable {s : Store}

theorem sourced_empty : Store.empty.Sourced := by
  intro id p hp
  cases hp

theorem Sourced.get? (hs : s.Sourced) {id : ObjectId} {name : String} {v : Value}
    (h : s.get? id name = some v) : v.Sourced :=
  hs id (name, v) (Bindings.mem_of_get? h)

theorem Sourced.set (hs : s.Sourced) (id : ObjectId) (name : String) {value : Value}
    (hvalue : value.Sourced) : (s.set id name value).Sourced := by
  intro other p hp
  rcases mem_properties_of_set hp with hold | rfl
  · exact hs other p hold
  · exact hvalue

theorem Sourced.allocate (hs : s.Sourced) (kind : ObjectClass) : (s.allocate kind).2.Sourced := by
  intro id p hp
  rw [properties_allocate] at hp
  exact hs id p hp

theorem Sourced.bindParameters (hs : s.Sourced) (scope : ObjectId) (names : List String)
    {arguments : List Value} (harguments : ∀ v ∈ arguments, v.Sourced) :
    (s.bindParameters scope names arguments).Sourced := by
  induction names generalizing s arguments with
  | nil => exact hs
  | cons name rest ih =>
      rw [Store.bindParameters]
      apply ih
      · apply hs.set
        cases arguments with
        | nil => exact trivial
        | cons v left => exact harguments v List.mem_cons_self
      · intro v hv
        exact harguments v (List.mem_of_mem_tail hv)

theorem Sourced.assign (hs : s.Sourced) (env : Environment) (name : String) {value : Value}
    (hvalue : value.Sourced) : (s.assign env name value).Sourced := by
  induction env with
  | root scope => exact hs.set scope name hvalue
  | child scope parent ih =>
      rw [Store.assign]
      split
      · exact hs.set scope name hvalue
      · exact ih

theorem Sourced.of_lookup (hs : s.Sourced) {env : Environment} {name : String} {v : Value}
    (h : s.lookup env name = some v) : v.Sourced := by
  induction env with
  | root scope => exact hs.get? h
  | child scope parent ih =>
      rw [lookup] at h
      split at h
      · rename_i w hw
        exact Option.some.inj h ▸ hs.get? hw
      · exact ih h

/-- An object that is made with properties brings in no code but theirs. -/
theorem Sourced.setAll (hs : s.Sourced) (id : ObjectId) {bindings : Bindings}
    (h : ∀ p ∈ bindings, p.2.Sourced) :
    (bindings.foldl (fun s p => s.set id p.1 p.2) s).Sourced := by
  induction bindings generalizing s with
  | nil => exact hs
  | cons p rest ih =>
      obtain ⟨hp, hrest⟩ := List.forall_mem_cons.mp h
      exact ih (hs.set id p.1 hp) hrest

end Store

namespace Fault

theorem not_isInvalidTarget_of_kind {kind : FaultKind} (h : kind ≠ .reference) (message : String)
    (span : Option Span) : ¬ IsInvalidTarget ⟨kind, message, span⟩ := fun hinvalid => h hinvalid.1

/-- A name that is not defined is another fault: its text has another end. -/
theorem not_isInvalidTarget_of_name (name : String) (span : Option Span) :
    ¬ IsInvalidTarget ⟨.reference, name ++ " is not defined", span⟩ := by
  rintro ⟨-, hmessage⟩
  have hlast := congrArg (fun s => s.toList.getLast?) hmessage
  simp [String.toList_append, List.getLast?_append] at hlast

end Fault

theorem Progress.sourced_raise {m : Machine} {k : Stack p last} (kind : FaultKind)
    (message : String) (span : Option Span) (hm : m.Sourced) (hk : k.Sourced) :
    (raise m k kind message span).Sourced :=
  leads_raise kind message span ⟨trivial, hk, hm⟩ fun _ => ⟨hm, trivial⟩

theorem Progress.sound_raise {m : Machine} {k : Stack p last} {kind : FaultKind} {message : String}
    {span : Option Span} (hfault : ¬ Fault.IsInvalidTarget ⟨kind, message, span⟩) (hm : m.Sourced)
    (hk : k.Sourced) : (raise m k kind message span).Sound :=
  leads_raise kind message span ⟨⟨trivial, hk, hm⟩, hfault⟩ fun _ => ⟨hm, trivial⟩

/-- The code of a unit that was compiled lies in an accepted text, outside of functions. -/
theorem ScriptUnit.Compiled.sourced {u : ScriptUnit} (h : u.Compiled) : u.closure.Sourced := by
  rw [Closure.Sourced, h.isUnit]
  exact h.isProgram.sourced

namespace Machine

variable {m : Machine}

theorem Sourced.set (hm : m.Sourced) (id : ObjectId) (name : String) {value : Value}
    (hvalue : value.Sourced) : Sourced { m with store := m.store.set id name value } :=
  ⟨hm.store.set id name hvalue, hm.receiver⟩

theorem Sourced.armed (hm : m.Sourced) (trap : Trap) : Sourced { m with trap := trap } :=
  ⟨hm.store, hm.receiver⟩

/-- A function is made of code that lies in a function body. -/
theorem Sourced.close (hm : m.Sourced) {code : FunctionCode}
    (hcode : Stmt.SourcedAll true code.body) :
    (m.close code).1.Sourced ∧ (m.close code).2.Sourced :=
  ⟨hcode, hm.store, hm.receiver⟩

/-! One lemma for each part of a step. -/

theorem sound_readMember {k : Stack .expression last} {owner : Value} {property : String}
    {span : Span} {use : Value → Progress last} (hm : m.Sourced) (hk : k.Sourced)
    (huse : ∀ v, v.Sourced → (use v).Sound) : (m.readMember k owner property span use).Sound := by
  unfold readMember
  split
  · exact huse _ (sourced_getD fun v hv => hm.store.get? hv)
  · apply huse
    split <;> exact trivial
  · exact Progress.sound_raise (Fault.not_isInvalidTarget_of_kind (by decide) _ _) hm hk
  · exact Progress.sound_raise (Fault.not_isInvalidTarget_of_kind (by decide) _ _) hm hk
  · exact huse _ trivial

theorem sound_callWith {k : Stack .expression last} {site : CallSite} {receiver function : Value}
    {done : List Value} {rest : List Expr} (hm : m.Sourced) (hk : k.Sourced)
    (hreceiver : receiver.Sourced) (hfunction : function.Sourced) (hdone : ∀ v ∈ done, v.Sourced)
    (hrest : ∀ e ∈ rest, (Tree.expr e).Sourced k.isInside) :
    (m.callWith k site receiver function done rest).Sound := by
  cases rest with
  | nil =>
      rw [callWith]
      split
      · refine ⟨⟨⟨hreceiver, hfunction, ?_⟩, ⟨trivial, hk⟩, hm⟩, id⟩
        intro v hv
        exact hdone v (List.mem_reverse.mp hv)
      · exact Progress.sound_raise (Fault.not_isInvalidTarget_of_kind (by decide) _ _) hm hk
  | cons argument rest =>
      obtain ⟨hargument, hrest⟩ := List.forall_mem_cons.mp hrest
      exact ⟨⟨hargument, ⟨⟨⟨hreceiver, hfunction, hdone⟩, hrest⟩, hk⟩, hm⟩, id⟩

theorem sound_fillObject {k : Stack .expression last} (id : ObjectId) {entries : List Entry}
    (hm : m.Sourced) (hk : k.Sourced)
    (hentries : ∀ entry ∈ entries, (Tree.expr entry.value).Sourced k.isInside) :
    (m.fillObject k id entries).Sound := by
  cases entries with
  | nil => exact ⟨⟨trivial, hk, hm⟩, fun h => h⟩
  | cons entry rest =>
      obtain ⟨hentry, hrest⟩ := List.forall_mem_cons.mp hentries
      exact ⟨⟨hentry, ⟨hrest, hk⟩, hm⟩, fun h => h⟩

theorem sound_evaluateEntered {k : Stack .expression last} {e : Expr} (hm : m.Sourced)
    (hk : k.Sourced) (hcode : (Tree.expr e).Sourced k.isInside) :
    (m.evaluateEntered k e).Sound := by
  cases e with
  | literal span literal => exact ⟨⟨literal.sourced_value, hk, hm⟩, id⟩
  | «variable» span name =>
      rw [evaluateEntered]
      split
      · rename_i v hv
        exact ⟨⟨hm.store.of_lookup hv, hk, hm⟩, id⟩
      · exact Progress.sound_raise (Fault.not_isInvalidTarget_of_name name _) hm hk
  | this span => exact ⟨⟨hm.receiver, hk, hm⟩, id⟩
  | binary span op left right | logical span op left right =>
      have hright : (Tree.expr right).Sourced k.isInside := hcode.inner rfl List.mem_cons_self
      exact ⟨⟨hcode.left rfl, ⟨hright, hk⟩, hm⟩, id⟩
  | unary span op operand =>
      have hoperand : (Tree.expr operand).Sourced k.isInside := hcode.inner rfl List.mem_cons_self
      unfold evaluateEntered
      split
      all_goals first
        | contradiction
        | exact ⟨⟨trivial, hk, hm⟩, id⟩
        | cases ‹Expr.unary _ _ _ = _›; exact ⟨⟨hoperand, ⟨trivial, hk⟩, hm⟩, id⟩
  | assign span target value =>
      have hvalue : (Tree.expr value).Sourced k.isInside := hcode.inner rfl List.mem_cons_self
      exact ⟨⟨hvalue, ⟨⟨hcode.left rfl, hcode.isAssignable⟩, hk⟩, hm⟩, id⟩
  | call span callee arguments =>
      have hcallee : (Tree.expr callee).Sourced k.isInside := hcode.left rfl
      have harguments : ∀ e ∈ arguments, (Tree.expr e).Sourced k.isInside := by
        intro e he
        exact hcode.inner rfl (List.mem_map_of_mem he)
      cases callee with
      | member ownerSpan owner property =>
          exact ⟨⟨hcallee.left rfl, ⟨harguments, hk⟩, hm⟩, id⟩
      | _ => exact ⟨⟨hcallee, ⟨harguments, hk⟩, hm⟩, id⟩
  | member span owner property => exact ⟨⟨hcode.left rfl, ⟨trivial, hk⟩, hm⟩, id⟩
  | object span entries =>
      have hplain : (m.allocate .plain).2.Sourced := ⟨hm.store.allocate .plain, hm.receiver⟩
      refine sound_fillObject _ hplain hk ?_
      intro entry hentry
      have hpart := List.mem_map_of_mem (f := fun entry : Entry => Tree.expr entry.value) hentry
      exact hcode.inner rfl hpart
  | function span code =>
      have hclosed := hm.close (hcode.body rfl)
      exact ⟨⟨hclosed.1, hk, hclosed.2⟩, id⟩

theorem sound_executeEntered {k : Stack .statement last} {s : Stmt} (hm : m.Sourced)
    (hk : k.Sourced) (hcode : (Tree.stmt s).Sourced k.isInside) : (m.executeEntered k s).Sound := by
  cases s with
  | var span name initial =>
      cases initial with
      | some e =>
          have he : (Tree.expr e).Sourced k.isInside := hcode.inner rfl List.mem_cons_self
          exact ⟨⟨he, ⟨trivial, hk⟩, hm⟩, id⟩
      | none =>
          rw [executeEntered]
          split
          · exact ⟨⟨sourced_none, hk, hm⟩, id⟩
          · exact ⟨⟨sourced_none, hk, hm.set _ _ trivial⟩, id⟩
  | function span code =>
      have hclosed := hm.close (hcode.body rfl)
      unfold executeEntered
      dsimp only
      split
      · exact ⟨⟨sourced_none, hk, hclosed.2.set _ _ hclosed.1⟩, id⟩
      · exact ⟨⟨sourced_none, hk, hclosed.2⟩, id⟩
  | expression span e =>
      have he : (Tree.expr e).Sourced k.isInside := hcode.inner rfl List.mem_cons_self
      exact ⟨⟨he, ⟨trivial, hk⟩, hm⟩, id⟩
  | block span body => exact ⟨⟨⟨hcode.statements rfl rfl, sourced_none⟩, hk, hm⟩, id⟩
  | conditional span condition thenBranch elseBranch =>
      have hcondition : (Tree.expr condition).Sourced k.isInside :=
        hcode.inner rfl List.mem_cons_self
      have hthen : (Tree.stmt thenBranch).Sourced k.isInside :=
        hcode.inner rfl (List.mem_cons_of_mem _ List.mem_cons_self)
      refine ⟨⟨hcondition, ⟨⟨hthen, ?_⟩, hk⟩, hm⟩, id⟩
      intro s hs
      refine hcode.inner rfl (List.mem_cons_of_mem _ (List.mem_cons_of_mem _ ?_))
      exact List.mem_map_of_mem (Option.mem_toList.mpr hs)
  | «while» span condition body =>
      have hcondition : (Tree.expr condition).Sourced k.isInside :=
        hcode.inner rfl List.mem_cons_self
      have hbody : (Tree.stmt body).Sourced k.isInside :=
        hcode.inner rfl (List.mem_cons_of_mem _ List.mem_cons_self)
      exact ⟨⟨hcondition, ⟨⟨⟨hcondition, hbody⟩, sourced_none⟩, hk⟩, hm⟩, id⟩
  | «return» span value =>
      have hinside : k.isInside = true := hcode.inside_of_return
      cases value with
      | some e =>
          have he : (Tree.expr e).Sourced k.isInside := hcode.inner rfl List.mem_cons_self
          exact ⟨⟨he, ⟨hinside, hk⟩, hm⟩, id⟩
      | none => exact ⟨⟨⟨hinside, trivial⟩, hk, hm⟩, id⟩
  | empty span => exact ⟨⟨sourced_none, hk, hm⟩, id⟩

theorem sound_enterClosure {k : Stack .expression last} {receiver : Value} {closure : Closure}
    {arguments : List Value} (hm : m.Sourced) (hk : k.Sourced) (hreceiver : receiver.Sourced)
    (hclosure : closure.Sourced) (harguments : ∀ v ∈ arguments, v.Sourced) :
    (m.enterClosure k receiver closure arguments).Sound := by
  unfold enterClosure
  split
  · exact Progress.sound_raise (Fault.not_isInvalidTarget_of_kind (by decide) _ _) hm hk
  · dsimp only
    split
    · exact ⟨⟨⟨hclosure, sourced_none⟩, ⟨hm.receiver, hk⟩, hm.store, hreceiver⟩, id⟩
    · have hstore := (hm.store.allocate .scope).bindParameters (m.store.allocate .scope).1
        closure.code.parameters harguments
      exact ⟨⟨⟨hclosure, sourced_none⟩, ⟨hm.receiver, hk⟩, hstore, hreceiver⟩, id⟩

theorem sound_print {k : Stack .expression last} (arguments : List Value) (hm : m.Sourced)
    (hk : k.Sourced) : (m.print k arguments).Sound := by
  unfold print
  dsimp only
  split
  · exact ⟨⟨trivial, hk, hm.store, hm.receiver⟩, id⟩
  · exact Progress.sound_raise (Fault.not_isInvalidTarget_of_kind (by decide) _ _) hm hk

theorem sound_evalArgument {k : Stack .expression last} {arguments : List Value} (hm : m.Sourced)
    (hk : k.Sourced) (harguments : ∀ v ∈ arguments, v.Sourced) :
    (m.evalArgument k arguments).Sound := by
  unfold evalArgument
  split
  · exact ⟨⟨trivial, hk, hm⟩, id⟩
  · rename_i source rest
    have hleft : (m.compile evalUnitName source).2.Sourced := ⟨hm.store, hm.receiver⟩
    dsimp only
    split
    · rename_i u hu
      exact ⟨⟨⟨trivial, ScriptUnit.Compiled.sourced ⟨_, _, _, _, hu⟩, by simp⟩, hk, hleft⟩, id⟩
    · exact Progress.sound_raise (Fault.not_isInvalidTarget_of_kind (by decide) _ _) hleft hk
  · exact ⟨⟨harguments _ List.mem_cons_self, hk, hm⟩, id⟩

theorem sound_invoke {k : Stack .expression last} {hosts : HostTable} (hhosts : hosts.Sourced)
    {receiver callee : Value} {arguments : List Value} (hm : m.Sourced) (hk : k.Sourced)
    (hreceiver : receiver.Sourced) (hcallee : callee.Sourced)
    (harguments : ∀ v ∈ arguments, v.Sourced) :
    (m.invoke hosts k receiver arguments callee).Sound := by
  unfold invoke
  split
  · exact ⟨⟨⟨hreceiver, hcallee, harguments⟩, hk, hm⟩, id⟩
  · exact sound_print arguments hm hk
  · exact sound_evalArgument hm hk harguments
  · exact ⟨⟨hhosts _ _ harguments, hk, hm⟩, id⟩
  · exact Progress.sound_raise (Fault.not_isInvalidTarget_of_kind (by decide) _ _) hm hk

/-- What is assigned to can be, so no assignment is refused for its target. -/
theorem sound_assignTo {k : Stack .expression last} {value : Value} {target : Expr}
    (hm : m.Sourced) (hk : k.Sourced) (hvalue : value.Sourced)
    (hcode : (Tree.expr target).Sourced k.isInside) (hassignable : target.isAssignable = true) :
    (m.assignTo k value target).Sound := by
  cases target with
  | «variable» span name => exact ⟨⟨hvalue, hk, hm.store.assign _ _ hvalue, hm.receiver⟩, id⟩
  | member span owner property => exact ⟨⟨hcode.left rfl, ⟨hvalue, hk⟩, hm⟩, id⟩
  | _ => cases hassignable

theorem sound_resumeValue {v : Value} {frame : Frame .expression q} {k : Stack q last}
    (hm : m.Sourced) (hv : v.Sourced) (hframe : frame.Sourced k.isInside) (hk : k.Sourced) :
    (m.resumeValue v frame k).Sound := by
  have hlast : ∀ w ∈ some v, w.Sourced := by simpa using hv
  cases frame with
  | leave => exact ⟨⟨hv, hk, hm.store, hm.receiver⟩, fun h => h⟩
  | binaryRight op right => exact ⟨⟨hframe, ⟨hv, hk⟩, hm⟩, fun h => h⟩
  | binaryApply op left => exact ⟨⟨Value.sourced_binary op left v, hk, hm⟩, fun h => h⟩
  | logicalRight op right =>
      unfold resumeValue
      dsimp only
      split <;> split
      · exact ⟨⟨hv, hk, hm⟩, fun h => h⟩
      · exact ⟨⟨hframe, hk, hm⟩, fun h => h⟩
      · exact ⟨⟨hv, hk, hm⟩, fun h => h⟩
      · exact ⟨⟨hframe, hk, hm⟩, fun h => h⟩
  | unaryApply op => exact ⟨⟨Value.sourced_unary op v, hk, hm⟩, fun h => h⟩
  | assignTo target => exact sound_assignTo hm hk hv hframe.1 hframe.2
  | assignMember span property value =>
      unfold resumeValue
      dsimp only
      split
      · exact ⟨⟨hframe, hk, hm.set _ _ hframe⟩, fun h => h⟩
      · exact Progress.sound_raise (Fault.not_isInvalidTarget_of_kind (by decide) _ _) hm hk
  | readMember span property =>
      unfold resumeValue
      exact sound_readMember hm hk fun w hw => ⟨⟨hw, hk, hm⟩, fun h => h⟩
  | callMember site property =>
      unfold resumeValue
      exact sound_readMember hm hk fun f hf => sound_callWith hm hk hv hf (by simp) hframe
  | callFunction site => exact sound_callWith hm hk trivial hv (by simp) hframe
  | callArgument site receiver function done rest =>
      obtain ⟨⟨hreceiver, hfunction, hdone⟩, hrest⟩ := hframe
      exact sound_callWith hm hk hreceiver hfunction (List.forall_mem_cons.mpr ⟨hv, hdone⟩) hrest
  | locate span => exact ⟨⟨hv, hk, hm⟩, fun h => h⟩
  | objectEntry id key rest => exact sound_fillObject id (hm.set id key hv) hk hframe
  | host resume =>
      have hanswer : ∀ w, (.ok v : Except Fault Value) = .ok w → w.Sourced := by
        rintro _ ⟨⟩
        exact hv
      exact ⟨⟨hframe _ hanswer, hk, hm⟩, fun h => h⟩
  | defineVar name => exact ⟨⟨sourced_none, hk, hm.set _ _ hv⟩, fun h => h⟩
  | complete => exact ⟨⟨hlast, hk, hm⟩, fun h => h⟩
  | branch thenBranch elseBranch =>
      unfold resumeValue
      dsimp only
      split
      · exact ⟨⟨hframe.1, hk, hm⟩, fun h => h⟩
      · split
        · exact ⟨⟨hframe.2 _ rfl, hk, hm⟩, fun h => h⟩
        · exact ⟨⟨sourced_none, hk, hm⟩, fun h => h⟩
  | loopTest condition body value =>
      obtain ⟨⟨hcondition, hbody⟩, hvalue⟩ := hframe
      unfold resumeValue
      dsimp only
      split
      · exact ⟨⟨hbody, ⟨⟨⟨hcondition, hbody⟩, hvalue⟩, hk⟩, hm⟩, fun h => h⟩
      · exact ⟨⟨hvalue, hk, hm⟩, fun h => h⟩
  | returnValue => exact ⟨⟨⟨hframe, hv⟩, hk, hm⟩, fun h => h⟩

/-- The statements of a unit have ended in their turn, as no return was under way. -/
theorem sound_resumeCompletion {c : Completion} {frame : Frame .statement q} {k : Stack q last}
    (hm : m.Sourced) (hc : c.Sourced (Stack.cons frame k).isInside)
    (hframe : frame.Sourced k.isInside) (hk : k.Sourced) :
    (m.resumeCompletion c frame k).Sound := by
  cases frame with
  | leave => exact ⟨⟨hc, hk, hm.store, hm.receiver⟩, id⟩
  | returnTo environment receiver isUnit =>
      refine ⟨⟨?_, hk, hm.store, hframe⟩, id⟩
      cases c with
      | «return» v => exact hc.2
      | normal value =>
          cases isUnit with
          | true => exact sourced_getD hc
          | false => exact trivial
  | loopBody condition body value =>
      obtain ⟨⟨hcondition, hbody⟩, hvalue⟩ := hframe
      cases c with
      | «return» v => exact ⟨⟨hc, hk, hm⟩, id⟩
      | normal latest =>
          exact ⟨⟨hcondition, ⟨⟨⟨hcondition, hbody⟩, sourced_or hc hvalue⟩, hk⟩, hm⟩, id⟩
  | sequence rest value =>
      cases c with
      | «return» v => exact ⟨⟨hc, hk, hm⟩, id⟩
      | normal latest => exact ⟨⟨⟨hframe.1, sourced_or hc hframe.2⟩, hk, hm⟩, id⟩

/-- A fault that passes a frame stays the fault that it is. -/
theorem leads_passFault (f : Fault) {frame : Frame p q} {k : Stack q last} (hm : m.Sourced)
    (hframe : frame.Sourced k.isInside) (hk : k.Sourced) :
    (m.passFault f frame k).Leads
      (fun s => s.Sourced ∧ (s.focus.IsInvalidTarget → f.IsInvalidTarget)) fun _ _ => False := by
  cases frame with
  | host resume => exact ⟨⟨hframe (.error f) (by simp), hk, hm⟩, False.elim⟩
  | leave => exact ⟨⟨trivial, hk, hm.store, hm.receiver⟩, id⟩
  | returnTo environment receiver isUnit => exact ⟨⟨trivial, hk, hm.store, hframe⟩, id⟩
  | _ => exact ⟨⟨trivial, hk, hm⟩, id⟩

theorem sourced_perform {k : Stack .expression last} {script : HostScript} (hm : m.Sourced)
    (hk : k.Sourced) (hscript : script.Sourced) : (m.perform k script).Sourced := by
  cases script with
  | finish v => exact ⟨hscript, hk, hm⟩
  | fail f => exact ⟨trivial, hk, hm⟩
  | raise kind message => exact Progress.sourced_raise kind message none hm hk
  | invoke receiver callee arguments resume => exact ⟨hscript.1, ⟨hscript.2, hk⟩, hm⟩
  | compile name source resume =>
      unfold perform
      dsimp only
      split
      · rename_i u hu
        have hfunction : ∀ v, .ok ((m.compile name source).2.makeFunction u.closure).1 =
            (.ok v : Except CompileError Value) → v.Sourced := by
          rintro _ ⟨⟩
          exact ScriptUnit.Compiled.sourced ⟨_, _, _, _, hu⟩
        exact ⟨hscript _ hfunction, hk, hm.store, hm.receiver⟩
      · exact ⟨hscript _ nofun, hk, hm.store, hm.receiver⟩
  | create bindings resume =>
      exact ⟨hscript.2 _ trivial, hk, (hm.store.allocate .plain).setAll _ hscript.1, hm.receiver⟩
  | properties id resume => exact ⟨hscript _ (hm.store id), hk, hm⟩
  | armed resume => exact ⟨hscript _, hk, hm⟩

end Machine

namespace Situation

variable {hosts : HostTable} {s t : Situation last}

/-- Unless it is on its way or the host has control, no step leads to the fault of an assignment to
what cannot be assigned to. -/
theorem sound_step (hhosts : hosts.Sourced) (hs : s.Sourced) (hfault : ¬ s.focus.IsInvalidTarget)
    (hhost : ¬ s.focus.IsHost) : (s.step hosts).Sound := by
  obtain ⟨phrase, focus, k, m⟩ := s
  obtain ⟨hfocus, hk, hm⟩ := hs
  have hentered : Machine.Sourced { m with nesting := m.nesting + 1 } := ⟨hm.store, hm.receiver⟩
  have hleave {p : Phrase} {k : Stack p last} (hk : k.Sourced) :
      (Stack.cons .leave k).Sourced := ⟨trivial, hk⟩
  have htooDeep : ¬ Fault.IsInvalidTarget ⟨.range, Machine.stackExceeded, none⟩ :=
    Fault.not_isInvalidTarget_of_kind (by decide) _ _
  cases focus with
  | evaluate e =>
      rw [step, Machine.enterPhrase]
      split
      · exact Progress.sound_raise htooDeep hm hk
      · exact Machine.sound_evaluateEntered hentered (hleave hk) hfocus
  | execute s =>
      rw [step, Machine.enterPhrase]
      split
      · exact Progress.sound_raise htooDeep hm hk
      · exact Machine.sound_executeEntered hentered (hleave hk) hfocus
  | executeAll body value =>
      cases body with
      | nil => exact ⟨⟨hfocus.2, hk, hm⟩, id⟩
      | cons s rest =>
          obtain ⟨hs, hrest⟩ := List.forall_mem_cons.mp hfocus.1
          exact ⟨⟨hs, ⟨⟨hrest, hfocus.2⟩, hk⟩, hm⟩, id⟩
  | invoke receiver callee arguments =>
      exact Machine.sound_invoke hhosts hm hk hfocus.1 hfocus.2.1 hfocus.2.2
  | enter receiver closure arguments =>
      exact Machine.sound_enterClosure hm hk hfocus.1 hfocus.2.1 hfocus.2.2
  | perform script => exact absurd trivial hhost
  | value v =>
      cases k with
      | nil => exact ⟨hm, hfocus⟩
      | cons frame k => exact Machine.sound_resumeValue hm hfocus hk.1 hk.2
  | completion c =>
      cases k with
      | nil => exact ⟨hm, hfocus⟩
      | cons frame k => exact Machine.sound_resumeCompletion hm hfocus hk.1 hk.2
  | fault f =>
      cases k with
      | nil => exact ⟨hm, trivial⟩
      | cons frame k =>
          exact (Machine.leads_passFault f hm hk.1 hk.2).mono
            (fun t ht => ⟨ht.1, fun hinvalid => hfault (ht.2 hinvalid)⟩) fun _ _ => False.elim

/-- A step brings in no code but such as comes from an accepted text. -/
theorem sourced_step (hhosts : hosts.Sourced) (hs : s.Sourced) : (s.step hosts).Sourced := by
  obtain ⟨phrase, focus, k, m⟩ := s
  cases focus with
  | perform script => exact Machine.sourced_perform hs.machine hs.stack hs.focus
  | fault f =>
      cases k with
      | nil => exact ⟨hs.machine, trivial⟩
      | cons frame k =>
          exact (Machine.leads_passFault f hs.machine hs.stack.1 hs.stack.2).mono
            (fun _ ht => ht.1) fun _ _ => False.elim
  | _ => exact (sound_step hhosts hs id id).sourced

/-- All through a run the code comes from accepted texts. -/
theorem Sourced.of_passes (hhosts : hosts.Sourced) (hs : s.Sourced) (h : s.Passes hosts t) :
    t.Sourced := by
  induction h with
  | refl => exact hs
  | tail _ hstep ih =>
      have hnext := sourced_step hhosts ih
      rw [hstep] at hnext
      exact hnext

theorem Sourced.of_run (hhosts : hosts.Sourced) (hs : s.Sourced) {fuel : Nat} {n : Machine}
    {ending : Ending last} (h : s.run hosts fuel = some (n, ending)) :
    n.Sourced ∧ ending.Sourced :=
  halt_of_run (fun _ => sourced_step hhosts) hs h

/-- Returns stay in the calls of functions, so the statements of a unit end in their turn; a value
is assigned to nothing but variables and members, and where the fault of another assignment is on
its way, it was so before or comes from the host. -/
structure WellPlaced (hosts : HostTable) (t : Situation last) : Prop where
  inside : ∀ v k m, t = ⟨_, .completion (.return v), k, m⟩ → k.isInside = true
  unit : ∀ c environment receiver k m,
    t = ⟨_, .completion c, .cons (.returnTo environment receiver true) k, m⟩ →
      ∃ value, c = .normal value
  target : ∀ v target k m, t = ⟨_, .value v, .cons (.assignTo target) k, m⟩ →
    target.isAssignable = true
  fault : ∀ p f k m, t.step hosts = .next ⟨p, .fault f, k, m⟩ → f.IsInvalidTarget →
    t.focus.IsInvalidTarget ∨ t.focus.IsHost

theorem Sourced.wellPlaced (hhosts : hosts.Sourced) (ht : t.Sourced) : t.WellPlaced hosts where
  inside v k m heq := by
    subst heq
    exact ht.focus.1
  unit c environment receiver k m heq := by
    subst heq
    cases c with
    | normal value => exact ⟨value, rfl⟩
    | «return» v => exact nomatch ht.focus.1
  target v target k m heq := by
    subst heq
    exact ht.stack.1.2
  fault p f k m hstep hinvalid := by
    by_cases hfault : t.focus.IsInvalidTarget
    · exact .inl hfault
    · by_cases hhost : t.focus.IsHost
      · exact .inr hhost
      · have hsound := sound_step hhosts ht hfault hhost
        rw [hstep] at hsound
        exact absurd hinvalid hsound.2

/-- The call of a closure from an accepted text, with the global object as receiver. -/
theorem sourced_enter {m : Machine} (hm : m.Sourced) {closure : Closure}
    (hclosure : closure.Sourced) :
    (⟨_, .enter m.globalValue closure [], .nil, m⟩ : Situation .expression).Sourced :=
  ⟨⟨trivial, hclosure, by simp⟩, trivial, hm⟩

end Situation

end ScriptHost
