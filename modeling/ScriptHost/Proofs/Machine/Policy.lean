import ScriptHost.Proofs.Machine.Context
import ScriptHost.Proofs.Program.Levels
import ScriptHost.Proofs.Store.Bindings
import ScriptHost.Proofs.Token.Scratch

/-!
What holds of every value, every environment and all code that a run meets. Scripts make objects,
functions and scopes out of those that they have, and code only out of texts that they pass to eval;
so a policy that grants what a step makes anew is obeyed all through a run.
-/

namespace ScriptHost

variable {p q last : Phrase}

/-- What is asked of the objects that values refer to, of environments and of code. What is asked of
a tree is asked of its parts. -/
structure Policy where
  object : ObjectId → Prop
  environment : Environment → Prop
  code : Tree → Prop
  left : ∀ {t : Tree} {e : Expr}, code t → t.leftPart? = some e → code (.expr e)
  inner : ∀ {t u : Tree}, code t → u ∈ t.innerParts → code u

/-- What is asked of the statements of a body. -/
def Policy.body (P : Policy) (body : List Stmt) : Prop := ∀ s ∈ body, P.code (.stmt s)

def Closure.Obeys (P : Policy) (c : Closure) : Prop :=
  P.environment c.environment ∧ P.body c.code.body

/-- The value refers to no object and no code that is refused, and is no native of a host. -/
def Value.Obeys (P : Policy) : Value → Prop
  | .object id => P.object id
  | .function _ closure => closure.Obeys P
  | .native _ (.host _) => False
  | _ => True

def Completion.Obeys (P : Policy) : Completion → Prop
  | .normal value => ∀ v ∈ value, v.Obeys P
  | .return v => v.Obeys P

def Ending.Obeys (P : Policy) : Ending p → Prop
  | .value v => v.Obeys P
  | .completion c => c.Obeys P
  | .fault _ | .stranded _ => True

def Store.Obeys (P : Policy) (s : Store) : Prop :=
  ∀ id name v, s.get? id name = some v → v.Obeys P

structure Machine.Obeys (P : Policy) (m : Machine) : Prop where
  store : m.store.Obeys P
  receiver : m.receiver.Obeys P
  environment : P.environment m.environment
  global : P.object m.global
  root : P.environment m.globalEnvironment

def Focus.Obeys (P : Policy) : Focus p → Prop
  | .evaluate e => P.code (.expr e)
  | .execute s => P.code (.stmt s)
  | .executeAll body latest => P.body body ∧ ∀ v ∈ latest, v.Obeys P
  | .invoke receiver callee arguments =>
    receiver.Obeys P ∧ callee.Obeys P ∧ ∀ v ∈ arguments, v.Obeys P
  | .enter receiver closure arguments =>
    receiver.Obeys P ∧ closure.Obeys P ∧ ∀ v ∈ arguments, v.Obeys P
  | .perform _ => False
  | .value v => v.Obeys P
  | .completion c => c.Obeys P
  | .fault _ => True

/-- What a frame keeps of a loop is the code of the loop. -/
def Frame.Obeys (P : Policy) : Frame p q → Prop
  | .binaryRight _ e | .logicalRight _ e | .assignTo e => P.code (.expr e)
  | .binaryApply _ v | .assignMember _ _ v => v.Obeys P
  | .callMember site _ | .callFunction site => ∀ e ∈ site.arguments, P.code (.expr e)
  | .callArgument _ receiver function done rest =>
    (receiver.Obeys P ∧ function.Obeys P ∧ ∀ v ∈ done, v.Obeys P) ∧ ∀ e ∈ rest, P.code (.expr e)
  | .objectEntry id _ rest => P.object id ∧ ∀ entry ∈ rest, P.code (.expr entry.value)
  | .host _ => False
  | .returnTo environment receiver _ => P.environment environment ∧ receiver.Obeys P
  | .branch thenBranch elseBranch =>
    P.code (.stmt thenBranch) ∧ ∀ s ∈ elseBranch, P.code (.stmt s)
  | .loopTest condition body value | .loopBody condition body value =>
    (∃ span, P.code (.stmt (.while span condition body))) ∧ ∀ v ∈ value, v.Obeys P
  | .sequence rest value => P.body rest ∧ ∀ v ∈ value, v.Obeys P
  | .leave | .unaryApply _ | .readMember .. | .locate _ | .defineVar _ | .complete
  | .returnValue => True

def Stack.Obeys (P : Policy) : {p q : Phrase} → Stack p q → Prop
  | _, _, .nil => True
  | _, _, .cons frame rest => frame.Obeys P ∧ rest.Obeys P

structure Situation.Obeys (P : Policy) (s : Situation last) : Prop where
  focus : s.focus.Obeys P
  stack : s.stack.Obeys P
  machine : s.machine.Obeys P

/-- The policy lets the next step have what it makes anew: an object, the scope of a call, or the
code of a text. -/
def Policy.Grants (P : Policy) : Situation last → Prop
  | ⟨_, .evaluate (.object _ _), _, m⟩ =>
    m.nesting < maxNesting → P.object (m.store.allocate .plain).1
  | ⟨_, .enter _ closure _, _, m⟩ =>
    m.depth < m.maxCallDepth → closure.isUnit = false →
      P.environment (.child (m.store.allocate .scope).1 closure.environment)
  | ⟨_, .invoke _ (.native _ .eval) (.string source :: _), _, _⟩ =>
    ∀ body, (programOfSource source .empty).1 = .ok body → P.body body
  | _ => True

variable {P : Policy}

theorem Value.obeys_binary (op : BinaryOp) (a b : Value) : (binary op a b).Obeys P := by
  cases op with
  | add =>
      unfold binary add
      dsimp only
      split <;> exact trivial
  | _ => exact trivial

theorem Value.obeys_unary (op : UnaryOp) (a : Value) : (unary op a).Obeys P := by
  cases op <;> exact trivial

theorem Literal.obeys_value (literal : Literal) : literal.value.Obeys P := by
  cases literal <;> exact trivial

theorem obeys_or {latest value : Option Value} (hlatest : ∀ v ∈ latest, v.Obeys P)
    (hvalue : ∀ v ∈ value, v.Obeys P) : ∀ v ∈ latest.or value, v.Obeys P := by
  cases latest with
  | none => simpa using hvalue
  | some w => simpa using hlatest

theorem obeys_getD {value : Option Value} (h : ∀ v ∈ value, v.Obeys P) :
    (value.getD .undefined).Obeys P := by
  cases value with
  | none => exact trivial
  | some v => exact h v rfl

theorem obeys_none : ∀ v ∈ (none : Option Value), v.Obeys P := by simp

theorem Policy.body_of_code {t : Tree} {body : List Stmt} (h : P.code t)
    (hparts : t.innerParts = body.map .stmt) : P.body body := by
  intro s hs
  exact P.inner h (hparts ▸ List.mem_map_of_mem hs)

namespace Store

variable {s : Store}

theorem Obeys.set (hs : s.Obeys P) (id : ObjectId) (name : String) {value : Value}
    (hvalue : value.Obeys P) : (s.set id name value).Obeys P := by
  intro other key v hv
  rw [get?_set] at hv
  split at hv
  · exact Option.some.inj hv ▸ hvalue
  · exact hs other key v hv

theorem Obeys.allocate (hs : s.Obeys P) (kind : ObjectClass) : (s.allocate kind).2.Obeys P := by
  intro id name v hv
  rw [get?_allocate] at hv
  exact hs id name v hv

theorem Obeys.bindParameters (hs : s.Obeys P) (scope : ObjectId) (names : List String)
    {arguments : List Value} (harguments : ∀ v ∈ arguments, v.Obeys P) :
    (s.bindParameters scope names arguments).Obeys P := by
  induction names generalizing s arguments with
  | nil => exact hs
  | cons name rest ih =>
      rw [Store.bindParameters]
      apply ih
      · apply hs.set
        cases arguments with
        | nil => exact trivial
        | cons v left => exact harguments v List.mem_cons_self
      · intro v hv
        exact harguments v (List.mem_of_mem_tail hv)

theorem Obeys.assign (hs : s.Obeys P) (env : Environment) (name : String) {value : Value}
    (hvalue : value.Obeys P) : (s.assign env name value).Obeys P := by
  induction env with
  | root scope => exact hs.set scope name hvalue
  | child scope parent ih =>
      rw [Store.assign]
      split
      · exact hs.set scope name hvalue
      · exact ih

theorem Obeys.of_lookup (hs : s.Obeys P) {env : Environment} {name : String} {v : Value}
    (h : s.lookup env name = some v) : v.Obeys P := by
  induction env with
  | root scope => exact hs scope name v h
  | child scope parent ih =>
      rw [lookup] at h
      split at h
      · rename_i w hw
        exact Option.some.inj h ▸ hs scope name w hw
      · exact ih h

theorem obeys_empty : Store.empty.Obeys P := by
  intro id name v hv
  cases hv

end Store

/-- A step leads to nothing that the policy refuses. -/
def Progress.Obeys (P : Policy) : Progress last → Prop :=
  Leads (Situation.Obeys P) fun m ending => m.Obeys P ∧ ending.Obeys P

theorem Progress.obeys_raise {m : Machine} {k : Stack p last} (kind : FaultKind)
    (message : String) (span : Option Span) (hm : m.Obeys P) (hk : k.Obeys P) :
    (raise m k kind message span).Obeys P := by
  unfold raise
  split
  · exact ⟨trivial, hk, hm⟩
  · exact ⟨hm, trivial⟩

namespace Machine

variable {m : Machine}

theorem Obeys.of_store {n : Machine} (hm : m.Obeys P) (hstore : n.store.Obeys P)
    (hcontext : n.context = m.context) : n.Obeys P := by
  simp only [context, Context.mk.injEq] at hcontext
  obtain ⟨henvironment, hreceiver, -, -, -, hglobal, -⟩ := hcontext
  refine ⟨hstore, hreceiver ▸ hm.receiver, henvironment ▸ hm.environment, hglobal ▸ hm.global, ?_⟩
  rw [globalEnvironment, hglobal]
  exact hm.root

theorem Obeys.set (hm : m.Obeys P) (id : ObjectId) (name : String) {value : Value}
    (hvalue : value.Obeys P) : { m with store := m.store.set id name value }.Obeys P :=
  hm.of_store (hm.store.set id name hvalue) rfl

theorem Obeys.nested (hm : m.Obeys P) (nesting : Nat) : { m with nesting := nesting }.Obeys P :=
  ⟨hm.store, hm.receiver, hm.environment, hm.global, hm.root⟩

/-- A function that is closed over the present environment obeys as that and its code do. -/
theorem Obeys.close (hm : m.Obeys P) {code : FunctionCode} (hcode : P.body code.body) :
    (m.close code).1.Obeys P ∧ (m.close code).2.Obeys P :=
  ⟨⟨hm.environment, hcode⟩, hm.of_store (n := (m.close code).2) hm.store rfl⟩

theorem obeys_install {code : NativeCode} (hcode : ∀ name, code ≠ .host name)
    (hm : m.Obeys P) : (m.install code).Obeys P := by
  refine hm.of_store (Store.Obeys.set (s := (m.makeNative code).2.store) hm.store _ _ ?_) rfl
  cases code with
  | host name => exact absurd rfl (hcode name)
  | print | eval => exact trivial

theorem obeys_create {s : Store} (hs : s.Obeys P) (config : Config) (output : Output)
    (hglobal : P.object (s.allocate .global).1)
    (hroot : P.environment (.root (s.allocate .global).1)) : (create s config output).Obeys P := by
  apply obeys_install (by simp)
  apply obeys_install (by simp)
  exact ⟨hs.allocate .global, hglobal, hroot, hglobal, hroot⟩

/-! One lemma for each part of a step. -/

theorem obeys_readMember {k : Stack .expression last} {owner : Value} {property : String}
    {span : Span} {use : Value → Progress last} (hm : m.Obeys P) (hk : k.Obeys P)
    (huse : ∀ v, v.Obeys P → (use v).Obeys P) :
    (m.readMember k owner property span use).Obeys P := by
  unfold readMember
  split
  · rename_i id
    exact huse _ (obeys_getD fun v hv => hm.store id property v hv)
  · apply huse
    split <;> exact trivial
  · exact Progress.obeys_raise _ _ _ hm hk
  · exact Progress.obeys_raise _ _ _ hm hk
  · exact huse _ trivial

theorem obeys_callWith {k : Stack .expression last} {site : CallSite}
    {receiver function : Value} {done : List Value} {rest : List Expr} (hm : m.Obeys P)
    (hk : k.Obeys P) (hreceiver : receiver.Obeys P) (hfunction : function.Obeys P)
    (hdone : ∀ v ∈ done, v.Obeys P) (hrest : ∀ e ∈ rest, P.code (.expr e)) :
    (m.callWith k site receiver function done rest).Obeys P := by
  cases rest with
  | nil =>
      rw [callWith]
      split
      · refine ⟨⟨hreceiver, hfunction, ?_⟩, ⟨trivial, hk⟩, hm⟩
        intro v hv
        exact hdone v (List.mem_reverse.mp hv)
      · exact Progress.obeys_raise _ _ _ hm hk
  | cons argument rest =>
      obtain ⟨hargument, hrest⟩ := List.forall_mem_cons.mp hrest
      exact ⟨hargument, ⟨⟨⟨hreceiver, hfunction, hdone⟩, hrest⟩, hk⟩, hm⟩

theorem obeys_fillObject {k : Stack .expression last} {id : ObjectId} {entries : List Entry}
    (hm : m.Obeys P) (hk : k.Obeys P) (hid : P.object id)
    (hentries : ∀ entry ∈ entries, P.code (.expr entry.value)) :
    (m.fillObject k id entries).Obeys P := by
  cases entries with
  | nil => exact ⟨hid, hk, hm⟩
  | cons entry rest =>
      obtain ⟨hentry, hrest⟩ := List.forall_mem_cons.mp hentries
      exact ⟨hentry, ⟨⟨hid, hrest⟩, hk⟩, hm⟩

theorem obeys_evaluateEntered {k : Stack .expression last} {e : Expr} (hm : m.Obeys P)
    (hk : k.Obeys P) (hcode : P.code (.expr e))
    (hplain : ∀ span entries, e = .object span entries → P.object (m.store.allocate .plain).1) :
    (m.evaluateEntered k e).Obeys P := by
  cases e with
  | literal span literal => exact ⟨literal.obeys_value, hk, hm⟩
  | «variable» span name =>
      rw [evaluateEntered]
      split
      · rename_i v hv
        exact ⟨hm.store.of_lookup hv, hk, hm⟩
      · exact Progress.obeys_raise _ _ _ hm hk
  | this span => exact ⟨hm.receiver, hk, hm⟩
  | binary span op left right | logical span op left right =>
      have hright : P.code (.expr right) := P.inner hcode List.mem_cons_self
      exact ⟨P.left hcode rfl, ⟨hright, hk⟩, hm⟩
  | unary span op operand =>
      have hoperand : P.code (.expr operand) := P.inner hcode List.mem_cons_self
      unfold evaluateEntered
      split
      all_goals first
        | contradiction
        | exact ⟨trivial, hk, hm⟩
        | cases ‹Expr.unary _ _ _ = _›; exact ⟨hoperand, ⟨trivial, hk⟩, hm⟩
  | assign span target value =>
      have hvalue : P.code (.expr value) := P.inner hcode List.mem_cons_self
      exact ⟨hvalue, ⟨P.left hcode rfl, hk⟩, hm⟩
  | call span callee arguments =>
      have hcallee : P.code (.expr callee) := P.left hcode rfl
      have harguments : ∀ e ∈ arguments, P.code (.expr e) := by
        intro e he
        exact P.inner hcode (List.mem_map_of_mem he)
      cases callee with
      | member ownerSpan owner property =>
          exact ⟨P.left hcallee rfl, ⟨harguments, hk⟩, hm⟩
      | _ => exact ⟨hcallee, ⟨harguments, hk⟩, hm⟩
  | member span owner property => exact ⟨P.left hcode rfl, ⟨trivial, hk⟩, hm⟩
  | object span entries =>
      refine obeys_fillObject (m := (m.allocate .plain).2)
        (hm.of_store (hm.store.allocate .plain) rfl) hk (hplain span entries rfl) ?_
      intro entry hentry
      exact P.inner hcode (List.mem_map_of_mem (f := fun entry : Entry => Tree.expr entry.value) hentry)
  | function span code =>
      have hclosed := hm.close (P.body_of_code hcode rfl)
      exact ⟨hclosed.1, hk, hclosed.2⟩

theorem obeys_executeEntered {k : Stack .statement last} {s : Stmt} (hm : m.Obeys P)
    (hk : k.Obeys P) (hcode : P.code (.stmt s)) : (m.executeEntered k s).Obeys P := by
  cases s with
  | var span name initial =>
      cases initial with
      | some e =>
          have he : P.code (.expr e) := P.inner hcode List.mem_cons_self
          exact ⟨he, ⟨trivial, hk⟩, hm⟩
      | none =>
          rw [executeEntered]
          split
          · exact ⟨obeys_none, hk, hm⟩
          · exact ⟨obeys_none, hk, hm.set _ _ trivial⟩
  | function span code =>
      have hclosed := hm.close (P.body_of_code hcode rfl)
      unfold executeEntered
      dsimp only
      split
      · exact ⟨obeys_none, hk, hclosed.2.set _ _ hclosed.1⟩
      · exact ⟨obeys_none, hk, hclosed.2⟩
  | expression span e =>
      have he : P.code (.expr e) := P.inner hcode List.mem_cons_self
      exact ⟨he, ⟨trivial, hk⟩, hm⟩
  | block span body => exact ⟨⟨P.body_of_code hcode rfl, obeys_none⟩, hk, hm⟩
  | conditional span condition thenBranch elseBranch =>
      have hcondition : P.code (.expr condition) := P.inner hcode List.mem_cons_self
      have hthen : P.code (.stmt thenBranch) :=
        P.inner hcode (List.mem_cons_of_mem _ List.mem_cons_self)
      refine ⟨hcondition, ⟨⟨hthen, ?_⟩, hk⟩, hm⟩
      intro s hs
      refine P.inner hcode (List.mem_cons_of_mem _ (List.mem_cons_of_mem _ ?_))
      exact List.mem_map_of_mem (Option.mem_toList.mpr hs)
  | «while» span condition body =>
      have hcondition : P.code (.expr condition) := P.inner hcode List.mem_cons_self
      exact ⟨hcondition, ⟨⟨⟨span, hcode⟩, obeys_none⟩, hk⟩, hm⟩
  | «return» span value =>
      cases value with
      | some e =>
          have he : P.code (.expr e) := P.inner hcode List.mem_cons_self
          exact ⟨he, ⟨trivial, hk⟩, hm⟩
      | none => exact ⟨trivial, hk, hm⟩
  | empty span => exact ⟨obeys_none, hk, hm⟩

theorem obeys_enterClosure {k : Stack .expression last} {receiver : Value} {closure : Closure}
    {arguments : List Value} (hm : m.Obeys P) (hk : k.Obeys P) (hreceiver : receiver.Obeys P)
    (hclosure : closure.Obeys P) (harguments : ∀ v ∈ arguments, v.Obeys P)
    (hscope : m.depth < m.maxCallDepth → closure.isUnit = false →
      P.environment (.child (m.store.allocate .scope).1 closure.environment)) :
    (m.enterClosure k receiver closure arguments).Obeys P := by
  have hback : (Frame.returnTo m.environment m.receiver closure.isUnit).Obeys P :=
    ⟨hm.environment, hm.receiver⟩
  unfold enterClosure
  split
  · exact Progress.obeys_raise _ _ _ hm hk
  · rename_i hroom
    dsimp only
    split
    · exact ⟨⟨hclosure.2, obeys_none⟩, ⟨hback, hk⟩, hm.store, hreceiver, hclosure.1, hm.global,
        hm.root⟩
    · rename_i hunit
      have henvironment := hscope (Nat.not_le.mp hroom) (Bool.eq_false_iff.mpr hunit)
      have hstore := (hm.store.allocate .scope).bindParameters (m.store.allocate .scope).1
        closure.code.parameters harguments
      exact ⟨⟨hclosure.2, obeys_none⟩, ⟨hback, hk⟩, hstore, hreceiver, henvironment, hm.global,
        hm.root⟩

theorem obeys_print {k : Stack .expression last} (arguments : List Value) (hm : m.Obeys P)
    (hk : k.Obeys P) : (m.print k arguments).Obeys P := by
  unfold print
  dsimp only
  split
  · exact ⟨trivial, hk, hm.of_store hm.store rfl⟩
  · exact Progress.obeys_raise _ _ _ hm hk

theorem obeys_evalArgument {k : Stack .expression last} {arguments : List Value}
    (hm : m.Obeys P) (hk : k.Obeys P) (harguments : ∀ v ∈ arguments, v.Obeys P)
    (hsource : ∀ source rest, arguments = .string source :: rest →
      ∀ body, (programOfSource source .empty).1 = .ok body → P.body body) :
    (m.evalArgument k arguments).Obeys P := by
  unfold evalArgument
  split
  · exact ⟨trivial, hk, hm⟩
  · rename_i source rest
    have hleft : (m.compile evalUnitName source).2.Obeys P := hm.of_store hm.store rfl
    dsimp only
    split
    · rename_i u hu
      obtain ⟨body, hbody, rfl⟩ := ScriptUnit.exists_ofBody_of_compile hu
      have hclosure : (ScriptUnit.ofBody evalUnitName body m.globalEnvironment).closure.Obeys P :=
        ⟨hm.root, hsource source rest rfl body hbody⟩
      exact ⟨⟨hm.global, hclosure, by simp⟩, hk, hleft⟩
    · exact Progress.obeys_raise _ _ _ hleft hk
  · exact ⟨harguments _ List.mem_cons_self, hk, hm⟩

theorem obeys_invoke {k : Stack .expression last} (hosts : HostTable) {receiver callee : Value}
    {arguments : List Value} (hm : m.Obeys P) (hk : k.Obeys P) (hreceiver : receiver.Obeys P)
    (hcallee : callee.Obeys P) (harguments : ∀ v ∈ arguments, v.Obeys P)
    (hgrants : P.Grants ⟨_, .invoke receiver callee arguments, k, m⟩) :
    (m.invoke hosts k receiver arguments callee).Obeys P := by
  unfold invoke
  split
  · exact ⟨⟨hreceiver, hcallee, harguments⟩, hk, hm⟩
  · exact obeys_print arguments hm hk
  · refine obeys_evalArgument hm hk harguments ?_
    rintro source rest rfl
    exact hgrants
  · exact hcallee.elim
  · exact Progress.obeys_raise _ _ _ hm hk

theorem obeys_assignTo {k : Stack .expression last} {value : Value} {target : Expr}
    (hm : m.Obeys P) (hk : k.Obeys P) (hvalue : value.Obeys P) (hcode : P.code (.expr target)) :
    (m.assignTo k value target).Obeys P := by
  unfold assignTo
  split
  · exact ⟨hvalue, hk, hm.of_store (hm.store.assign _ _ hvalue) rfl⟩
  · exact ⟨P.left hcode rfl, ⟨hvalue, hk⟩, hm⟩
  · exact Progress.obeys_raise _ _ _ hm hk

theorem obeys_resumeValue {v : Value} {frame : Frame .expression q} {k : Stack q last}
    (hm : m.Obeys P) (hv : v.Obeys P) (hframe : frame.Obeys P) (hk : k.Obeys P) :
    (m.resumeValue v frame k).Obeys P := by
  have hlast : ∀ w ∈ some v, w.Obeys P := by simpa using hv
  cases frame with
  | leave => exact ⟨hv, hk, hm.nested _⟩
  | binaryRight op right => exact ⟨hframe, ⟨hv, hk⟩, hm⟩
  | binaryApply op left => exact ⟨Value.obeys_binary op left v, hk, hm⟩
  | logicalRight op right =>
      unfold resumeValue
      dsimp only
      split <;> split <;> first | exact ⟨hv, hk, hm⟩ | exact ⟨hframe, hk, hm⟩
  | unaryApply op => exact ⟨Value.obeys_unary op v, hk, hm⟩
  | assignTo target => exact obeys_assignTo hm hk hv hframe
  | assignMember span property value =>
      unfold resumeValue
      dsimp only
      split
      · exact ⟨hframe, hk, hm.set _ _ hframe⟩
      · exact Progress.obeys_raise _ _ _ hm hk
  | readMember span property =>
      unfold resumeValue
      exact obeys_readMember hm hk fun w hw => ⟨hw, hk, hm⟩
  | callMember site property =>
      unfold resumeValue
      exact obeys_readMember hm hk fun f hf => obeys_callWith hm hk hv hf (by simp) hframe
  | callFunction site => exact obeys_callWith hm hk hm.global hv (by simp) hframe
  | callArgument site receiver function done rest =>
      obtain ⟨⟨hreceiver, hfunction, hdone⟩, hrest⟩ := hframe
      exact obeys_callWith hm hk hreceiver hfunction (List.forall_mem_cons.mpr ⟨hv, hdone⟩) hrest
  | locate span => exact ⟨hv, hk, hm⟩
  | objectEntry id key rest => exact obeys_fillObject (hm.set id key hv) hk hframe.1 hframe.2
  | host resume => exact hframe.elim
  | defineVar name => exact ⟨obeys_none, hk, hm.set _ _ hv⟩
  | complete => exact ⟨hlast, hk, hm⟩
  | branch thenBranch elseBranch =>
      unfold resumeValue
      dsimp only
      split
      · exact ⟨hframe.1, hk, hm⟩
      · split
        · exact ⟨hframe.2 _ rfl, hk, hm⟩
        · exact ⟨obeys_none, hk, hm⟩
  | loopTest condition body value =>
      obtain ⟨⟨span, hcode⟩, hvalue⟩ := hframe
      have hbody : P.code (.stmt body) :=
        P.inner hcode (List.mem_cons_of_mem _ List.mem_cons_self)
      unfold resumeValue
      dsimp only
      split
      · exact ⟨hbody, ⟨⟨⟨span, hcode⟩, hvalue⟩, hk⟩, hm⟩
      · exact ⟨hvalue, hk, hm⟩
  | returnValue => exact ⟨hv, hk, hm⟩

theorem obeys_returned {environment : Environment} {receiver : Value} {isUnit : Bool}
    (hm : m.Obeys P)
    (hframe : (Frame.returnTo environment receiver isUnit).Obeys P) :
    (m.returned environment receiver).Obeys P :=
  ⟨hm.store, hframe.2, hframe.1, hm.global, hm.root⟩

theorem obeys_resumeCompletion {c : Completion} {frame : Frame .statement q} {k : Stack q last}
    (hm : m.Obeys P) (hc : c.Obeys P) (hframe : frame.Obeys P) (hk : k.Obeys P) :
    (m.resumeCompletion c frame k).Obeys P := by
  cases frame with
  | leave => exact ⟨hc, hk, hm.nested _⟩
  | returnTo environment receiver isUnit =>
      refine ⟨?_, hk, obeys_returned hm hframe⟩
      cases c with
      | «return» v => exact hc
      | normal value =>
          cases isUnit with
          | true => exact obeys_getD hc
          | false => exact trivial
  | loopBody condition body value =>
      obtain ⟨⟨span, hcode⟩, hvalue⟩ := hframe
      have hcondition : P.code (.expr condition) := P.inner hcode List.mem_cons_self
      cases c with
      | «return» v => exact ⟨hc, hk, hm⟩
      | normal latest => exact ⟨hcondition, ⟨⟨⟨span, hcode⟩, obeys_or hc hvalue⟩, hk⟩, hm⟩
  | sequence rest value =>
      cases c with
      | «return» v => exact ⟨hc, hk, hm⟩
      | normal latest => exact ⟨⟨hframe.1, obeys_or hc hframe.2⟩, hk, hm⟩

theorem obeys_passFault (f : Fault) {frame : Frame p q} {k : Stack q last} (hm : m.Obeys P)
    (hframe : frame.Obeys P) (hk : k.Obeys P) : (m.passFault f frame k).Obeys P := by
  cases frame with
  | host resume => exact hframe.elim
  | leave => exact ⟨trivial, hk, hm.nested _⟩
  | returnTo environment receiver isUnit => exact ⟨trivial, hk, obeys_returned hm hframe⟩
  | _ => exact ⟨trivial, hk, hm⟩

end Machine

namespace Situation

/-- Where the policy grants what a step makes anew, it is obeyed after the step. -/
theorem obeys_step (hosts : HostTable) {s : Situation last} (hs : s.Obeys P)
    (hgrants : P.Grants s) : (s.step hosts).Obeys P := by
  obtain ⟨phrase, focus, k, m⟩ := s
  obtain ⟨hfocus, hk, hm⟩ := hs
  have hentered : { m with nesting := m.nesting + 1 }.Obeys P := hm.nested _
  have hleave {p : Phrase} {k : Stack p last} (hk : k.Obeys P) :
      (Stack.cons .leave k).Obeys P := ⟨trivial, hk⟩
  cases focus with
  | evaluate e =>
      rw [step, Machine.enterPhrase]
      split
      · exact Progress.obeys_raise _ _ _ hm hk
      · rename_i hroom
        refine Machine.obeys_evaluateEntered hentered (hleave hk) hfocus ?_
        rintro span entries rfl
        exact hgrants (Nat.not_le.mp hroom)
  | execute s =>
      rw [step, Machine.enterPhrase]
      split
      · exact Progress.obeys_raise _ _ _ hm hk
      · exact Machine.obeys_executeEntered hentered (hleave hk) hfocus
  | executeAll body value =>
      cases body with
      | nil => exact ⟨hfocus.2, hk, hm⟩
      | cons s rest =>
          obtain ⟨hs, hrest⟩ := List.forall_mem_cons.mp hfocus.1
          exact ⟨hs, ⟨⟨hrest, hfocus.2⟩, hk⟩, hm⟩
  | invoke receiver callee arguments =>
      exact Machine.obeys_invoke hosts hm hk hfocus.1 hfocus.2.1 hfocus.2.2 hgrants
  | enter receiver closure arguments =>
      exact Machine.obeys_enterClosure hm hk hfocus.1 hfocus.2.1 hfocus.2.2 hgrants
  | perform script => exact hfocus.elim
  | value v =>
      cases k with
      | nil => exact ⟨hm, hfocus⟩
      | cons frame k => exact Machine.obeys_resumeValue hm hfocus hk.1 hk.2
  | completion c =>
      cases k with
      | nil => exact ⟨hm, hfocus⟩
      | cons frame k => exact Machine.obeys_resumeCompletion hm hfocus hk.1 hk.2
  | fault f =>
      cases k with
      | nil => exact ⟨hm, trivial⟩
      | cons frame k => exact Machine.obeys_passFault f hm hk.1 hk.2

end Situation

/-- What the first policy lets pass, the second does. -/
structure Policy.Within (P Q : Policy) : Prop where
  object : ∀ id, P.object id → Q.object id
  environment : ∀ env, P.environment env → Q.environment env
  code : ∀ t, P.code t → Q.code t

section Within

variable {Q : Policy}

theorem Policy.Within.body (h : P.Within Q) {body : List Stmt} (hbody : P.body body) :
    Q.body body := fun s hs => h.code _ (hbody s hs)

theorem Closure.Obeys.within {c : Closure} (hc : c.Obeys P) (h : P.Within Q) : c.Obeys Q :=
  ⟨h.environment _ hc.1, h.body hc.2⟩

theorem Value.Obeys.within {v : Value} (hv : v.Obeys P) (h : P.Within Q) : v.Obeys Q := by
  cases v with
  | object id => exact h.object id hv
  | function identity closure => exact Closure.Obeys.within hv h
  | native identity code =>
      cases code with
      | host name => exact hv.elim
      | print | eval => exact trivial
  | _ => exact trivial

theorem Completion.Obeys.within {c : Completion} (hc : c.Obeys P) (h : P.Within Q) :
    c.Obeys Q := by
  cases c with
  | normal value => exact fun v hv => (hc v hv).within h
  | «return» v => exact Value.Obeys.within hc h

theorem Focus.Obeys.within {f : Focus p} (hf : f.Obeys P) (h : P.Within Q) : f.Obeys Q := by
  cases f with
  | evaluate e => exact h.code _ hf
  | execute s => exact h.code _ hf
  | executeAll body latest => exact ⟨h.body hf.1, fun v hv => (hf.2 v hv).within h⟩
  | invoke receiver callee arguments =>
      exact ⟨hf.1.within h, hf.2.1.within h, fun v hv => (hf.2.2 v hv).within h⟩
  | enter receiver closure arguments =>
      exact ⟨hf.1.within h, hf.2.1.within h, fun v hv => (hf.2.2 v hv).within h⟩
  | perform script => exact hf.elim
  | value v => exact Value.Obeys.within hf h
  | completion c => exact Completion.Obeys.within hf h
  | fault f => exact trivial

theorem Frame.Obeys.within {frame : Frame p q} (hframe : frame.Obeys P) (h : P.Within Q) :
    frame.Obeys Q := by
  cases frame with
  | binaryRight | logicalRight | assignTo => exact h.code _ hframe
  | binaryApply | assignMember => exact Value.Obeys.within hframe h
  | callMember | callFunction => exact fun e he => h.code _ (hframe e he)
  | callArgument site receiver function done rest =>
      obtain ⟨⟨hreceiver, hfunction, hdone⟩, hrest⟩ := hframe
      exact ⟨⟨hreceiver.within h, hfunction.within h, fun v hv => (hdone v hv).within h⟩,
        fun e he => h.code _ (hrest e he)⟩
  | objectEntry id key rest =>
      exact ⟨h.object id hframe.1, fun entry he => h.code _ (hframe.2 entry he)⟩
  | host resume => exact hframe.elim
  | returnTo environment receiver isUnit =>
      exact ⟨h.environment _ hframe.1, hframe.2.within h⟩
  | branch thenBranch elseBranch =>
      exact ⟨h.code _ hframe.1, fun s hs => h.code _ (hframe.2 s hs)⟩
  | loopTest condition body value | loopBody condition body value =>
      obtain ⟨⟨span, hcode⟩, hvalue⟩ := hframe
      exact ⟨⟨span, h.code _ hcode⟩, fun v hv => (hvalue v hv).within h⟩
  | sequence rest value => exact ⟨h.body hframe.1, fun v hv => (hframe.2 v hv).within h⟩
  | leave | unaryApply | readMember | locate | defineVar | complete | returnValue => exact trivial

theorem Stack.Obeys.within {k : Stack p q} (hk : k.Obeys P) (h : P.Within Q) : k.Obeys Q := by
  induction k with
  | nil => exact trivial
  | cons frame rest ih => exact ⟨hk.1.within h, ih hk.2⟩

theorem Machine.Obeys.within {m : Machine} (hm : m.Obeys P) (h : P.Within Q) : m.Obeys Q where
  store := fun id name v hv => (hm.store id name v hv).within h
  receiver := hm.receiver.within h
  environment := h.environment _ hm.environment
  global := h.object _ hm.global
  root := h.environment _ hm.root

theorem Situation.Obeys.within {s : Situation last} (hs : s.Obeys P) (h : P.Within Q) :
    s.Obeys Q :=
  ⟨hs.focus.within h, hs.stack.within h, hs.machine.within h⟩

end Within

end ScriptHost
