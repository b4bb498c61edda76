import ScriptHost.Proofs.Machine.HostFree
import ScriptHost.Proofs.Program.Bare
import ScriptHost.Proofs.Token.Scratch

/-!
Machines without their spans. Values print and compare as they do with their spans, and a store
without spans holds what the store holds, without spans.
-/

namespace ScriptHost

variable {p q last : Phrase}

/-! ### Machines without spans -/

def Closure.bare (c : Closure) : Closure := { c with code := c.code.bare }

def Value.bare : Value → Value
  | .function identity closure => .function identity closure.bare
  | v => v

def Bindings.bare (b : Bindings) : Bindings := b.map fun entry => (entry.1, entry.2.bare)

def Object.bare (o : Object) : Object := { o with properties := o.properties.bare }

def Store.bare (s : Store) : Store := { s with objects := s.objects.map Object.bare }

def Fault.bare (f : Fault) : Fault := { f with span := f.span.map Span.none }

def Completion.bare : Completion → Completion
  | .normal value => .normal (value.map Value.bare)
  | .return v => .return v.bare

def CallSite.bare (site : CallSite) : CallSite :=
  ⟨site.span.none, site.callee.bare, Expr.mapSpansAll Span.none site.arguments⟩

def Frame.bare : {p q : Phrase} → Frame p q → Frame p q
  | _, _, .leave => .leave
  | _, _, .binaryRight op right => .binaryRight op right.bare
  | _, _, .binaryApply op left => .binaryApply op left.bare
  | _, _, .logicalRight op right => .logicalRight op right.bare
  | _, _, .unaryApply op => .unaryApply op
  | _, _, .assignTo target => .assignTo target.bare
  | _, _, .assignMember target property value => .assignMember target.none property value.bare
  | _, _, .readMember span property => .readMember span.none property
  | _, _, .callMember site property => .callMember site.bare property
  | _, _, .callFunction site => .callFunction site.bare
  | _, _, .callArgument site receiver function done rest =>
    .callArgument site.bare receiver.bare function.bare (done.map Value.bare)
      (Expr.mapSpansAll Span.none rest)
  | _, _, .locate span => .locate span.none
  | _, _, .objectEntry id key rest => .objectEntry id key (Entry.mapSpansAll Span.none rest)
  | _, _, .host resume => .host resume
  | _, _, .returnTo environment receiver isUnit => .returnTo environment receiver.bare isUnit
  | _, _, .defineVar name => .defineVar name
  | _, _, .complete => .complete
  | _, _, .branch thenBranch elseBranch =>
    .branch thenBranch.bare (Stmt.mapSpansOption Span.none elseBranch)
  | _, _, .loopTest condition body value =>
    .loopTest condition.bare body.bare (value.map Value.bare)
  | _, _, .loopBody condition body value =>
    .loopBody condition.bare body.bare (value.map Value.bare)
  | _, _, .sequence rest value => .sequence (Stmt.bareAll rest) (value.map Value.bare)
  | _, _, .returnValue => .returnValue

def Stack.bare : {p q : Phrase} → Stack p q → Stack p q
  | _, _, .nil => .nil
  | _, _, .cons frame rest => .cons frame.bare rest.bare

def Focus.bare : {p : Phrase} → Focus p → Focus p
  | _, .evaluate e => .evaluate e.bare
  | _, .execute s => .execute s.bare
  | _, .executeAll body latest => .executeAll (Stmt.bareAll body) (latest.map Value.bare)
  | _, .invoke receiver callee arguments =>
    .invoke receiver.bare callee.bare (arguments.map Value.bare)
  | _, .enter receiver closure arguments =>
    .enter receiver.bare closure.bare (arguments.map Value.bare)
  | _, .perform script => .perform script
  | _, .value v => .value v.bare
  | _, .completion c => .completion c.bare
  | _, .fault f => .fault f.bare

/-- The machine without spans, and with an empty buffer. -/
def Machine.bare (m : Machine) : Machine :=
  { m with store := m.store.bare, receiver := m.receiver.bare, scratch := .empty }

def Situation.bare (s : Situation last) : Situation last :=
  ⟨s.phrase, s.focus.bare, s.stack.bare, s.machine.bare⟩

def Ending.bare : {p : Phrase} → Ending p → Ending p
  | _, .value v => .value v.bare
  | _, .completion c => .completion c.bare
  | _, .fault f => .fault f.bare
  | _, .stranded message => .stranded message

def Progress.bare : Progress last → Progress last
  | .next s => .next s.bare
  | .halt m ending => .halt m.bare ending.bare

/-! ### Nothing is left to take away -/

@[simp] theorem Closure.bare_bare (c : Closure) : c.bare.bare = c.bare := by
  simp [Closure.bare]

@[simp] theorem Value.bare_bare (v : Value) : v.bare.bare = v.bare := by
  cases v <;> simp [Value.bare]

@[simp] theorem Value.bare_comp_bare : Value.bare ∘ Value.bare = Value.bare :=
  funext Value.bare_bare

@[simp] theorem Bindings.bare_bare (b : Bindings) : b.bare.bare = b.bare := by
  simp [Bindings.bare]

@[simp] theorem Object.bare_bare (o : Object) : o.bare.bare = o.bare := by
  simp [Object.bare]

@[simp] theorem Store.bare_bare (s : Store) : s.bare.bare = s.bare := by
  simp [Store.bare]

@[simp] theorem Fault.bare_bare (f : Fault) : f.bare.bare = f.bare := by
  cases f with
  | mk kind message span => cases span <;> rfl

@[simp] theorem Completion.bare_bare (c : Completion) : c.bare.bare = c.bare := by
  cases c <;> simp [Completion.bare]

@[simp] theorem CallSite.bare_bare (site : CallSite) : site.bare.bare = site.bare := by
  simp [CallSite.bare, Span.none]

@[simp] theorem Frame.bare_bare (frame : Frame p q) : frame.bare.bare = frame.bare := by
  cases frame <;> simp [Frame.bare, Span.none]

@[simp] theorem Stack.bare_bare (k : Stack p q) : k.bare.bare = k.bare := by
  induction k with
  | nil => rfl
  | cons frame rest ih => simp [Stack.bare, ih]

@[simp] theorem Focus.bare_bare (f : Focus p) : f.bare.bare = f.bare := by
  cases f <;> simp [Focus.bare]

@[simp] theorem Machine.bare_bare (m : Machine) : m.bare.bare = m.bare := by
  simp [Machine.bare]

@[simp] theorem Situation.bare_bare (s : Situation last) : s.bare.bare = s.bare := by
  simp [Situation.bare]

/-! ### Values and stores -/

namespace Value

@[simp] theorem isTruthy_bare (v : Value) : v.bare.isTruthy = v.isTruthy := by
  cases v <;> rfl

@[simp] theorem isCallable_bare (v : Value) : v.bare.isCallable = v.isCallable := by
  cases v <;> rfl

@[simp] theorem typeName_bare (v : Value) : v.bare.typeName = v.typeName := by
  cases v <;> rfl

@[simp] theorem toNumber_bare (v : Value) : v.bare.toNumber = v.toNumber := by
  cases v <;> rfl

@[simp] theorem display_bare (v : Value) : v.bare.display = v.display := by
  cases v with
  | function identity closure =>
      obtain ⟨⟨name, parameters, body⟩, environment, isUnit⟩ := closure
      rfl
  | _ => rfl

@[simp] theorem strictEquals_bare (a b : Value) :
    a.bare.strictEquals b.bare = a.strictEquals b := by
  cases a <;> cases b <;> rfl

@[simp] theorem looseEquals_bare (a b : Value) : a.bare.looseEquals b.bare = a.looseEquals b := by
  cases a <;> cases b <;> rfl

@[simp] theorem compareWith_bare (texts : String → String → Bool) (numbers : Float → Float → Bool)
    (a b : Value) : compareWith texts numbers a.bare b.bare = compareWith texts numbers a b := by
  cases a <;> cases b <;> rfl

theorem add_bare (a b : Value) : a.bare.add b.bare = a.add b := by
  have hdisplay := a.display_bare
  have hdisplay' := b.display_bare
  cases a <;> cases b <;> first | rfl | simp_all [bare, add]

theorem binary_bare (op : BinaryOp) (a b : Value) : binary op a.bare b.bare = binary op a b := by
  cases op <;> simp [binary, add_bare]

theorem bare_binary (op : BinaryOp) (a b : Value) : (binary op a b).bare = binary op a b := by
  cases op with
  | add =>
      unfold binary add
      dsimp only
      split <;> rfl
  | _ => rfl

theorem unary_bare (op : UnaryOp) (v : Value) : unary op v.bare = unary op v := by
  cases op <;> simp [unary]

theorem bare_unary (op : UnaryOp) (v : Value) : (unary op v).bare = unary op v := by
  cases op <;> rfl

end Value

@[simp] theorem Literal.bare_value (literal : Literal) : literal.value.bare = literal.value := by
  cases literal <;> rfl

@[simp] theorem FunctionCode.name_bare (code : FunctionCode) : code.bare.name = code.name := by
  cases code
  rfl

@[simp] theorem FunctionCode.parameters_bare (code : FunctionCode) :
    code.bare.parameters = code.parameters := by
  cases code
  rfl

@[simp] theorem FunctionCode.body_bare (code : FunctionCode) :
    code.bare.body = Stmt.bareAll code.body := by
  cases code
  rfl

theorem Bindings.get?_bare (b : Bindings) (name : String) :
    b.bare.get? name = (b.get? name).map Value.bare := by
  induction b with
  | nil => rfl
  | cons entry rest ih =>
      obtain ⟨key, value⟩ := entry
      unfold Bindings.get? at *
      unfold Bindings.bare at *
      rw [List.map_cons, List.lookup_cons, List.lookup_cons]
      cases name == key with
      | true => rfl
      | false => exact ih

theorem Bindings.bare_set (b : Bindings) (name : String) (value : Value) :
    (b.set name value).bare = b.bare.set name value.bare := by
  induction b with
  | nil => rfl
  | cons entry rest ih =>
      obtain ⟨key, old⟩ := entry
      by_cases hkey : key = name
      · simp [Bindings.bare, Bindings.set, hkey]
      · simpa [Bindings.bare, Bindings.set, hkey] using ih

namespace Store

variable {s : Store}

theorem object_bare (s : Store) (id : ObjectId) : s.bare.object id = (s.object id).bare := by
  unfold object bare
  rw [Array.getElem?_map]
  cases s.objects[id.index]? <;> rfl

@[simp] theorem get?_bare (s : Store) (id : ObjectId) (name : String) :
    s.bare.get? id name = (s.get? id name).map Value.bare := by
  unfold get?
  rw [object_bare]
  exact Bindings.get?_bare _ name

@[simp] theorem has_bare (s : Store) (id : ObjectId) (name : String) :
    s.bare.has id name = s.has id name := by
  have hget := get?_bare s id name
  unfold get? at hget
  unfold has Bindings.has
  rw [hget, Option.isSome_map]

theorem bare_set (s : Store) (id : ObjectId) (name : String) (value : Value) :
    (s.set id name value).bare = s.bare.set id name value.bare := by
  unfold set bare
  congr 1
  ext1
  · simp
  · simp only [Array.getElem_map, Array.getElem_modify]
    split
    · simp [Object.bare, Object.set, Bindings.bare_set]
    · rfl

theorem allocate_bare (s : Store) (kind : ObjectClass) :
    s.bare.allocate kind = ((s.allocate kind).1, (s.allocate kind).2.bare) := by
  simp [allocate, bare, Object.bare, Object.ofClass, Bindings.bare]

theorem bare_bindParameters (scope : ObjectId) (names : List String) (arguments : List Value) :
    (s.bindParameters scope names arguments).bare =
      s.bare.bindParameters scope names (arguments.map Value.bare) := by
  induction names generalizing s arguments with
  | nil => rfl
  | cons name names ih =>
      have hhead : (arguments.map Value.bare).headD .undefined =
          (arguments.headD .undefined).bare := by
        cases arguments <;> rfl
      rw [bindParameters, bindParameters, ih, bare_set, hhead, List.map_tail]

@[simp] theorem lookup_bare (s : Store) (env : Environment) (name : String) :
    s.bare.lookup env name = (s.lookup env name).map Value.bare := by
  induction env with
  | root scope => exact get?_bare s scope name
  | child scope parent ih =>
      rw [lookup, lookup, get?_bare]
      cases s.get? scope name with
      | none => exact ih
      | some value => rfl

theorem bare_assign (s : Store) (env : Environment) (name : String) (value : Value) :
    (s.assign env name value).bare = s.bare.assign env name value.bare := by
  induction env with
  | root scope => exact bare_set s scope name value
  | child scope parent ih =>
      rw [assign, assign, has_bare]
      split
      · exact bare_set s scope name value
      · exact ih

end Store

end ScriptHost
