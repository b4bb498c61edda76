import ScriptHost.Machine.Control
import ScriptHost.Value.Conversion

/-!
One step of a machine. Each step evaluates one phrase down to its first part, hands a result to the
next frame, or passes a fault by a frame, which gives back what the frame had set aside.
-/

namespace ScriptHost

variable {p q last : Phrase}

namespace Progress

/-- Control moves to a focus. -/
def focus (m : Machine) (k : Stack p last) (f : Focus p) : Progress last :=
  .next ⟨p, f, k, m⟩

/-- A fault is raised, at a place if one is known. -/
def raise (m : Machine) (k : Stack p last) (kind : FaultKind) (message : String)
    (span : Option Span) : Progress last :=
  match m.trap.raise ⟨kind, message, span⟩ with
  | .ok f => focus m k (.fault f)
  | .error text => .halt m (.stranded text)

end Progress

/-- How a callee is named when it cannot be called. -/
def Expr.describe : Expr → String
  | .variable _ name => name
  | .member _ owner property => owner.describe ++ "." ++ property
  | .this _ => "this"
  | _ => "expression"

/-- Binds parameters to arguments on a scope; a parameter without an argument is undefined. -/
def Store.bindParameters (s : Store) (scope : ObjectId) : List String → List Value → Store
  | [], _ => s
  | name :: names, arguments =>
    (s.set scope name (arguments.headD .undefined)).bindParameters scope names arguments.tail

namespace Machine

open Progress

/-- The fault for too many calls or evaluations within one another. -/
def stackExceeded : String := "maximum call stack size exceeded"

/-- Reads a property of a value; only undefined and null have none to read. -/
def readMember (m : Machine) (k : Stack .expression last) (owner : Value) (property : String)
    (span : Span) (use : Value → Progress last) : Progress last :=
  match owner with
  | .object id => use ((m.store.get? id property).getD .undefined)
  | .string s => use (if property = "length" then .number s.length.toFloat else .undefined)
  | .undefined | .null =>
    raise m k .type ("cannot read property `" ++ property ++ "` of " ++ owner.display) (some span)
  | _ => use .undefined

/-- Goes on with a call whose next argument may have been reached: evaluates that argument, or
invokes the function with all of them, the last one first in `done`. -/
def callWith (m : Machine) (k : Stack .expression last) (site : CallSite)
    (receiver function : Value) (done : List Value) : List Expr → Progress last
  | argument :: rest =>
    focus m (.cons (.callArgument site receiver function done rest) k) (.evaluate argument)
  | [] =>
    if function.isCallable then
      focus m (.cons (.locate site.span) k) (.invoke receiver function done.reverse)
    else
      raise m k .type (site.callee.describe ++ " is not a function") (some site.callee.span)

/-- Goes on with an object literal whose next property may have been reached. -/
def fillObject (m : Machine) (k : Stack .expression last) (id : ObjectId) :
    List Entry → Progress last
  | entry :: rest => focus m (.cons (.objectEntry id entry.key rest) k) (.evaluate entry.value)
  | [] => focus m k (.value (.object id))

/-- Evaluates an expression that has been entered. -/
def evaluateEntered (m : Machine) (k : Stack .expression last) : Expr → Progress last
  | .literal _ literal => focus m k (.value literal.value)
  | .variable span name =>
    match m.store.lookup m.environment name with
    | some v => focus m k (.value v)
    | none => raise m k .reference (name ++ " is not defined") (some span)
  | .this _ => focus m k (.value m.receiver)
  | .binary _ op left right => focus m (.cons (.binaryRight op right) k) (.evaluate left)
  | .logical _ op left right => focus m (.cons (.logicalRight op right) k) (.evaluate left)
  | .unary _ .typeOf (.variable _ name) =>
    let v := (m.store.lookup m.environment name).getD .undefined
    focus m k (.value (.string v.typeName))
  | .unary _ op operand => focus m (.cons (.unaryApply op) k) (.evaluate operand)
  | .assign _ target value => focus m (.cons (.assignTo target) k) (.evaluate value)
  | .call span callee arguments =>
    let site : CallSite := ⟨span, callee, arguments⟩
    match callee with
    | .member _ owner property => focus m (.cons (.callMember site property) k) (.evaluate owner)
    | _ => focus m (.cons (.callFunction site) k) (.evaluate callee)
  | .member span owner property =>
    focus m (.cons (.readMember span property) k) (.evaluate owner)
  | .object _ entries =>
    let (id, m) := m.allocate .plain
    m.fillObject k id entries
  | .function _ code =>
    let (v, m) := m.close code
    focus m k (.value v)

/-- Executes a statement that has been entered. -/
def executeEntered (m : Machine) (k : Stack .statement last) : Stmt → Progress last
  | .var _ name (some initial) => focus m (.cons (.defineVar name) k) (.evaluate initial)
  | .var _ name none =>
    let m := if m.store.has m.environment.scope name then m else m.define name .undefined
    focus m k (.completion (.normal none))
  | .function _ code =>
    let (v, m) := m.close code
    let m := match code.name with
      | some name => m.define name v
      | none => m
    focus m k (.completion (.normal none))
  | .expression _ e => focus m (.cons .complete k) (.evaluate e)
  | .block _ body => focus m k (.executeAll body none)
  | .conditional _ condition thenBranch elseBranch =>
    focus m (.cons (.branch thenBranch elseBranch) k) (.evaluate condition)
  | .while _ condition body =>
    focus m (.cons (.loopTest condition body none) k) (.evaluate condition)
  | .return _ (some e) => focus m (.cons .returnValue k) (.evaluate e)
  | .return _ none => focus m k (.completion (.return .undefined))
  | .empty _ => focus m k (.completion (.normal none))

/-- Enters the body of a closure, in a scope of its own unless it is a unit. -/
def enterClosure (m : Machine) (k : Stack .expression last) (receiver : Value) (closure : Closure)
    (arguments : List Value) : Progress last :=
  if m.maxCallDepth ≤ m.depth then raise m k .range stackExceeded none
  else
    let frame := Frame.returnTo m.environment m.receiver closure.isUnit
    let (environment, m) :=
      if closure.isUnit then (closure.environment, m)
      else
        let (scope, m) := m.allocate .scope
        let store := m.store.bindParameters scope closure.code.parameters arguments
        (Environment.child scope closure.environment, { m with store := store })
    let m := { m with environment := environment, receiver := receiver, depth := m.depth + 1 }
    focus m (.cons frame k) (.executeAll closure.code.body none)

/-- Writes the arguments as a line. -/
def print (m : Machine) (k : Stack .expression last) (arguments : List Value) : Progress last :=
  let line := " ".intercalate (arguments.map Value.display)
  match m.output.write (line ++ "\n") with
  | .ok output => focus { m with output := output } k (.value .undefined)
  | .error reason => raise m k .internal ("print failed: " ++ reason) none

/-- Compiles a text as a unit of its own and runs it in the global frame, whatever frame it is
called from. What is no text is handed back. -/
def evalArgument (m : Machine) (k : Stack .expression last) : List Value → Progress last
  | [] => focus m k (.value .undefined)
  | .string source :: _ =>
    let (result, m) := m.compile evalUnitName source
    match result with
    | .ok u => focus m k (.enter m.globalValue u.closure [])
    | .error e => raise m k .syntactic e.display none
  | v :: _ => focus m k (.value v)

/-- Calls a value. -/
def invoke (m : Machine) (hosts : HostTable) (k : Stack .expression last) (receiver : Value)
    (arguments : List Value) : Value → Progress last
  | .function _ closure => focus m k (.enter receiver closure arguments)
  | .native _ .print => m.print k arguments
  | .native _ .eval => m.evalArgument k arguments
  | .native _ (.host name) => focus m k (.perform (hosts name arguments))
  | v => raise m k .type (v.typeName ++ " is not a function") none

/-- Grants what a host's native function asks for next. -/
def perform (m : Machine) (k : Stack .expression last) : HostScript → Progress last
  | .finish v => focus m k (.value v)
  | .fail f => focus m k (.fault f)
  | .raise kind message => raise m k kind message none
  | .invoke receiver callee arguments resume =>
    focus m (.cons (.host resume) k) (.invoke receiver callee arguments)
  | .compile name source resume =>
    let (result, m) := m.compile name source
    match result with
    | .ok u =>
      let (v, m) := m.makeFunction u.closure
      focus m k (.perform (resume (.ok v)))
    | .error e => focus m k (.perform (resume (.error e)))
  | .create properties resume =>
    let (id, store) := m.store.allocate .plain
    let store := properties.foldl (fun s p => s.set id p.1 p.2) store
    focus { m with store := store } k (.perform (resume (.object id)))
  | .properties id resume => focus m k (.perform (resume (m.store.object id).properties))
  | .armed resume => focus m k (.perform (resume m.trap.armed))

/-- Ends the evaluation of a phrase. -/
def left (m : Machine) : Machine := { m with nesting := m.nesting - 1 }

/-- Returns to a caller's frame. -/
def returned (m : Machine) (environment : Environment) (receiver : Value) : Machine :=
  { m with environment := environment, receiver := receiver, depth := m.depth - 1 }

/-- Assigns a value to the target of an assignment. -/
def assignTo (m : Machine) (k : Stack .expression last) (value : Value) : Expr → Progress last
  | .variable _ name =>
    focus { m with store := m.store.assign m.environment name value } k (.value value)
  | .member span owner property =>
    focus m (.cons (.assignMember span property value) k) (.evaluate owner)
  | target => raise m k .reference "invalid assignment target" (some target.span)

/-- Hands a value to a frame. -/
def resumeValue (m : Machine) (v : Value) (frame : Frame .expression q) (k : Stack q last) :
    Progress last :=
  match frame with
  | .leave => focus m.left k (.value v)
  | .binaryRight op right => focus m (.cons (.binaryApply op v) k) (.evaluate right)
  | .binaryApply op left => focus m k (.value (Value.binary op left v))
  | .logicalRight op right =>
    let decided := match op with
      | .and => !v.isTruthy
      | .or => v.isTruthy
    if decided then focus m k (.value v) else focus m k (.evaluate right)
  | .unaryApply op => focus m k (.value (Value.unary op v))
  | .assignTo target => m.assignTo k v target
  | .assignMember span property value =>
    match v with
    | .object id => focus { m with store := m.store.set id property value } k (.value value)
    | owner =>
      raise m k .type ("cannot set property `" ++ property ++ "` of " ++ owner.display) (some span)
  | .readMember span property => m.readMember k v property span fun w => focus m k (.value w)
  | .callMember site property =>
    m.readMember k v property site.callee.span fun f => m.callWith k site v f [] site.arguments
  | .callFunction site => m.callWith k site m.globalValue v [] site.arguments
  | .callArgument site receiver function done rest =>
    m.callWith k site receiver function (v :: done) rest
  | .locate _ => focus m k (.value v)
  | .objectEntry id key rest => fillObject { m with store := m.store.set id key v } k id rest
  | .host resume => focus m k (.perform (resume (.ok v)))
  | .defineVar name => focus (m.define name v) k (.completion (.normal none))
  | .complete => focus m k (.completion (.normal (some v)))
  | .branch thenBranch elseBranch =>
    if v.isTruthy then focus m k (.execute thenBranch)
    else
      match elseBranch with
      | some s => focus m k (.execute s)
      | none => focus m k (.completion (.normal none))
  | .loopTest condition body value =>
    if v.isTruthy then focus m (.cons (.loopBody condition body value) k) (.execute body)
    else focus m k (.completion (.normal value))
  | .returnValue => focus m k (.completion (.return v))

/-- Hands a completion to a frame. -/
def resumeCompletion (m : Machine) (c : Completion) (frame : Frame .statement q)
    (k : Stack q last) : Progress last :=
  match frame with
  | .leave => focus m.left k (.completion c)
  | .returnTo environment receiver isUnit =>
    let v := match c with
      | .return v => v
      | .normal value => if isUnit then value.getD .undefined else .undefined
    focus (m.returned environment receiver) k (.value v)
  | .loopBody condition body value =>
    match c with
    | .normal latest =>
      focus m (.cons (.loopTest condition body (latest.or value)) k) (.evaluate condition)
    | .return v => focus m k (.completion (.return v))
  | .sequence rest value =>
    match c with
    | .normal latest => focus m k (.executeAll rest (latest.or value))
    | .return v => focus m k (.completion (.return v))

/-- Passes a fault by a frame. A host's native function is told of it and goes on. -/
def passFault (m : Machine) (f : Fault) (frame : Frame p q) (k : Stack q last) : Progress last :=
  match frame with
  | .leave => focus m.left k (.fault f)
  | .locate span => focus m k (.fault (f.locate span))
  | .returnTo environment receiver _ => focus (m.returned environment receiver) k (.fault f)
  | .host resume => focus m k (.perform (resume (.error f)))
  | _ => focus m k (.fault f)

/-- Enters the evaluation of a phrase, unless too many are entered. -/
def enterPhrase (m : Machine) (k : Stack p last)
    (entered : Machine → Stack p last → Progress last) : Progress last :=
  if maxNesting ≤ m.nesting then raise m k .range stackExceeded none
  else entered { m with nesting := m.nesting + 1 } (.cons .leave k)

end Machine

namespace Situation

/-- One step. -/
def step (hosts : HostTable) : {last : Phrase} → Situation last → Progress last
  | _, ⟨_, .evaluate e, k, m⟩ => m.enterPhrase k fun m k => m.evaluateEntered k e
  | _, ⟨_, .execute s, k, m⟩ => m.enterPhrase k fun m k => m.executeEntered k s
  | _, ⟨_, .executeAll [] value, k, m⟩ => .focus m k (.completion (.normal value))
  | _, ⟨_, .executeAll (s :: rest) value, k, m⟩ =>
    .focus m (.cons (.sequence rest value) k) (.execute s)
  | _, ⟨_, .invoke receiver callee arguments, k, m⟩ => m.invoke hosts k receiver arguments callee
  | _, ⟨_, .enter receiver closure arguments, k, m⟩ => m.enterClosure k receiver closure arguments
  | _, ⟨_, .perform script, k, m⟩ => m.perform k script
  | _, ⟨_, .value v, .nil, m⟩ => .halt m (.value v)
  | _, ⟨_, .value v, .cons frame k, m⟩ => m.resumeValue v frame k
  | _, ⟨_, .completion c, .nil, m⟩ => .halt m (.completion c)
  | _, ⟨_, .completion c, .cons frame k, m⟩ => m.resumeCompletion c frame k
  | _, ⟨_, .fault f, .nil, m⟩ => .halt m (.fault f)
  | _, ⟨_, .fault f, .cons frame k, m⟩ => m.passFault f frame k

/-- Steps until the run ends, at most as many as the fuel. -/
def run (hosts : HostTable) : Nat → Situation last → Option (Machine × Ending last)
  | 0, _ => none
  | fuel + 1, s =>
    match s.step hosts with
    | .next s => run hosts fuel s
    | .halt m ending => some (m, ending)

/-- A run that ended ends in the same way with more fuel. -/
theorem run_add {hosts : HostTable} {fuel : Nat} {s : Situation last}
    {result : Machine × Ending last} (h : s.run hosts fuel = some result) (more : Nat) :
    s.run hosts (fuel + more) = some result := by
  induction fuel generalizing s with
  | zero => simp [run] at h
  | succ fuel ih =>
    rw [Nat.add_right_comm, run]
    rw [run] at h
    split at h
    · exact ih h
    · exact h

end Situation

/-- Runs a unit at top level, with the global object as receiver. The trap is armed meanwhile. -/
def Machine.runUnit (m : Machine) (hosts : HostTable) (fuel : Nat) (u : ScriptUnit) :
    Option (Machine × Ending .expression) :=
  match m.trap.arm with
  | .error f => some (m, .fault f)
  | .ok trap =>
    let m := { m with trap := trap }
    let start : Situation .expression := ⟨_, .enter m.globalValue u.closure [], .nil, m⟩
    (start.run hosts fuel).map fun (m, ending) => ({ m with trap := m.trap.disarm }, ending)

end ScriptHost
