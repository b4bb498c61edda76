import ScriptHost.Proofs.Machine.Bare

/-!
What spans have no part in. Without its spans and without what the buffer for string literals holds,
a machine takes the steps that it takes with them; so runs of the same code read from other places
go the same way and end alike.
-/

namespace ScriptHost

variable {p q last : Phrase}

/-- The frame waits for a host. -/
def Frame.IsHost : Frame p q → Prop
  | .host _ => True
  | _ => False

/-- A call comes next, or the host is to go on. -/
def Situation.Calls : Situation last → Prop
  | ⟨_, .invoke .., _, _⟩ | ⟨_, .perform _, _, _⟩ => True
  | ⟨_, _, .cons frame _, _⟩ => frame.IsHost
  | _ => False

namespace Progress

theorem bare_raise (m : Machine) (k : Stack p last) (kind : FaultKind) (message : String)
    (span : Option Span) :
    (raise m k kind message span).bare =
      raise m.bare k.bare kind message (span.map Span.none) := by
  have htrap : m.bare.trap = m.trap := rfl
  rw [raise, raise, htrap]
  unfold Trap.raise
  by_cases harmed : m.trap.armed = true
  · rw [if_pos harmed, if_pos harmed]
    rfl
  · rw [if_neg harmed, if_neg harmed]
    rfl

end Progress

theorem Expr.describe_bare (e : Expr) : e.bare.describe = e.describe := by
  fun_induction Expr.describe e with
  | case2 span owner property ih =>
      change owner.bare.describe ++ "." ++ property = _
      rw [ih]
  | case1 | case3 => rfl
  | case4 e hvariable hmember hthis =>
      cases e with
      | «variable» | this | member => simp_all
      | _ => rfl

namespace Machine

variable {m : Machine}

/-! One lemma for each part of a step. -/

theorem bare_readMember {k : Stack .expression last} (owner : Value) (property : String)
    (span : Span) {use use' : Value → Progress last} (huse : ∀ v, (use v).bare = use' v.bare) :
    (m.readMember k owner property span use).bare =
      m.bare.readMember k.bare owner.bare property span.none use' := by
  cases owner with
  | object id =>
      have hget : (m.bare.store.get? id property).getD .undefined =
          ((m.store.get? id property).getD .undefined).bare := by
        rw [show m.bare.store = m.store.bare from rfl, Store.get?_bare]
        cases m.store.get? id property <;> rfl
      exact (huse _).trans (congrArg use' hget.symm)
  | string s =>
      refine (huse _).trans (congrArg use' ?_)
      split <;> rfl
  | undefined | null => exact Progress.bare_raise m k _ _ _
  | _ => exact huse _

theorem bare_callWith (k : Stack .expression last) (site : CallSite) (receiver function : Value)
    (done : List Value) (rest : List Expr) :
    (m.callWith k site receiver function done rest).bare =
      m.bare.callWith k.bare site.bare receiver.bare function.bare (done.map Value.bare)
        (Expr.mapSpansAll Span.none rest) := by
  cases rest with
  | nil =>
      rw [Expr.mapSpansAll, callWith, callWith, Value.isCallable_bare]
      split
      · rw [← List.map_reverse]
        rfl
      · rw [Progress.bare_raise, CallSite.bare, Expr.describe_bare, Option.map_some,
          Expr.span_mapSpans]
  | cons argument rest => rfl

theorem bare_fillObject (k : Stack .expression last) (id : ObjectId) (entries : List Entry) :
    (m.fillObject k id entries).bare =
      m.bare.fillObject k.bare id (Entry.mapSpansAll Span.none entries) := by
  cases entries with
  | nil => rfl
  | cons entry rest =>
      obtain ⟨key, value⟩ := entry
      rfl

theorem allocate_bare (m : Machine) (kind : ObjectClass) :
    m.bare.allocate kind = ((m.allocate kind).1, (m.allocate kind).2.bare) := by
  have hstore : m.bare.store.allocate kind = _ := m.store.allocate_bare kind
  unfold allocate
  rw [hstore]
  rfl

theorem close_bare (m : Machine) (code : FunctionCode) :
    m.bare.close code.bare = ((m.close code).1.bare, (m.close code).2.bare) := rfl

theorem define_bare (m : Machine) (name : String) (value : Value) :
    m.bare.define name value.bare = (m.define name value).bare := by
  unfold define
  rw [show m.bare.store = m.store.bare from rfl]
  unfold Store.define
  rw [← Store.bare_set]
  rfl

theorem bare_evaluateEntered (k : Stack .expression last) (e : Expr) :
    (m.evaluateEntered k e).bare = m.bare.evaluateEntered k.bare e.bare := by
  have hlookup : ∀ name, m.bare.store.lookup m.bare.environment name =
      (m.store.lookup m.environment name).map Value.bare := fun name => Store.lookup_bare ..
  cases e with
  | literal span literal =>
      rw [evaluateEntered]
      change Progress.focus m.bare k.bare (.value literal.value.bare) = _
      rw [Literal.bare_value]
      rfl
  | «variable» span name =>
      change _ = m.bare.evaluateEntered k.bare (.variable span.none name)
      rw [evaluateEntered, evaluateEntered, hlookup]
      cases m.store.lookup m.environment name with
      | none => exact Progress.bare_raise m k _ _ _
      | some v => rfl
  | unary span op operand =>
      cases op with
      | typeOf =>
          cases operand with
          | «variable» place name =>
              change _ = m.bare.evaluateEntered k.bare
                (.unary span.none .typeOf (.variable place.none name))
              rw [evaluateEntered, evaluateEntered, hlookup]
              cases m.store.lookup m.environment name with
              | none => rfl
              | some v =>
                  change Progress.focus m.bare k.bare (.value (.string v.typeName)) = _
                  rw [← Value.typeName_bare]
                  rfl
          | _ => rfl
      | negate | not => rfl
  | call span callee arguments => cases callee <;> rfl
  | object span entries =>
      change _ = m.bare.evaluateEntered k.bare
        (.object span.none (Entry.mapSpansAll Span.none entries))
      rw [evaluateEntered, evaluateEntered, allocate_bare]
      exact bare_fillObject k _ entries
  | function span code => rfl
  | this | binary | logical | assign | member => rfl

theorem bare_executeEntered (k : Stack .statement last) (s : Stmt) :
    (m.executeEntered k s).bare = m.bare.executeEntered k.bare s.bare := by
  cases s with
  | var span name initial =>
      cases initial with
      | some e => rfl
      | none =>
          have hhas : m.bare.store.has m.bare.environment.scope name =
              m.store.has m.environment.scope name := Store.has_bare ..
          change _ = m.bare.executeEntered k.bare (.var span.none name none)
          rw [executeEntered, executeEntered, hhas]
          split
          · rfl
          · rw [show Value.undefined = Value.undefined.bare from rfl, define_bare]
            rfl
  | function span code =>
      change _ = m.bare.executeEntered k.bare (.function span.none code.bare)
      rw [executeEntered, executeEntered, close_bare]
      dsimp only
      rw [FunctionCode.name_bare]
      cases code.name with
      | none => rfl
      | some name =>
          dsimp only
          rw [define_bare]
          rfl
  | «return» span value => cases value <;> rfl
  | expression | block | conditional | «while» | empty => rfl

theorem bare_enterClosure (k : Stack .expression last) (receiver : Value) (closure : Closure)
    (arguments : List Value) :
    (m.enterClosure k receiver closure arguments).bare =
      m.bare.enterClosure k.bare receiver.bare closure.bare (arguments.map Value.bare) := by
  have hroom : (m.bare.maxCallDepth ≤ m.bare.depth) = (m.maxCallDepth ≤ m.depth) := rfl
  have hunit : closure.bare.isUnit = closure.isUnit := rfl
  simp only [enterClosure, hroom, hunit]
  split
  · exact Progress.bare_raise m k _ _ _
  · split
    · obtain ⟨⟨name, parameters, body⟩, environment, isUnit⟩ := closure
      rfl
    · obtain ⟨⟨name, parameters, body⟩, environment, isUnit⟩ := closure
      rw [allocate_bare]
      dsimp only
      rw [show (m.allocate .scope).2.bare.store = (m.allocate .scope).2.store.bare from rfl]
      have hparameters :
          (Closure.bare ⟨⟨name, parameters, body⟩, environment, isUnit⟩).code.parameters =
          parameters := rfl
      rw [hparameters, ← Store.bare_bindParameters]
      rfl

theorem bare_print (k : Stack .expression last) (arguments : List Value) :
    (m.print k arguments).bare = m.bare.print k.bare (arguments.map Value.bare) := by
  have houtput : m.bare.output = m.output := rfl
  have hdisplay : Value.display ∘ Value.bare = Value.display := funext Value.display_bare
  simp only [print, houtput, List.map_map, hdisplay]
  split
  · rfl
  · exact Progress.bare_raise m k _ _ _

/-- The buffer apart, a text is compiled to the same unit without spans. -/
theorem compile_bare (m : Machine) (name source : String) :
    (m.bare.compile name source).1 = (m.compile name source).1 ∧
      (m.bare.compile name source).2.bare = (m.compile name source).2.bare := by
  constructor
  · exact ScriptUnit.compile_fst_eq name source m.globalEnvironment .empty m.scratch
  · change Machine.bare { m.bare with scratch := _ } = Machine.bare { m with scratch := _ }
    simp [Machine.bare]

theorem bare_evalArgument (k : Stack .expression last) (arguments : List Value) :
    (m.evalArgument k arguments).bare =
      (m.bare.evalArgument k.bare (arguments.map Value.bare)).bare := by
  cases arguments with
  | nil => simp [evalArgument, Progress.focus, Progress.bare, Situation.bare]
  | cons v rest =>
      cases v with
      | string source =>
          obtain ⟨hunit, hmachine⟩ := compile_bare m evalUnitName source
          change _ = (m.bare.evalArgument k.bare (.string source :: rest.map Value.bare)).bare
          rw [evalArgument, evalArgument]
          dsimp only
          rw [hunit]
          split
          · simp only [Progress.focus, Progress.bare, Situation.bare, hmachine, Stack.bare_bare]
            rfl
          · rw [Progress.bare_raise, Progress.bare_raise, hmachine, Stack.bare_bare]
      | _ =>
          simp [evalArgument, Progress.focus, Progress.bare, Situation.bare, Value.bare, Focus.bare]

theorem bare_invoke (hosts : HostTable) (k : Stack .expression last) (receiver : Value)
    (arguments : List Value) {callee : Value} (hcallee : callee.HostFree) :
    (m.invoke hosts k receiver arguments callee).bare =
      (m.bare.invoke hosts k.bare receiver.bare (arguments.map Value.bare) callee.bare).bare := by
  have hraise : ∀ (kind : FaultKind) (message : String),
      (Progress.raise m k kind message none).bare =
        (Progress.raise m.bare k.bare kind message none).bare := by
    intro kind message
    rw [Progress.bare_raise, Progress.bare_raise, Machine.bare_bare, Stack.bare_bare]
  cases callee with
  | function identity closure =>
      change Progress.focus m.bare k.bare
        (.enter receiver.bare closure.bare (arguments.map Value.bare)) =
        (Progress.focus m.bare k.bare
          (.enter receiver.bare closure.bare (arguments.map Value.bare))).bare
      simp [Progress.focus, Progress.bare, Situation.bare, Focus.bare]
  | native identity code =>
      cases code with
      | print =>
          change (m.print k arguments).bare = (m.bare.print k.bare (arguments.map Value.bare)).bare
          rw [bare_print, bare_print, Machine.bare_bare, Stack.bare_bare, List.map_map,
            Value.bare_comp_bare]
      | eval => exact bare_evalArgument k arguments
      | host name => exact hcallee.elim
  | _ => exact hraise _ _

theorem bare_assignTo (k : Stack .expression last) (value : Value) (target : Expr) :
    (m.assignTo k value target).bare = m.bare.assignTo k.bare value.bare target.bare := by
  cases target with
  | «variable» span name =>
      change Progress.focus
          (Machine.bare { m with store := m.store.assign m.environment name value }) _ _ =
        Progress.focus
          { m.bare with store := m.store.bare.assign m.environment name value.bare } _ _
      rw [← Store.bare_assign]
      rfl
  | member span owner property => rfl
  | _ => exact Progress.bare_raise m k _ _ _

theorem bare_resumeValue (v : Value) (frame : Frame .expression q) (k : Stack q last)
    (hframe : ¬ frame.IsHost) :
    (m.resumeValue v frame k).bare = m.bare.resumeValue v.bare frame.bare k.bare := by
  cases frame with
  | binaryApply op left =>
      simp [resumeValue, Frame.bare, Value.binary_bare, Value.bare_binary, Progress.focus,
        Progress.bare, Situation.bare, Focus.bare]
  | logicalRight op right =>
      unfold resumeValue
      simp only [Frame.bare, Value.isTruthy_bare]
      split <;> split <;> rfl
  | unaryApply op =>
      simp [resumeValue, Frame.bare, Value.unary_bare, Value.bare_unary, Progress.focus,
        Progress.bare, Situation.bare, Focus.bare]
  | assignTo target => exact bare_assignTo k v target
  | assignMember span property value =>
      cases v with
      | object id =>
          change Progress.focus
              (Machine.bare { m with store := m.store.set id property value }) _ _ =
            Progress.focus { m.bare with store := m.store.bare.set id property value.bare } _ _
          rw [← Store.bare_set]
          rfl
      | function identity closure =>
          obtain ⟨⟨name, parameters, body⟩, environment, isUnit⟩ := closure
          exact Progress.bare_raise m k _ _ _
      | _ => exact Progress.bare_raise m k _ _ _
  | readMember span property =>
      unfold resumeValue
      exact bare_readMember v property span fun _ => rfl
  | callMember site property =>
      unfold resumeValue
      dsimp only [Frame.bare]
      rw [show site.bare.callee.span = site.callee.span.none from Expr.span_mapSpans _]
      exact bare_readMember v property _ fun f => bare_callWith k site v f [] site.arguments
  | callFunction site => exact bare_callWith k site m.globalValue v [] site.arguments
  | callArgument site receiver function done rest =>
      exact bare_callWith k site receiver function (v :: done) rest
  | objectEntry id key rest =>
      refine (bare_fillObject (m := { m with store := m.store.set id key v }) k id rest).trans ?_
      change fillObject { m.bare with store := (m.store.set id key v).bare } _ _ _ =
        fillObject { m.bare with store := m.store.bare.set id key v.bare } _ _ _
      rw [Store.bare_set]
  | host resume => exact absurd trivial hframe
  | defineVar name =>
      change Progress.focus (m.define name v).bare _ _ =
        Progress.focus (m.bare.define name v.bare) _ _
      rw [define_bare]
      rfl
  | branch thenBranch elseBranch =>
      unfold resumeValue
      simp only [Frame.bare, Value.isTruthy_bare]
      split
      · rfl
      · cases elseBranch <;> rfl
  | loopTest condition body value =>
      unfold resumeValue
      simp only [Frame.bare, Value.isTruthy_bare]
      split <;> rfl
  | leave | binaryRight | locate | complete | returnValue => rfl

theorem bare_resumeCompletion (c : Completion) (frame : Frame .statement q) (k : Stack q last) :
    (m.resumeCompletion c frame k).bare =
      m.bare.resumeCompletion c.bare frame.bare k.bare := by
  cases frame with
  | leave => rfl
  | returnTo environment receiver isUnit =>
      cases c with
      | «return» v => rfl
      | normal value => cases value <;> cases isUnit <;> rfl
  | loopBody condition body value =>
      cases c with
      | «return» v => rfl
      | normal latest => cases latest <;> rfl
  | sequence rest value =>
      cases c with
      | «return» v => rfl
      | normal latest => cases latest <;> rfl

theorem bare_passFault (f : Fault) (frame : Frame p q) (k : Stack q last)
    (hframe : ¬ frame.IsHost) :
    (m.passFault f frame k).bare = m.bare.passFault f.bare frame.bare k.bare := by
  cases frame with
  | host resume => exact absurd trivial hframe
  | locate span =>
      obtain ⟨kind, message, place⟩ := f
      cases place <;> rfl
  | _ => rfl

theorem bare_enterPhrase (k : Stack p last)
    {entered entered' : Machine → Stack p last → Progress last}
    (hentered : ∀ n l, (entered n l).bare = entered' n.bare l.bare) :
    (m.enterPhrase k entered).bare = m.bare.enterPhrase k.bare entered' := by
  have hroom : m.bare.nesting = m.nesting := rfl
  rw [enterPhrase, enterPhrase, hroom]
  split
  · exact Progress.bare_raise m k _ _ _
  · exact hentered _ _

end Machine

namespace Situation

variable {hosts : HostTable}

/-- Unless a call comes next, the step without spans is the step, without spans. -/
theorem bare_step_of_not_calls (hosts : HostTable) (s : Situation last) (hs : ¬ s.Calls) :
    (s.step hosts).bare = s.bare.step hosts := by
  obtain ⟨phrase, focus, k, m⟩ := s
  cases focus with
  | evaluate e =>
      change (m.enterPhrase k fun m k => m.evaluateEntered k e).bare =
        m.bare.enterPhrase k.bare fun m k => m.evaluateEntered k e.bare
      exact Machine.bare_enterPhrase k fun n l => Machine.bare_evaluateEntered l e
  | execute s =>
      change (m.enterPhrase k fun m k => m.executeEntered k s).bare =
        m.bare.enterPhrase k.bare fun m k => m.executeEntered k s.bare
      exact Machine.bare_enterPhrase k fun n l => Machine.bare_executeEntered l s
  | executeAll body value => cases body <;> rfl
  | invoke | perform => exact absurd trivial hs
  | enter receiver closure arguments => exact Machine.bare_enterClosure k receiver closure arguments
  | value v =>
      cases k with
      | nil => rfl
      | cons frame k => exact Machine.bare_resumeValue v frame k hs
  | completion c =>
      cases k with
      | nil => rfl
      | cons frame k => exact Machine.bare_resumeCompletion c frame k
  | fault f =>
      cases k with
      | nil => rfl
      | cons frame k => exact Machine.bare_passFault f frame k hs

theorem calls_bare (s : Situation last) : s.bare.Calls ↔ s.Calls := by
  obtain ⟨phrase, focus, k, m⟩ := s
  cases focus <;> cases k <;> first | rfl | (rename_i frame k; cases frame <;> rfl)

/-- Without spans the same step is taken, to the same situation without spans. -/
theorem bare_step (hosts : HostTable) (s : Situation last) (hs : s.HostFree) :
    (s.step hosts).bare = (s.bare.step hosts).bare := by
  by_cases hcalls : s.Calls
  · obtain ⟨phrase, focus, k, m⟩ := s
    obtain ⟨hfocus, hk, -⟩ := hs
    cases focus with
    | invoke receiver callee arguments =>
        exact Machine.bare_invoke hosts k receiver arguments hfocus.2.1
    | perform script => exact hfocus.elim
    | _ =>
        cases k with
        | nil => exact hcalls.elim
        | cons frame k =>
            cases frame <;> first | exact hk.1.elim | exact hcalls.elim
  · have hbare : ¬ s.bare.Calls := fun h => hcalls ((calls_bare s).mp h)
    rw [bare_step_of_not_calls hosts s hcalls, bare_step_of_not_calls hosts s.bare hbare,
      bare_bare]

/-- Runs that differ in spans alone end alike, apart from spans. -/
theorem bare_run (hosts : HostTable) {s t : Situation last} (hs : s.HostFree) (ht : t.HostFree)
    (hbare : s.bare = t.bare) (fuel : Nat) :
    (s.run hosts fuel).map (fun result => (result.1.bare, result.2.bare)) =
      (t.run hosts fuel).map fun result => (result.1.bare, result.2.bare) := by
  induction fuel generalizing s t with
  | zero => rfl
  | succ fuel ih =>
      have hstep : (s.step hosts).bare = (t.step hosts).bare := by
        rw [bare_step hosts s hs, bare_step hosts t ht, hbare]
      have hfree := hostFree_step hosts hs
      have hfree' := hostFree_step hosts ht
      rw [run, run]
      generalize s.step hosts = progress at hstep hfree
      generalize t.step hosts = progress' at hstep hfree'
      cases progress with
      | next u =>
          cases progress' with
          | next u' => exact ih hfree hfree' (Progress.next.inj hstep)
          | halt m ending => cases hstep
      | halt m ending =>
          cases progress' with
          | next u' => cases hstep
          | halt m' ending' =>
              obtain ⟨hm, hending⟩ := Progress.halt.inj hstep
              exact congrArg some (Prod.ext hm hending)

/-- However much fuel two such runs are given, where both end they end alike, apart from spans. -/
theorem bare_eq_of_run {s t : Situation last} {fuel fuel' : Nat} {m n : Machine}
    {ending ending' : Ending last} (hs : s.HostFree) (ht : t.HostFree) (hbare : s.bare = t.bare)
    (hrun : s.run hosts fuel = some (m, ending)) (hrun' : t.run hosts fuel' = some (n, ending')) :
    n.bare = m.bare ∧ ending'.bare = ending.bare := by
  have hsame := bare_run hosts hs ht hbare (fuel + fuel')
  rw [run_add hrun fuel', Nat.add_comm, run_add hrun' fuel] at hsame
  obtain ⟨hmachine, hending⟩ := Prod.mk.inj (Option.some.inj hsame)
  exact ⟨hmachine.symm, hending.symm⟩

end Situation

end ScriptHost
