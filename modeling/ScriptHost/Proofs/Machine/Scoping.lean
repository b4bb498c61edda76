import ScriptHost.Proofs.Machine.Activation
import ScriptHost.Proofs.Machine.Chart

/-!
Scopes of a run are those of its code. Each step keeps what is at hand in agreement with the chart:
a function that is made is closed over the frames of the code that makes it, and a function that is
entered gets one frame more than it is closed over, as its statements lie in one body more.
-/

namespace ScriptHost

variable {p q last : Phrase}

namespace Machine

variable {c : Chart} {m : Machine}

theorem Placed.of_store {n : Machine} (hm : m.Placed c) (hstore : n.store.Placed c.origins)
    (hreceiver : n.receiver = m.receiver) (henvironment : n.environment = m.environment) :
    n.Placed c := by
  refine ⟨hstore, hreceiver ▸ hm.receiver, henvironment ▸ hm.environment, ?_⟩
  rw [Chart.site, henvironment]
  exact hm.executes

theorem Placed.set (hm : m.Placed c) (id : ObjectId) (name : String) {value : Value}
    (hvalue : value.Placed c.origins) :
    { m with store := m.store.set id name value }.Placed c :=
  hm.of_store (hm.store.set id name hvalue) rfl rfl

theorem Placed.enter {t : Tree} (hm : m.Placed c) (ht : (c.site m).Has t) :
    { m with nesting := m.nesting + 1 }.Placed (c.enter t) :=
  ⟨hm.store, hm.receiver, hm.environment, hm.executes.enter ht⟩

theorem Placed.leave (hm : m.Placed c) : m.left.Placed c.leave :=
  ⟨hm.store, hm.receiver, hm.environment, hm.executes.leave⟩

/-- A function is made by the phrase that is being run, and closed over the frames of that. -/
theorem Placed.close {t : Tree} {code : FunctionCode} (hm : m.Placed c)
    (ht : (c.site m).Has t) (hcode : t.function? = some code) :
    c.origins.Extends (c.record m t).origins ∧
      (m.close code).1.Placed (c.record m t).origins ∧
      (m.close code).2.Placed (c.record m t) := by
  have hextends : c.origins.Extends (c.record m t).origins := by
    intro identity origin horigin
    rw [Chart.origins_record hcode, Function.update_of_ne ?_, horigin]
    have hlt := hm.store.fresh identity (by simp [horigin])
    exact Nat.ne_of_lt hlt
  have hfresh : ∀ identity, (c.record m t).origins identity ≠ none →
      identity < m.store.nextIdentity + 1 := by
    intro identity hidentity
    by_cases heq : identity = m.store.nextIdentity
    · exact heq ▸ Nat.lt_succ_self _
    · rw [Chart.origins_record hcode, Function.update_of_ne heq] at hidentity
      exact Nat.lt_succ_of_lt (hm.store.fresh identity hidentity)
  have hvalue : (m.close code).1.Placed (c.record m t).origins := by
    refine ⟨c.current.unit, t, ?_, ht.1, ht.2, hcode, rfl⟩
    rw [Chart.origins_record hcode]
    exact Function.update_self ..
  refine ⟨hextends, hvalue, ⟨fun id name v hv => (hm.store.values id name v hv).mono hextends,
    hfresh⟩, hm.receiver.mono hextends, hm.environment, ?_⟩
  rw [Chart.site, Chart.running_record]
  exact hm.executes

/-! One lemma for each part of a step. -/

theorem placed_readMember {k : Stack .expression last} {owner : Value} {property : String}
    {span : Span} {use : Value → Progress last} (hm : m.Placed c)
    (hk : k.Placed c.origins (c.site m)) (huse : ∀ v, v.Placed c.origins → (use v).Placed c) :
    (m.readMember k owner property span use).Placed c := by
  unfold readMember
  split
  · rename_i id
    exact huse _ (placed_getD fun v hv => hm.store.values id property v hv)
  · apply huse
    split <;> exact trivial
  · exact Progress.placed_raise _ _ _ hm hk
  · exact Progress.placed_raise _ _ _ hm hk
  · exact huse _ trivial

theorem placed_callWith {k : Stack .expression last} {site : CallSite}
    {receiver function : Value} {done : List Value} {rest : List Expr} (hm : m.Placed c)
    (hk : k.Placed c.origins (c.site m)) (hreceiver : receiver.Placed c.origins)
    (hfunction : function.Placed c.origins) (hdone : ∀ v ∈ done, v.Placed c.origins)
    (hrest : ∀ e ∈ rest, (c.site m).Has (.expr e)) :
    (m.callWith k site receiver function done rest).Placed c := by
  cases rest with
  | nil =>
      rw [callWith]
      split
      · refine ⟨⟨hreceiver, hfunction, ?_⟩, ⟨trivial, hk⟩, hm⟩
        intro v hv
        exact hdone v (List.mem_reverse.mp hv)
      · exact Progress.placed_raise _ _ _ hm hk
  | cons argument rest =>
      obtain ⟨hargument, hrest⟩ := List.forall_mem_cons.mp hrest
      exact ⟨hargument, ⟨⟨⟨hreceiver, hfunction, hdone⟩, hrest⟩, hk⟩, hm⟩

theorem placed_fillObject {k : Stack .expression last} {id : ObjectId} {entries : List Entry}
    (hm : m.Placed c) (hk : k.Placed c.origins (c.site m))
    (hentries : ∀ entry ∈ entries, (c.site m).Has (.expr entry.value)) :
    (m.fillObject k id entries).Placed c := by
  cases entries with
  | nil => exact ⟨trivial, hk, hm⟩
  | cons entry rest =>
      obtain ⟨hentry, hrest⟩ := List.forall_mem_cons.mp hentries
      exact ⟨hentry, ⟨hrest, hk⟩, hm⟩

theorem placed_evaluateEntered {k : Stack .expression last} {e : Expr} (hm : m.Placed c)
    (hk : k.Placed c.origins (c.site m)) (hcode : (c.site m).Has (.expr e)) :
    (m.evaluateEntered k e).Placed (c.record m (.expr e)) := by
  cases e with
  | literal span literal => exact ⟨literal.placed_value, hk, hm⟩
  | «variable» span name =>
      rw [evaluateEntered]
      split
      · rename_i v hv
        exact ⟨hm.store.of_lookup hv, hk, hm⟩
      · exact Progress.placed_raise _ _ _ hm hk
  | this span => exact ⟨hm.receiver, hk, hm⟩
  | binary span op left right | logical span op left right =>
      have hright := hcode.inner (u := .expr right) rfl List.mem_cons_self
      exact ⟨hcode.left rfl, ⟨hright, hk⟩, hm⟩
  | unary span op operand =>
      have hoperand := hcode.inner (u := .expr operand) rfl List.mem_cons_self
      unfold evaluateEntered
      split
      all_goals first
        | contradiction
        | exact ⟨trivial, hk, hm⟩
        | cases ‹Expr.unary _ _ _ = _›; exact ⟨hoperand, ⟨trivial, hk⟩, hm⟩
  | assign span target value =>
      have hvalue := hcode.inner (u := .expr value) rfl List.mem_cons_self
      exact ⟨hvalue, ⟨hcode.left rfl, hk⟩, hm⟩
  | call span callee arguments =>
      have hcallee : (c.site m).Has (.expr callee) := hcode.left rfl
      have harguments : ∀ e ∈ arguments, (c.site m).Has (.expr e) := by
        intro e he
        exact hcode.inner rfl (List.mem_map_of_mem he)
      cases callee with
      | member ownerSpan owner property =>
          exact ⟨hcallee.left rfl, ⟨harguments, hk⟩, hm⟩
      | _ => exact ⟨hcallee, ⟨harguments, hk⟩, hm⟩
  | member span owner property => exact ⟨hcode.left rfl, ⟨trivial, hk⟩, hm⟩
  | object span entries =>
      refine placed_fillObject (m := (m.allocate .plain).2)
        (hm.of_store (hm.store.allocate .plain) rfl rfl) hk ?_
      intro entry hentry
      exact hcode.inner rfl
        (List.mem_map_of_mem (f := fun entry : Entry => Tree.expr entry.value) hentry)
  | function span code =>
      obtain ⟨hextends, hvalue, hleft⟩ := hm.close hcode rfl
      refine ⟨hvalue, ?_, hleft⟩
      rw [Chart.site, Chart.running_record]
      exact hk.mono hextends

theorem placed_executeEntered {k : Stack .statement last} {s : Stmt} (hm : m.Placed c)
    (hk : k.Placed c.origins (c.site m)) (hcode : (c.site m).Has (.stmt s)) :
    (m.executeEntered k s).Placed (c.record m (.stmt s)) := by
  cases s with
  | var span name initial =>
      cases initial with
      | some e =>
          have he := hcode.inner (u := .expr e) rfl List.mem_cons_self
          exact ⟨he, ⟨trivial, hk⟩, hm⟩
      | none =>
          rw [executeEntered]
          split
          · exact ⟨placed_none, hk, hm⟩
          · exact ⟨placed_none, hk, hm.set _ _ trivial⟩
  | function span code =>
      obtain ⟨hextends, hvalue, hleft⟩ := hm.close hcode rfl
      have hk' : k.Placed (c.record m (.stmt (.function span code))).origins
          ((c.record m (.stmt (.function span code))).site m) := by
        rw [Chart.site, Chart.running_record]
        exact hk.mono hextends
      unfold executeEntered
      dsimp only
      split
      · exact ⟨placed_none, hk', hleft.set _ _ hvalue⟩
      · exact ⟨placed_none, hk', hleft⟩
  | expression span e =>
      have he := hcode.inner (u := .expr e) rfl List.mem_cons_self
      exact ⟨he, ⟨trivial, hk⟩, hm⟩
  | block span body =>
      have hbody : ∀ s ∈ body, (c.site m).Has (.stmt s) := by
        intro s hs
        exact hcode.inner rfl (List.mem_map_of_mem hs)
      exact ⟨⟨hbody, placed_none⟩, hk, hm⟩
  | conditional span condition thenBranch elseBranch =>
      have hcondition := hcode.inner (u := .expr condition) rfl List.mem_cons_self
      have hthen := hcode.inner (u := .stmt thenBranch) rfl
        (List.mem_cons_of_mem _ List.mem_cons_self)
      refine ⟨hcondition, ⟨⟨hthen, ?_⟩, hk⟩, hm⟩
      intro s hs
      refine hcode.inner rfl (List.mem_cons_of_mem _ (List.mem_cons_of_mem _ ?_))
      exact List.mem_map_of_mem (Option.mem_toList.mpr hs)
  | «while» span condition body =>
      have hcondition := hcode.inner (u := .expr condition) rfl List.mem_cons_self
      exact ⟨hcondition, ⟨⟨⟨span, hcode⟩, placed_none⟩, hk⟩, hm⟩
  | «return» span value =>
      cases value with
      | some e =>
          have he := hcode.inner (u := .expr e) rfl List.mem_cons_self
          exact ⟨he, ⟨trivial, hk⟩, hm⟩
      | none => exact ⟨trivial, hk, hm⟩
  | empty span => exact ⟨placed_none, hk, hm⟩

/-- The code of a closure that is entered is placed in the frames that it is entered in. -/
theorem placed_inside {receiver : Value} {closure : Closure} {arguments : List Value}
    (hm : m.Placed c) (hreceiver : receiver.Placed c.origins)
    (hclosure : closure.Ready c.called) (harguments : ∀ v ∈ arguments, v.Placed c.origins) :
    (m.inside receiver closure arguments).Placed
        { c with running := ⟨c.entered closure, []⟩ :: c.running } ∧
      ∀ s ∈ closure.code.body,
        Site.Has ⟨⟨c.entered closure, []⟩ :: c.running,
          (m.inside receiver closure arguments).environment.depth⟩ (.stmt s) := by
  have hnone (site : Site) (h : site.current.phrases = []) : site.Executes := by
    intro t ht
    rw [h] at ht
    cases ht
  cases hclosure with
  | program hunit hdepth hprogram =>
      rw [inside, Chart.entered, hunit]
      refine ⟨⟨hm.store, hreceiver, ?_, hnone _ rfl⟩, fun s hs => ⟨hprogram, ?_⟩⟩
      · exact hdepth ▸ Nat.zero_le _
      · exact hdepth ▸ Lies.top hs
  | function h =>
      rw [inside, Chart.entered, h.isUnit]
      have hstore := (hm.store.allocate .scope).bindParameters (m.store.allocate .scope).1
        closure.code.parameters harguments
      exact ⟨⟨hstore, hreceiver, h.lies.lt h.program, hnone _ rfl⟩,
        fun s hs => ⟨h.program, h.lies.body h.code hs⟩⟩

theorem placed_enterClosure {k : Stack .expression last} {receiver : Value} {closure : Closure}
    {arguments : List Value} (hm : m.Placed c) (hk : k.Placed c.origins (c.site m))
    (hreceiver : receiver.Placed c.origins) (hclosure : closure.Ready c.called)
    (harguments : ∀ v ∈ arguments, v.Placed c.origins) :
    (m.enterClosure k receiver closure arguments).Placed
      (c.after ⟨_, .enter receiver closure arguments, k, m⟩) := by
  rw [Chart.after]
  by_cases hroom : m.depth < m.maxCallDepth
  · obtain ⟨hinside, hbody⟩ := placed_inside hm hreceiver hclosure harguments
    rw [enterClosure_of_lt receiver closure arguments hroom, if_pos hroom]
    exact ⟨⟨hbody, placed_none⟩, ⟨⟨⟨hm.environment, hm.receiver⟩, hm.executes⟩, hk⟩, hinside⟩
  · rw [enterClosure, if_pos (Nat.not_lt.mp hroom), if_neg hroom]
    exact Progress.placed_raise _ _ _ hm hk

theorem placed_print {k : Stack .expression last} (arguments : List Value)
    (hm : m.Placed c) (hk : k.Placed c.origins (c.site m)) :
    (m.print k arguments).Placed c := by
  unfold print
  dsimp only
  split
  · exact ⟨trivial, hk, hm.of_store hm.store rfl rfl⟩
  · exact Progress.placed_raise _ _ _ hm hk

/-- A text that eval compiles is a program of its own and bound to the global frame. -/
theorem placed_evalArgument {k : Stack .expression last} {arguments : List Value}
    (hm : m.Placed c) (hk : k.Placed c.origins (c.site m))
    (harguments : ∀ v ∈ arguments, v.Placed c.origins) :
    (m.evalArgument k arguments).Placed c := by
  unfold evalArgument
  split
  · exact ⟨trivial, hk, hm⟩
  · rename_i source rest
    have hleft : (m.compile evalUnitName source).2.Placed c :=
      hm.of_store hm.store rfl rfl
    dsimp only
    split
    · rename_i u hu
      obtain ⟨body, hbody, rfl⟩ := ScriptUnit.exists_ofBody_of_compile hu
      exact ⟨⟨trivial, .program rfl rfl ⟨source, .empty, hbody⟩, by simp⟩, hk, hleft⟩
    · exact Progress.placed_raise _ _ _ hleft hk
  · exact ⟨harguments _ List.mem_cons_self, hk, hm⟩

theorem placed_invoke {k : Stack .expression last} (hosts : HostTable) {receiver callee : Value}
    {arguments : List Value} (hm : m.Placed c) (hk : k.Placed c.origins (c.site m))
    (hreceiver : receiver.Placed c.origins) (hcallee : callee.Placed c.origins)
    (harguments : ∀ v ∈ arguments, v.Placed c.origins) :
    (m.invoke hosts k receiver arguments callee).Placed
      (c.after ⟨_, .invoke receiver callee arguments, k, m⟩) := by
  cases callee with
  | function identity closure =>
      obtain ⟨unit, t, horigin, hmade⟩ := hcallee
      have hunit : c.unitOf identity = unit := by
        rw [Chart.unitOf, horigin]
        rfl
      have hready : closure.Ready (c.unitOf identity) := .function (hunit ▸ hmade)
      exact ⟨⟨hreceiver, hready, harguments⟩, hk, hm.store, hm.receiver, hm.environment,
        hm.executes⟩
  | native identity code =>
      cases code with
      | print => exact placed_print arguments hm hk
      | eval => exact placed_evalArgument hm hk harguments
      | host name => exact hcallee.elim
  | _ => exact Progress.placed_raise _ _ _ hm hk

theorem placed_assignTo {k : Stack .expression last} {value : Value} {target : Expr}
    (hm : m.Placed c) (hk : k.Placed c.origins (c.site m))
    (hvalue : value.Placed c.origins) (hcode : (c.site m).Has (.expr target)) :
    (m.assignTo k value target).Placed c := by
  unfold assignTo
  split
  · exact ⟨hvalue, hk, hm.of_store (hm.store.assign _ _ hvalue) rfl rfl⟩
  · exact ⟨hcode.left rfl, ⟨hvalue, hk⟩, hm⟩
  · exact Progress.placed_raise _ _ _ hm hk

theorem placed_resumeValue {v : Value} {frame : Frame .expression q} {k : Stack q last}
    (hm : m.Placed c) (hv : v.Placed c.origins)
    (hk : (Stack.cons frame k).Placed c.origins (c.site m)) :
    (m.resumeValue v frame k).Placed (c.after ⟨_, .value v, .cons frame k, m⟩) := by
  obtain ⟨hframe, hk⟩ := hk
  have hlast : ∀ w ∈ some v, w.Placed c.origins := by simpa using hv
  cases frame with
  | leave => exact ⟨hv, hk, hm.leave⟩
  | binaryRight op right => exact ⟨hframe, ⟨hv, hk⟩, hm⟩
  | binaryApply op left => exact ⟨Value.placed_binary op left v, hk, hm⟩
  | logicalRight op right =>
      unfold resumeValue
      dsimp only
      split <;> split <;> first | exact ⟨hv, hk, hm⟩ | exact ⟨hframe, hk, hm⟩
  | unaryApply op => exact ⟨Value.placed_unary op v, hk, hm⟩
  | assignTo target => exact placed_assignTo hm hk hv hframe
  | assignMember span property value =>
      unfold resumeValue
      dsimp only
      split
      · exact ⟨hframe, hk, hm.set _ _ hframe⟩
      · exact Progress.placed_raise _ _ _ hm hk
  | readMember span property =>
      unfold resumeValue
      exact placed_readMember hm hk fun w hw => ⟨hw, hk, hm⟩
  | callMember site property =>
      unfold resumeValue
      exact placed_readMember hm hk fun f hf => placed_callWith hm hk hv hf (by simp) hframe
  | callFunction site => exact placed_callWith hm hk trivial hv (by simp) hframe
  | callArgument site receiver function done rest =>
      obtain ⟨⟨hreceiver, hfunction, hdone⟩, hrest⟩ := hframe
      exact placed_callWith hm hk hreceiver hfunction (List.forall_mem_cons.mpr ⟨hv, hdone⟩) hrest
  | locate span => exact ⟨hv, hk, hm⟩
  | objectEntry id key rest => exact placed_fillObject (hm.set id key hv) hk hframe
  | host resume => exact hframe.elim
  | defineVar name => exact ⟨placed_none, hk, hm.set _ _ hv⟩
  | complete => exact ⟨hlast, hk, hm⟩
  | branch thenBranch elseBranch =>
      unfold resumeValue
      dsimp only
      split
      · exact ⟨hframe.1, hk, hm⟩
      · split
        · exact ⟨hframe.2 _ rfl, hk, hm⟩
        · exact ⟨placed_none, hk, hm⟩
  | loopTest condition body value =>
      obtain ⟨⟨span, hcode⟩, hvalue⟩ := hframe
      have hbody := hcode.inner (u := .stmt body) rfl
        (List.mem_cons_of_mem _ List.mem_cons_self)
      unfold resumeValue
      dsimp only
      split
      · exact ⟨hbody, ⟨⟨⟨span, hcode⟩, hvalue⟩, hk⟩, hm⟩
      · exact ⟨hvalue, hk, hm⟩
  | returnValue => exact ⟨hv, hk, hm⟩

theorem Placed.returned {environment : Environment} {receiver : Value} {isUnit : Bool}
    (hm : m.Placed c)
    (hframe : (Frame.returnTo environment receiver isUnit).Placed c.origins (c.site m)) :
    (m.returned environment receiver).Placed { c with running := c.running.tail } :=
  ⟨hm.store, hframe.1.2, hframe.1.1, hframe.2⟩

theorem placed_resumeCompletion {result : Completion} {frame : Frame .statement q}
    {k : Stack q last} (hm : m.Placed c) (hresult : result.Placed c.origins)
    (hk : (Stack.cons frame k).Placed c.origins (c.site m)) :
    (m.resumeCompletion result frame k).Placed
      (c.after ⟨_, .completion result, .cons frame k, m⟩) := by
  obtain ⟨hframe, hk⟩ := hk
  cases frame with
  | leave => exact ⟨hresult, hk, hm.leave⟩
  | returnTo environment receiver isUnit =>
      refine ⟨?_, hk, hm.returned hframe⟩
      cases result with
      | «return» v => exact hresult
      | normal value =>
          cases isUnit with
          | true => exact placed_getD hresult
          | false => exact trivial
  | loopBody condition body value =>
      obtain ⟨⟨span, hcode⟩, hvalue⟩ := hframe
      have hcondition := hcode.inner (u := .expr condition) rfl List.mem_cons_self
      cases result with
      | «return» v => exact ⟨hresult, hk, hm⟩
      | normal latest =>
          exact ⟨hcondition, ⟨⟨⟨span, hcode⟩, placed_or hresult hvalue⟩, hk⟩, hm⟩
  | sequence rest value =>
      cases result with
      | «return» v => exact ⟨hresult, hk, hm⟩
      | normal latest => exact ⟨⟨hframe.1, placed_or hresult hframe.2⟩, hk, hm⟩

theorem placed_passFault (f : Fault) {frame : Frame p q} {k : Stack q last}
    (hm : m.Placed c) (hk : (Stack.cons frame k).Placed c.origins (c.site m)) :
    (m.passFault f frame k).Placed (c.after ⟨_, .fault f, .cons frame k, m⟩) := by
  obtain ⟨hframe, hk⟩ := hk
  cases frame with
  | host resume => exact hframe.elim
  | leave => cases p <;> exact ⟨trivial, hk, hm.leave⟩
  | returnTo environment receiver isUnit =>
      exact ⟨trivial, hk, hm.returned hframe⟩
  | _ => exact ⟨trivial, hk, hm⟩

end Machine

namespace Situation

/-- Where what is at hand agrees with the chart, it agrees with the chart after the step as well. -/
theorem placed_step (hosts : HostTable) {c : Chart} {s : Situation last} (hs : s.Placed c) :
    (s.step hosts).Placed (c.after s) := by
  obtain ⟨phrase, focus, k, m⟩ := s
  obtain ⟨hfocus, hk, hm⟩ := hs
  cases focus with
  | evaluate e =>
      rw [step, Machine.enterPhrase, Chart.after]
      by_cases hroom : m.nesting < maxNesting
      · rw [if_neg (Nat.not_le.mpr hroom), if_pos hroom]
        exact Machine.placed_evaluateEntered (hm.enter hfocus) (Stack.placed_enter hk _)
          (Site.has_enter.mpr hfocus)
      · rw [if_pos (Nat.not_lt.mp hroom), if_neg hroom]
        exact Progress.placed_raise _ _ _ hm hk
  | execute s =>
      rw [step, Machine.enterPhrase, Chart.after]
      by_cases hroom : m.nesting < maxNesting
      · rw [if_neg (Nat.not_le.mpr hroom), if_pos hroom]
        exact Machine.placed_executeEntered (hm.enter hfocus) (Stack.placed_enter hk _)
          (Site.has_enter.mpr hfocus)
      · rw [if_pos (Nat.not_lt.mp hroom), if_neg hroom]
        exact Progress.placed_raise _ _ _ hm hk
  | executeAll body value =>
      cases body with
      | nil => exact ⟨hfocus.2, hk, hm⟩
      | cons s rest =>
          obtain ⟨hs, hrest⟩ := List.forall_mem_cons.mp hfocus.1
          exact ⟨hs, ⟨⟨hrest, hfocus.2⟩, hk⟩, hm⟩
  | invoke receiver callee arguments =>
      exact Machine.placed_invoke hosts hm hk hfocus.1 hfocus.2.1 hfocus.2.2
  | enter receiver closure arguments =>
      exact Machine.placed_enterClosure hm hk hfocus.1 hfocus.2.1 hfocus.2.2
  | perform script => exact hfocus.elim
  | value v =>
      cases k with
      | nil => exact ⟨hm, hfocus⟩
      | cons frame k => exact Machine.placed_resumeValue hm hfocus hk
  | completion result =>
      cases k with
      | nil => exact ⟨hm, hfocus⟩
      | cons frame k => exact Machine.placed_resumeCompletion hm hfocus hk
  | fault f =>
      cases k with
      | nil => cases last <;> exact ⟨hm, trivial⟩
      | cons frame k => exact Machine.placed_passFault f hm hk

/-- A step adds to the origins and changes none. -/
theorem extends_after {c : Chart} {s : Situation last} (hs : s.Placed c) :
    c.origins.Extends (c.after s).origins := by
  have hrecord {m : Machine} {t : Tree} (hm : m.Placed c) (ht : (c.site m).Has t) :
      c.origins.Extends (((c.enter t).record m t).origins) := by
    cases hfunction : t.function? with
    | none =>
        rw [Chart.record, hfunction]
        exact fun _ _ h => h
    | some code => exact ((hm.enter ht).close (Site.has_enter.mpr ht) hfunction).1
  unfold Chart.after
  split
  · split
    · exact hrecord hs.machine hs.focus
    · exact fun _ _ h => h
  · split
    · exact hrecord hs.machine hs.focus
    · exact fun _ _ h => h
  · exact fun _ _ h => h
  · split <;> exact fun _ _ h => h
  all_goals exact fun _ _ h => h

/-- A situation that a run passes through, with the chart that was kept beside the run. -/
inductive Charted (hosts : HostTable) (begun : Chart) (start : Situation last) :
    Chart → Situation last → Prop
  | start : Charted hosts begun start begun start
  | step {c : Chart} {s t : Situation last} (h : Charted hosts begun start c s)
      (hstep : s.step hosts = .next t) : Charted hosts begun start (c.after s) t

/-- The chart so many steps on, or where the run ends before. -/
def chartAfter (hosts : HostTable) : Nat → Chart → Situation last → Chart
  | 0, c, _ => c
  | fuel + 1, c, s =>
    match s.step hosts with
    | .next t => t.chartAfter hosts fuel (c.after s)
    | .halt _ _ => c.after s

/-- Where a run ends, its machine and its ending agree with the chart, which has all origins that
there were. -/
theorem placed_of_run {hosts : HostTable} {fuel : Nat} {c : Chart} {s : Situation last}
    {m : Machine} {ending : Ending last} (hs : s.Placed c)
    (h : s.run hosts fuel = some (m, ending)) :
    m.Placed (s.chartAfter hosts fuel c) ∧ ending.Placed (s.chartAfter hosts fuel c).origins ∧
      c.origins.Extends (s.chartAfter hosts fuel c).origins := by
  induction fuel generalizing c s with
  | zero => cases h
  | succ fuel ih =>
      have hextends := extends_after hs
      have hstep := placed_step hosts hs
      rw [run] at h
      rw [chartAfter]
      cases hnext : s.step hosts with
      | next t =>
          rw [hnext] at h hstep
          obtain ⟨hmachine, hending, hmore⟩ := ih hstep h
          exact ⟨hmachine, hending, fun identity origin ho => hmore _ _ (hextends _ _ ho)⟩
      | halt n e =>
          rw [hnext] at h hstep
          obtain ⟨rfl, rfl⟩ := Prod.mk.inj (Option.some.inj h)
          exact ⟨hstep.1, hstep.2, hextends⟩

end Situation

end ScriptHost
