import Mathlib.Data.List.Shortlex
import ScriptHost.Proofs.Machine.Counters
import ScriptHost.Proofs.Machine.Policy
import ScriptHost.Proofs.Session.Rest

/-!
Runs without loops. Each call level holds the work that is pending on it. A step takes work from the
level that it is on; it may open a new level with any work at all, but only by giving up some of its
own. The levels are as few as the limit on calls allows, so their work, read from the outermost
level inwards, goes down in the lexicographic order, and no run without loops goes on for ever.
-/

namespace ScriptHost

variable {p q last : Phrase} {hosts : HostTable}

namespace Tree

/-- A statement that may be executed any number of times. -/
def isLoop : Tree → Bool
  | .stmt (.while _ _ _) => true
  | _ => false

/-- There is no loop anywhere within the tree. -/
def LoopFree (t : Tree) : Prop :=
  ∀ (u : Tree) (levels lefts : Nat), t.Path u levels lefts → u.isLoop = false

theorem LoopFree.left {t : Tree} {e : Expr} (h : t.LoopFree) (he : t.leftPart? = some e) :
    (expr e).LoopFree :=
  fun u _ _ hpath => h u _ _ (.left he hpath)

theorem LoopFree.inner {t u : Tree} (h : t.LoopFree) (hu : u ∈ t.innerParts) : u.LoopFree :=
  fun v _ _ hpath => h v _ _ (.inner hu hpath)

/-- Whether a tree of no more than so many levels is without loops. -/
def isLoopFree : Nat → Tree → Bool
  | 0, _ => false
  | levels + 1, t => !t.isLoop && (t.leftPart?.all (fun e => isLoopFree levels (.expr e)) &&
    t.innerParts.all (isLoopFree levels))

theorem loopFree_of_isLoopFree {levels : Nat} {t : Tree} (h : t.isLoopFree levels = true) :
    t.LoopFree := by
  induction levels generalizing t with
  | zero => simp [isLoopFree] at h
  | succ levels ih =>
      rw [isLoopFree, Bool.and_eq_true, Bool.and_eq_true, Bool.not_eq_true'] at h
      obtain ⟨hloop, hleft, hinner⟩ := h
      intro u _ _ hpath
      cases hpath with
      | here => exact hloop
      | left hpart hrest => exact ih ((Option.all_eq_true _ _).mp hleft _ hpart) u _ _ hrest
      | inner hpart hrest => exact ih (List.all_eq_true.mp hinner _ hpart) u _ _ hrest

end Tree

/-- The policy that asks of code that it has no loops. -/
def Policy.loopFree : Policy where
  object := fun _ => True
  environment := fun _ => True
  code := Tree.LoopFree
  left := Tree.LoopFree.left
  inner := Tree.LoopFree.inner

/-! ## Pending work -/

namespace Stack

/-- The work that the frames of the innermost call have yet to do. -/
def due : {p q : Phrase} → Stack p q → Nat
  | _, _, .nil => 0
  | _, _, .cons frame rest => if frame.calls = 0 then rest.due + frame.work else 0

/-- The work that is pending on each level outside of the innermost call, outermost first. -/
def settled : {p q : Phrase} → Stack p q → List Nat
  | _, _, .nil => []
  | _, _, .cons frame rest =>
    if frame.calls = 0 then rest.settled else rest.settled ++ [rest.due + 1]

variable {k : Stack q last} {frame : Frame p q}

theorem due_cons (h : frame.calls = 0) : (cons frame k).due = k.due + frame.work := if_pos h

theorem settled_cons (h : frame.calls = 0) : (cons frame k).settled = k.settled := if_pos h

theorem calls_cons (h : frame.calls = 0) : (cons frame k).calls = k.calls := by
  rw [calls, h, Nat.add_zero]

theorem length_settled (k : Stack p q) : k.settled.length = k.calls := by
  induction k with
  | nil => rfl
  | cons frame rest ih =>
      cases frame with
      | returnTo environment receiver isUnit =>
          simp [settled, calls, Frame.calls, ih]
      | _ => simp [settled, calls, Frame.calls, ih]

end Stack

namespace Situation

/-- The work that is pending on each level, outermost first, with room for as many calls as the
limit allows. Every level there is counts for one more than its work. -/
def burden (limit : Nat) (s : Situation last) : List Nat :=
  s.stack.settled ++
    (s.focus.work + s.stack.due + 1) :: List.replicate (limit - s.stack.calls) 0

/-- Less work is pending in the second situation. -/
def Relieves (limit : Nat) (s t : Situation last) : Prop :=
  List.Shortlex (· < ·) (t.burden limit) (s.burden limit)

variable {limit : Nat}

theorem length_burden {s : Situation last} (h : s.stack.calls ≤ limit) :
    (s.burden limit).length = limit + 1 := by
  simp only [burden, List.length_append, List.length_cons, List.length_replicate,
    Stack.length_settled]
  omega

/-- Work is taken from the innermost level. -/
theorem relieves_of_lt {s t : Situation last} (hsettled : t.stack.settled = s.stack.settled)
    (hcalls : t.stack.calls = s.stack.calls)
    (hwork : t.focus.work + t.stack.due < s.focus.work + s.stack.due) : s.Relieves limit t := by
  refine List.Shortlex.of_lex ?_ ?_
  · simp only [burden, hsettled, hcalls, List.length_append, List.length_cons,
      List.length_replicate]
  · rw [burden, burden, hsettled]
    exact List.Lex.append_left _ (List.Lex.rel (Nat.succ_lt_succ hwork)) _

/-- A new level is opened for what the call had to pay. -/
theorem relieves_of_enter {receiver : Value} {closure : Closure} {arguments : List Value}
    {k : Stack .expression last} {m n : Machine} {f : Focus .statement} {environment : Environment}
    {caller : Value} {isUnit : Bool} (hroom : k.calls < limit) :
    Relieves limit ⟨_, .enter receiver closure arguments, k, m⟩
      ⟨_, f, .cons (.returnTo environment caller isUnit) k, n⟩ := by
  refine List.Shortlex.of_lex ?_ ?_
  · rw [length_burden (Nat.succ_le_of_lt hroom), length_burden (Nat.le_of_lt hroom)]
  · have hsettled : (Stack.cons (.returnTo environment caller isUnit) k).settled =
        k.settled ++ [k.due + 1] := rfl
    rw [burden, burden, hsettled, List.append_assoc]
    refine List.Lex.append_left _ (List.Lex.rel ?_) _
    simp only [Focus.work]
    omega

/-- The innermost level is given up. -/
theorem relieves_of_return {f : Focus .statement} {g : Focus .expression}
    {k : Stack .expression last} {m n : Machine} {environment : Environment} {caller : Value}
    {isUnit : Bool} (hroom : k.calls < limit) (hg : g.work = 0) :
    Relieves limit ⟨_, f, .cons (.returnTo environment caller isUnit) k, m⟩ ⟨_, g, k, n⟩ := by
  refine List.Shortlex.of_lex ?_ ?_
  · rw [length_burden (Nat.le_of_lt hroom), length_burden (Nat.succ_le_of_lt hroom)]
  · have hsettled : (Stack.cons (.returnTo environment caller isUnit) k).settled =
        k.settled ++ [k.due + 1] := rfl
    have hleft : limit - k.calls = (limit - (k.calls + 1)) + 1 := by omega
    rw [burden, burden, hsettled, List.append_assoc]
    refine List.Lex.append_left _ ?_ _
    simp only [hg, hleft, List.replicate_succ, Nat.zero_add]
    exact List.Lex.cons (List.Lex.rel (Nat.succ_pos _))

/-- A result that passes a frame leaves less to be done. -/
theorem relieves_release {f : Focus p} {g : Focus q} {frame : Frame p q} {k : Stack q last}
    {m n : Machine} (hroom : (Stack.cons frame k).calls ≤ limit) (hg : g.work = 0) :
    Relieves limit ⟨p, f, .cons frame k, m⟩ ⟨q, g, k, n⟩ := by
  by_cases hcalls : frame.calls = 0
  · refine relieves_of_lt (Stack.settled_cons hcalls).symm (Stack.calls_cons hcalls).symm ?_
    have hpos := frame.work_pos
    simp only [Stack.due_cons hcalls, hg]
    omega
  · cases frame with
    | returnTo environment receiver isUnit => exact relieves_of_return hroom hg
    | _ => exact absurd rfl hcalls

theorem relieves_onward {s : Situation last} {m : Machine} {k : Stack p last}
    {progress : Progress last} {work : Nat} (honward : progress.Onward m k work)
    (hsettled : k.settled = s.stack.settled) (hcalls : k.calls = s.stack.calls)
    (hwork : work + k.due ≤ s.focus.work + s.stack.due) :
    progress.Leads (s.Relieves limit) fun _ _ => True := by
  cases honward with
  | moved hn hf hless =>
      refine relieves_of_lt hsettled hcalls ?_
      dsimp only
      omega
  | pushed hn hframe hf hless =>
      have hnone := Frame.calls_of_not_restores hframe
      refine relieves_of_lt ((Stack.settled_cons hnone).trans hsettled)
        ((Stack.calls_cons hnone).trans hcalls) ?_
      simp only [Stack.due_cons hnone]
      omega
  | raised b kind message span hless =>
      have hfault : 0 + k.due < s.focus.work + s.stack.due := by omega
      exact Progress.leads_raise kind message span (relieves_of_lt hsettled hcalls hfault)
        fun _ => trivial

theorem relieves_raise {f : Focus p} {k : Stack p last} {m : Machine} (kind : FaultKind)
    (message : String) (span : Option Span) (hwork : 0 < f.work) :
    (Progress.raise m k kind message span).Leads (Relieves limit ⟨p, f, k, m⟩)
      fun _ _ => True := by
  have hfault : 0 + k.due < f.work + k.due := Nat.add_lt_add_right hwork _
  exact Progress.leads_raise kind message span (relieves_of_lt rfl rfl hfault) fun _ => trivial

/-- Each step of a run without loops leaves less to be done. -/
theorem relieves_step (hosts : HostTable) {s : Situation last} (hfree : s.HostFree)
    (hcounted : s.Counted limit) (hobeys : s.Obeys .loopFree) :
    (s.step hosts).Leads (s.Relieves limit) fun _ _ => True := by
  have hcalls : s.stack.calls ≤ limit := hcounted.depth ▸ hcounted.depth_le
  have hmoves := moves_step hosts hfree
  generalize s.step hosts = progress at hmoves
  cases hmoves with
  | tooDeep hphrase => exact relieves_raise _ _ _ (Focus.work_pos_of_isPhrase hphrase)
  | begun hphrase hroom hwork honward =>
      refine relieves_onward honward rfl rfl ?_
      rw [Stack.due_cons rfl, Frame.work_leave]
      dsimp only
      omega
  | tooMany => exact relieves_raise _ _ _ Nat.one_pos
  | entered hroom =>
      refine relieves_of_enter ?_
      rw [← hcounted.maxCallDepth, ← hcounted.depth]
      exact hroom
  | went hbetween honward => exact relieves_onward honward rfl rfl (Nat.le_refl _)
  | resumed hresult hf hframe honward =>
      have hnone := Frame.calls_of_not_restores hframe
      refine relieves_onward honward (Stack.settled_cons hnone).symm (Stack.calls_cons hnone).symm ?_
      simp only [Stack.due_cons hnone]
      omega
  | again =>
      obtain ⟨⟨span, hloop⟩, -⟩ := hobeys.stack.1
      exact nomatch hloop _ _ _ (.here _)
  | returned hresult hf hframe hg => exact relieves_release hcalls (Focus.work_of_isResult hg)
  | unwound => exact relieves_release hcalls rfl
  | ended => trivial

/-- A run comes to its end where all code that it meets is free of loops. -/
theorem exists_run_of_loopFree {s : Situation last} (hfree : s.HostFree)
    (hcounted : s.Counted limit) (hobeys : s.Obeys .loopFree)
    (hgrants : ∀ t, s.Passes hosts t → Policy.loopFree.Grants t) :
    ∃ fuel n ending, s.run hosts fuel = some (n, ending) := by
  have hwell : WellFounded fun t s : Situation last => s.Relieves limit t :=
    InvImage.wf (burden limit) (List.Shortlex.wf Nat.lt_wfRel.wf)
  induction s using hwell.induction with
  | _ s ih =>
      have hless := relieves_step hosts hfree hcounted hobeys
      have hfree' := hostFree_step hosts hfree
      have hcounted' := counted_step hosts hfree hcounted
      have hobeys' := obeys_step hosts hobeys (hgrants s .refl)
      cases hstep : s.step hosts with
      | halt n ending => exact ⟨1, n, ending, by rw [run, hstep]⟩
      | next t =>
          rw [hstep] at hless hfree' hcounted' hobeys'
          obtain ⟨fuel, n, ending, hrun⟩ := ih t hless hfree' hcounted' hobeys' fun u hu =>
            hgrants u (.head hstep hu)
          exact ⟨fuel + 1, n, ending, by rw [run, hstep]; exact hrun⟩

/-- The text that is about to be evaluated by the native function for it. -/
def evalSource? : Situation last → Option String
  | ⟨_, .invoke _ (.native _ .eval) (.string source :: _), _, _⟩ => some source
  | _ => none

end Situation

/-- No loop occurs in the unit, in a function that an object holds, or in a text that is evaluated
while the unit runs. -/
structure Machine.RunsLoopFree (m : Machine) (hosts : HostTable) (u : ScriptUnit) : Prop where
  unit : ∀ s ∈ u.body, (Tree.stmt s).LoopFree
  functions : ∀ id name identity closure,
    m.store.get? id name = some (.function identity closure) →
      ∀ s ∈ closure.code.body, (Tree.stmt s).LoopFree
  sources : ∀ (t : Situation .expression) source body,
    (Situation.ofUnit m u).Passes hosts t → t.evalSource? = some source →
      (programOfSource source .empty).1 = .ok body → ∀ s ∈ body, (Tree.stmt s).LoopFree

namespace Machine

variable {m : Machine} {u : ScriptUnit}

theorem RunsLoopFree.grants (h : m.RunsLoopFree hosts u) {t : Situation .expression}
    (ht : (Situation.ofUnit m u).Passes hosts t) : Policy.loopFree.Grants t := by
  unfold Policy.Grants
  split
  · exact fun _ => trivial
  · exact fun _ _ => trivial
  · rename_i receiver identity source rest k n
    exact fun body hbody => h.sources _ source body ht rfl hbody
  · exact trivial

theorem RunsLoopFree.obeys (h : m.RunsLoopFree hosts u) (hrest : m.AtRest) (hfree : m.HostFree) :
    (Situation.ofUnit m u).Obeys .loopFree := by
  have hstore : m.store.Obeys .loopFree := by
    intro id name v hv
    cases v with
    | function identity closure => exact ⟨trivial, h.functions id name identity closure hv⟩
    | native identity code =>
        cases code with
        | host name => exact hfree.1 _ _ _ hv
        | print | eval => exact trivial
    | _ => exact trivial
  have hreceiver : m.receiver.Obeys .loopFree := by
    rw [hrest.receiver]
    exact trivial
  exact ⟨⟨trivial, ⟨trivial, h.unit⟩, by simp⟩, trivial, hstore, hreceiver, trivial, trivial, trivial⟩

/-- Over a machine at rest that holds no native functions of a host, at every moment of the run of a
unit the two counters number the calls and the evaluations that are under way, and neither are more
than their limit; and where no loop occurs, the run ends with a value or a fault, however functions
and evaluated texts call one another. -/
theorem frames_bounded_and_ends (hrest : m.AtRest) (hfree : m.HostFree) (hosts : HostTable)
    (u : ScriptUnit) :
    (∀ t, (Situation.ofUnit m u).Passes hosts t →
      t.machine.depth = t.stack.calls ∧ t.stack.calls ≤ m.maxCallDepth ∧
      t.machine.nesting = t.stack.entered ∧ t.stack.entered ≤ 320) ∧
    (m.RunsLoopFree hosts u → ∃ fuel n,
      (∃ v, m.runUnit hosts fuel u = some (n, .value v)) ∨
      ∃ f, m.runUnit hosts fuel u = some (n, .fault f)) := by
  constructor
  · intro t ht
    obtain ⟨-, hcounted⟩ := Situation.counted_of_passes hrest hfree ht
    exact ⟨hcounted.depth, hcounted.depth ▸ hcounted.depth_le, hcounted.nesting,
      hcounted.nesting ▸ hcounted.nesting_le⟩
  · intro hloops
    have hbegin : (Situation.ofUnit m u).Passes hosts (Situation.ofUnit m u) := .refl
    obtain ⟨hfree', hcounted⟩ := Situation.counted_of_passes hrest hfree hbegin
    obtain ⟨fuel, n, ending, hrun⟩ := Situation.exists_run_of_loopFree hfree' hcounted
      (hloops.obeys hrest hfree) fun t ht => hloops.grants ht
    have hreturned := (Situation.returned_of_run rfl hrun).2
    have hunit := (runUnit_eq_some_iff (congrArg Trap.armed hrest.trap)).mpr ⟨n, hrun, rfl⟩
    refine ⟨fuel, { n with trap := n.trap.disarm }, ?_⟩
    cases ending with
    | value v => exact .inl ⟨v, hunit⟩
    | fault f => exact .inr ⟨f, hunit⟩
    | stranded message => exact absurd trivial hreturned

/-- A function that evaluates a call of itself, for ever but for the limit on calls. -/
theorem frames_bounded_and_ends_runaway :
    ∃ (m : Machine) (u : ScriptUnit), m.maxCallDepth = 4 ∧ m.RunsLoopFree .inert u ∧
      (∀ t, (Situation.ofUnit m u).Passes .inert t → t.stack.calls ≤ 4) ∧
      ∃ fuel n, (∃ v, m.runUnit .inert fuel u = some (n, .value v)) ∨
        ∃ f, m.runUnit .inert fuel u = some (n, .fault f) := by
  let again : Stmt := .return ⟨15, 33⟩ (some (.call ⟨22, 32⟩ (.variable ⟨22, 26⟩ "eval")
    [.literal ⟨27, 31⟩ (.string "f()")]))
  let m := create .empty (Config.default.withMaxCallDepth 4) (.buffer .empty)
  let u := ScriptUnit.ofBody "runaway" [.function ⟨0, 35⟩ ⟨some "f", [], [again]⟩,
    .expression ⟨36, 40⟩ (.call ⟨36, 39⟩ (.variable ⟨36, 37⟩ "f") [])] m.globalEnvironment
  have hrest : m.AtRest := atRest_create _ _ _
  have hfree : m.HostFree := hostFree_create Store.hostFree_empty _ _
  have hbody {body : List Stmt} (h : body.all (fun s => (Tree.stmt s).isLoopFree 9) = true) :
      ∀ s ∈ body, (Tree.stmt s).LoopFree := by
    intro s hs
    exact Tree.loopFree_of_isLoopFree (List.all_eq_true.mp h s hs)
  have hloops : m.RunsLoopFree .inert u := by
    constructor
    · exact hbody (by decide +kernel)
    · intro id name identity closure hv
      have hobeys : m.Obeys .loopFree := obeys_create Store.obeys_empty _ _ trivial trivial
      exact (hobeys.store id name _ hv).2
    · intro t source body ht hsource hprogram
      have halways : (Situation.ofUnit m u).always .inert
          (fun t => t.evalSource?.all (· == "f()")) 200 = true := by
        decide +kernel
      have hcheck := Situation.of_always halways ht
      rw [hsource] at hcheck
      obtain rfl : source = "f()" := by simpa using hcheck
      have hsound : (programOfSource "f()" .empty).1.toOption.all
          (fun body => body.all fun s => (Tree.stmt s).isLoopFree 9) = true := by
        decide +kernel
      rw [hprogram] at hsound
      exact hbody hsound
  obtain ⟨hbounded, hends⟩ := frames_bounded_and_ends hrest hfree .inert u
  exact ⟨m, u, rfl, hloops, fun t ht => (hbounded t ht).2.1, hends hloops⟩

end Machine

end ScriptHost
