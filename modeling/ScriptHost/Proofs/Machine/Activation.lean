import Mathlib.Data.List.ReduceOption
import ScriptHost.Proofs.Machine.Course
import ScriptHost.Proofs.Machine.Counters
import ScriptHost.Proofs.Machine.Layout

/-!
The calls under way and their scopes. Each call of a function is given a scope that nothing knew of,
and runs in that scope until it returns, whatever it calls meanwhile; what it declares is set on that
scope and on no other object. The calls are recorded beside the run, as functions are entered and
left, and the record is compared with what the frames restore.
-/

namespace ScriptHost

variable {p q last : Phrase} {hosts : HostTable}

/-- The scopes that the calls under way run in, innermost first, where the innermost one runs in the
given environment. A unit has no scope of its own. -/
def Stack.activations : {p q : Phrase} → Stack p q → Environment → List (Option ObjectId)
  | _, _, .nil, _ => []
  | _, _, .cons (.returnTo saved _ isUnit) rest, env =>
    (if isUnit then none else some env.scope) :: rest.activations saved
  | _, _, .cons _ rest, env => rest.activations env

theorem Stack.activations_cons {frame : Frame p q} {k : Stack q last} (h : frame.calls = 0)
    (env : Environment) : (cons frame k).activations env = k.activations env := by
  cases frame with
  | leave => cases p <;> rfl
  | returnTo => cases h
  | _ => rfl

/-- The innermost call runs in the environment given. -/
theorem Stack.scope_of_activations {k : Stack p q} {env : Environment} {scope : ObjectId}
    {rest : List (Option ObjectId)} (h : k.activations env = some scope :: rest) :
    env.scope = scope := by
  induction k generalizing rest with
  | nil => cases h
  | cons frame k ih =>
      cases frame with
      | returnTo saved receiver isUnit =>
          obtain ⟨hscope, -⟩ := List.cons.inj h
          cases isUnit with
          | true => cases hscope
          | false => exact Option.some.inj hscope
      | _ => exact ih ((activations_cons rfl env).symm.trans h)

namespace Situation

/-- The scopes that the calls under way run in. -/
def activations (s : Situation last) : List (Option ObjectId) :=
  s.stack.activations s.machine.environment

/-- The record of the calls after a step: a closure that is entered is put to it, a function with the
scope that is made for it, and a call that is left is taken from it. -/
def callsAfter (s : Situation last) (calls : List (Option ObjectId)) : List (Option ObjectId) :=
  match s with
  | ⟨_, .enter _ closure _, _, m⟩ =>
    if m.depth < m.maxCallDepth then
      (if closure.isUnit then none else some (m.store.allocate .scope).1) :: calls
    else calls
  | ⟨_, .completion _, .cons (.returnTo _ _ _) _, _⟩ => calls.tail
  | ⟨_, .fault _, .cons (.returnTo _ _ _) _, _⟩ => calls.tail
  | _ => calls

/-- A situation that a run passes through, with the calls that were entered and not left on the way
to it, innermost first. -/
inductive Traced (hosts : HostTable) (start : Situation last) :
    List (Option ObjectId) → Situation last → Prop
  | start : Traced hosts start [] start
  | step {calls : List (Option ObjectId)} {s t : Situation last} (h : Traced hosts start calls s)
      (hstep : s.step hosts = .next t) : Traced hosts start (s.callsAfter calls) t

/-- The situation so many steps on, with the record of the calls. -/
def trace (hosts : HostTable) :
    Nat → List (Option ObjectId) × Situation last → Option (List (Option ObjectId) × Situation last)
  | 0, here => some here
  | n + 1, (calls, s) =>
    match s.step hosts with
    | .next t => trace hosts n (s.callsAfter calls, t)
    | .halt _ _ => none

theorem Traced.of_trace {start s t : Situation last} {calls calls' : List (Option ObjectId)}
    {n : Nat} (h : Traced hosts start calls s) (hn : trace hosts n (calls, s) = some (calls', t)) :
    Traced hosts start calls' t := by
  induction n generalizing calls s with
  | zero =>
      obtain ⟨rfl, rfl⟩ := Prod.mk.inj (Option.some.inj hn)
      exact h
  | succ n ih =>
      rw [trace] at hn
      split at hn
      · rename_i u hstep
        exact ih (h.step hstep) hn
      · cases hn

section

variable {f : Focus p} {k : Stack p last} {m : Machine} {calls : List (Option ObjectId)}

theorem callsAfter_of_isPhrase (h : f.IsPhrase) : callsAfter ⟨p, f, k, m⟩ calls = calls := by
  cases f <;> first | rfl | exact h.elim

theorem callsAfter_of_isBetween (h : f.IsBetween) : callsAfter ⟨p, f, k, m⟩ calls = calls := by
  cases f <;> first | rfl | exact h.elim

/-- A result that passes a frame leaves a call if the frame is one of a call. -/
theorem callsAfter_of_isResult {q : Phrase} {frame : Frame p q} {k : Stack q last}
    (h : f.IsResult) :
    callsAfter ⟨p, f, .cons frame k, m⟩ calls = if frame.calls = 0 then calls else calls.tail := by
  cases f with
  | value => cases frame <;> rfl
  | completion => cases frame <;> rfl
  | fault =>
      cases frame with
      | leave => cases p <;> rfl
      | _ => rfl
  | _ => exact h.elim

end

end Situation

namespace Progress

/-- The step leads to a situation in which these calls are under way. -/
def Runs (calls : List (Option ObjectId)) : Progress last → Prop :=
  Leads (fun t => t.activations = calls) fun _ _ => True

variable {m n : Machine} {k : Stack p last} {calls : List (Option ObjectId)}

theorem runs_raise (kind : FaultKind) (message : String) (span : Option Span)
    (h : k.activations m.environment = calls) : (raise m k kind message span).Runs calls :=
  leads_raise kind message span h fun _ => trivial

theorem runs_onward {progress : Progress last} {work : Nat} (honward : progress.Onward m k work)
    (h : k.activations m.environment = calls) : progress.Runs calls := by
  have hsame {n : Machine} (hn : m.Edited n) : k.activations n.environment = calls := by
    have henvironment : n.environment = m.environment := congrArg Context.environment hn.context
    rw [henvironment]
    exact h
  cases honward with
  | moved hn => exact hsame hn
  | pushed hn hframe =>
      exact (Stack.activations_cons (Frame.calls_of_not_restores hframe) _).trans (hsame hn)
  | raised b kind message span => exact runs_raise (m := m.buffered b) kind message span h

end Progress

namespace Situation

theorem runs_release {f : Focus p} {g : Focus q} {frame : Frame p q} {k : Stack q last}
    {m : Machine} (hf : f.IsResult) :
    (Progress.focus (frame.release m) k g).Runs
      (callsAfter ⟨p, f, .cons frame k, m⟩ (activations ⟨p, f, .cons frame k, m⟩)) := by
  rw [callsAfter_of_isResult hf]
  cases frame with
  | returnTo environment receiver isUnit => rfl
  | _ => exact (Stack.activations_cons rfl _).symm

/-- The frames restore what the record says: a step changes the scopes of the calls under way as it
enters a closure or leaves one, and not otherwise. -/
theorem activations_step (hosts : HostTable) {s : Situation last} (hfree : s.HostFree) :
    (s.step hosts).Runs (s.callsAfter s.activations) := by
  have hmoves := moves_step hosts hfree
  generalize s.step hosts = progress at hmoves
  cases hmoves with
  | tooDeep hphrase =>
      rw [callsAfter_of_isPhrase hphrase]
      exact Progress.runs_raise _ _ _ rfl
  | begun hphrase hroom hwork honward =>
      rw [callsAfter_of_isPhrase hphrase]
      exact Progress.runs_onward honward (Stack.activations_cons rfl _)
  | tooMany hfull =>
      rw [callsAfter, if_neg (Nat.not_lt.mpr hfull)]
      exact Progress.runs_raise _ _ _ rfl
  | entered hroom =>
      rename_i receiver closure arguments k m
      rw [callsAfter, if_pos hroom]
      cases hunit : closure.isUnit with
      | true => rfl
      | false =>
          have hscope : (m.inside receiver closure arguments).environment.scope =
              (m.store.allocate .scope).1 := by
            rw [m.environment_inside receiver closure arguments hunit]
            rfl
          exact congrArg (fun scope => some scope :: k.activations m.environment) hscope
  | went hbetween honward =>
      rw [callsAfter_of_isBetween hbetween]
      exact Progress.runs_onward honward rfl
  | resumed hresult hf hframe honward =>
      have hnone := Frame.calls_of_not_restores hframe
      rw [callsAfter_of_isResult hresult, if_pos hnone]
      exact Progress.runs_onward honward (Stack.activations_cons hnone _).symm
  | again => rfl
  | returned hresult => exact runs_release hresult
  | unwound => exact runs_release trivial
  | ended => trivial

end Situation

/-- The scopes of the calls are as many objects of the store, and all of them serve as scopes. -/
structure Store.Hosts (s : Store) (calls : List (Option ObjectId)) : Prop where
  distinct : calls.reduceOption.Nodup
  scope : ∀ id ∈ calls.reduceOption, id.index < s.objects.size ∧ (s.object id).kind = .scope

namespace Store

variable {s t : Store} {calls : List (Option ObjectId)}

theorem Hosts.grows (h : s.Hosts calls) (hgrows : s.Grows t) : t.Hosts calls where
  distinct := h.distinct
  scope := fun id hid => ⟨Nat.lt_of_lt_of_le (h.scope id hid).1 hgrows.size,
    (hgrows.kind id (h.scope id hid).1).trans (h.scope id hid).2⟩

theorem Hosts.tail (h : s.Hosts calls) : s.Hosts calls.tail := by
  cases calls with
  | nil => exact h
  | cons scope rest =>
      cases scope with
      | none => exact ⟨h.distinct, h.scope⟩
      | some id =>
          obtain ⟨hdistinct, hscope⟩ := h
          rw [List.reduceOption_cons_of_some] at hdistinct hscope
          exact ⟨hdistinct.of_cons, fun other hother => hscope other (List.mem_cons_of_mem _ hother)⟩

/-- A scope that was just made is none of those there were. -/
theorem Hosts.allocate (h : s.Hosts calls) (hgrows : (s.allocate .scope).2.Grows t) :
    t.Hosts (some (s.allocate .scope).1 :: calls) := by
  have hrest := h.grows ((s.grows_allocate .scope).trans hgrows)
  constructor
  · rw [List.reduceOption_cons_of_some]
    refine List.nodup_cons.mpr ⟨?_, h.distinct⟩
    intro hmem
    exact Nat.lt_irrefl _ (h.scope _ hmem).1
  · intro id hid
    rw [List.reduceOption_cons_of_some] at hid
    rcases List.mem_cons.mp hid with rfl | hold
    · exact ⟨hgrows.lt_allocate, hgrows.kind_allocate⟩
    · exact hrest.scope id hold

end Store

namespace Situation

variable {s t : Situation last} {calls : List (Option ObjectId)}

theorem hosts_callsAfter (hfree : s.HostFree) (h : s.machine.store.Hosts calls)
    (hstep : s.step hosts = .next t) : t.machine.store.Hosts (s.callsAfter calls) := by
  have hgrows : s.machine.store.Grows t.machine.store := by
    have hextends := (extends_step hosts hfree).grows
    rwa [hstep] at hextends
  have hsame : t.machine.store.Hosts calls := h.grows hgrows
  unfold callsAfter
  split
  · rename_i receiver closure arguments k m
    split
    · rename_i hroom
      cases hunit : closure.isUnit with
      | true => exact ⟨hsame.distinct, hsame.scope⟩
      | false =>
          rw [step, Machine.enterClosure_of_lt receiver closure arguments hroom] at hstep
          obtain rfl := Progress.next.inj hstep
          refine h.allocate ?_
          dsimp only
          rw [m.store_inside receiver closure arguments hunit]
          exact Store.grows_bindParameters _ _ _ _
    · exact hsame
  · exact hsame.tail
  · exact hsame.tail
  · exact hsame

/-- What holds all through a run of the calls under way, of what is at hand and of values that are
held elsewhere. -/
structure Orderly (known : List Value) (calls : List (Option ObjectId)) (s : Situation last) :
    Prop where
  hostFree : s.HostFree
  tidy : s.Tidy known
  activations : s.activations = calls
  hosts : s.machine.store.Hosts calls

theorem orderly_of_traced {known : List Value} {start : Situation last}
    (hstart : start.Orderly known []) (h : start.Traced hosts calls t) :
    t.Orderly known calls := by
  induction h with
  | start => exact hstart
  | step _ hstep ih =>
      have hfree := hostFree_step hosts ih.hostFree
      have htidy := tidy_step hosts ih.hostFree ih.tidy
      have hruns := activations_step hosts ih.hostFree
      rw [hstep] at hfree htidy hruns
      rw [ih.activations] at hruns
      exact ⟨hfree, htidy, hruns, hosts_callsAfter ih.hostFree ih.hosts hstep⟩

/-! ## What a call sets on its scope -/

/-- The name that the next step binds by a declaration, and the value that it binds it to. A
variable that is declared without a value keeps the one that it has. -/
def declares? : Situation last → Option (String × Value)
  | ⟨_, .value v, .cons (.defineVar name) _, _⟩ => some (name, v)
  | ⟨_, .execute (.var _ name none), _, m⟩ =>
    if m.nesting < maxNesting ∧ m.store.has m.environment.scope name = false then
      some (name, .undefined)
    else none
  | ⟨_, .execute (.function _ code), _, m⟩ =>
    if m.nesting < maxNesting then code.name.map fun name => (name, (m.close code).1) else none
  | _ => none

/-- A declaration is set on the innermost scope of the environment, and on nothing else. -/
theorem step_declares (hosts : HostTable) {name : String} {v : Value}
    (h : s.declares? = some (name, v)) :
    ∃ t, s.step hosts = .next t ∧ t.machine.store.objects =
      (s.machine.store.set s.machine.environment.scope name v).objects := by
  unfold declares? at h
  split at h
  · obtain ⟨rfl, rfl⟩ := Prod.mk.inj (Option.some.inj h)
    exact ⟨_, rfl, rfl⟩
  · rename_i span declared k m
    split at h
    · rename_i hcondition
      obtain ⟨hroom, hnew⟩ := hcondition
      obtain ⟨rfl, rfl⟩ := Prod.mk.inj (Option.some.inj h)
      rw [step, Machine.enterPhrase, if_neg (Nat.not_le.mpr hroom), Machine.executeEntered]
      dsimp only
      rw [hnew]
      exact ⟨_, rfl, rfl⟩
    · cases h
  · rename_i span code k m
    split at h
    · rename_i hroom
      obtain ⟨declared, hname, heq⟩ := Option.map_eq_some_iff.mp h
      obtain ⟨rfl, rfl⟩ := Prod.mk.inj heq
      rw [step, Machine.enterPhrase, if_neg (Nat.not_le.mpr hroom), Machine.executeEntered]
      dsimp only
      rw [hname]
      exact ⟨_, rfl, rfl⟩
    · cases h
  · cases h

/-- A function is entered in a new scope in front of what it is closed over. Its parameters are bound
there, and no other object is touched. -/
theorem step_enter (hosts : HostTable) {receiver : Value} {closure : Closure}
    {arguments : List Value} {k : Stack .expression last} {m : Machine}
    (hunit : closure.isUnit = false) (hroom : m.depth < m.maxCallDepth) :
    ∃ t, step hosts ⟨_, .enter receiver closure arguments, k, m⟩ = .next t ∧
      t.machine.environment = .child (m.store.allocate .scope).1 closure.environment ∧
      (∀ i name, closure.code.parameters[i]? = some name →
        name ∉ closure.code.parameters.drop (i + 1) →
          t.machine.store.get? (m.store.allocate .scope).1 name =
            some (arguments.getD i .undefined)) ∧
      ∀ id, id ≠ (m.store.allocate .scope).1 →
        t.machine.store.object id = m.store.object id := by
  rw [step, Machine.enterClosure_of_lt receiver closure arguments hroom]
  refine ⟨_, rfl, m.environment_inside receiver closure arguments hunit, ?_, ?_⟩
  · intro i name hname hlast
    dsimp only
    rw [m.store_inside receiver closure arguments hunit]
    exact Store.get?_bindParameters (Store.Grows.refl _).lt_allocate hname hlast arguments
  · intro id hid
    dsimp only
    rw [m.store_inside receiver closure arguments hunit, Store.object_bindParameters_of_ne _ hid,
      Store.object_allocate_of_ne _ _ hid]

/-- The calls under way are private: each has a scope of its own, which is held by one frame and
which no value refers to, and what it declares is set there and nowhere else. -/
structure PrivateCalls (hosts : HostTable) (calls : List (Option ObjectId)) (t : Situation last) :
    Prop where
  /-- Each call runs in the scope that was made when it was entered. -/
  activations : t.activations = calls
  distinct : calls.reduceOption.Nodup
  kind : ∀ id ∈ calls.reduceOption, (t.machine.store.object id).kind = .scope
  /-- No value refers to a scope, and each scope is held by one frame. -/
  held : ∃ parents, t.Obeys (.layout parents t.machine.store t.machine.global)
  /-- The scope of a function that is entered was not known to anything. -/
  entered : ∀ receiver closure arguments k m, t = ⟨_, .enter receiver closure arguments, k, m⟩ →
    closure.isUnit = false → m.depth < m.maxCallDepth →
      t.Obeys (.avoiding (m.store.allocate .scope).1) ∧ ∃ t', t.step hosts = .next t' ∧
        t'.machine.environment = .child (m.store.allocate .scope).1 closure.environment ∧
        (∀ i name, closure.code.parameters[i]? = some name →
          name ∉ closure.code.parameters.drop (i + 1) →
            t'.machine.store.get? (m.store.allocate .scope).1 name =
              some (arguments.getD i .undefined)) ∧
        ∀ id, id ≠ (m.store.allocate .scope).1 →
          t'.machine.store.object id = m.store.object id
  /-- A declaration in a function is set on the scope of the very call. -/
  declared : ∀ scope rest name v, calls = some scope :: rest → t.declares? = some (name, v) →
    ∃ t', t.step hosts = .next t' ∧ t'.machine.store.get? scope name = some v ∧
      ∀ id, id ≠ scope → t'.machine.store.object id = t.machine.store.object id

theorem privateCalls_of_orderly (hosts : HostTable) {known : List Value}
    (h : t.Orderly known calls) : t.PrivateCalls hosts calls where
  activations := h.activations
  distinct := h.hosts.distinct
  kind := fun id hid => (h.hosts.scope id hid).2
  held := h.tidy.imp fun _ hparents => hparents.1
  entered := by
    rintro receiver closure arguments k m rfl hunit hroom
    obtain ⟨parents, hobeys, -⟩ := h.tidy
    have hglobal : m.global.index < m.store.objects.size := hobeys.machine.global.1
    exact ⟨hobeys.within (Policy.within_avoiding hglobal .scope), step_enter hosts hunit hroom⟩
  declared := by
    intro scope rest name v hcalls hdeclares
    obtain ⟨t', hstep, hobjects⟩ := step_declares hosts hdeclares
    have hinner : t.machine.environment.scope = scope :=
      Stack.scope_of_activations (h.activations.trans hcalls)
    have hlt : scope.index < t.machine.store.objects.size := by
      refine (h.hosts.scope scope ?_).1
      rw [hcalls, List.reduceOption_cons_of_some]
      exact List.mem_cons_self
    rw [hinner] at hobjects
    have hobject (id : ObjectId) :
        t'.machine.store.object id = (t.machine.store.set scope name v).object id := by
      rw [Store.object, hobjects]
      rfl
    refine ⟨t', hstep, ?_, ?_⟩
    · rw [Store.get?, hobject]
      exact (Store.get?_set _ _ _ _ _ _).trans (if_pos ⟨rfl, rfl, hlt⟩)
    · intro id hid
      rw [hobject, Store.object_set_of_ne hid]

end Situation

end ScriptHost
