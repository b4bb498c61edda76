import Mathlib.Logic.Function.Basic
import ScriptHost.Proofs.Machine.Moves
import ScriptHost.Proofs.Machine.Policy

/-!
How the scopes of calls are held. A layout tells for each scope which environment lies behind it, and
every frame of every environment, of the code being run and of all functions, agrees with it; so
each scope is held by one frame alone. No value refers to a scope. Steps keep to a layout, which
grows by one frame where a function is entered.
-/

namespace ScriptHost

variable {p q last : Phrase} {hosts : HostTable}

/-- Each frame but the global one holds a scope, and what lies behind it is what the layout says. -/
def Environment.Framed (parents : ObjectId → Environment) (s : Store) (global : ObjectId) :
    Environment → Prop
  | .root id => id = global
  | .child scope parent =>
    (scope.index < s.objects.size ∧ (s.object scope).kind = .scope ∧ parents scope = parent) ∧
      parent.Framed parents s global

/-- The policy that keeps values from referring to scopes and environments to a layout. -/
def Policy.layout (parents : ObjectId → Environment) (s : Store) (global : ObjectId) : Policy where
  object := fun id => id.index < s.objects.size ∧ (s.object id).kind ≠ .scope
  environment := Environment.Framed parents s global
  code := fun _ => True
  left := fun _ _ => trivial
  inner := fun _ _ => trivial

/-- The policy under which nothing refers to an object or holds it as a scope. -/
def Policy.avoiding (id : ObjectId) : Policy where
  object := fun other => other ≠ id
  environment := fun env => id ∉ env.scopes
  code := fun _ => True
  left := fun _ _ => trivial
  inner := fun _ _ => trivial

section Layouts

variable {parents parents' : ObjectId → Environment} {s t : Store} {global : ObjectId}

/-- A store that grows keeps to a layout that agrees on the objects there were. -/
theorem Environment.Framed.grows {env : Environment} (h : env.Framed parents s global)
    (hgrows : s.Grows t)
    (hsame : ∀ id : ObjectId, id.index < s.objects.size → parents' id = parents id) :
    env.Framed parents' t global := by
  induction env with
  | root id => exact h
  | child scope parent ih =>
      obtain ⟨⟨hlt, hkind, hparent⟩, hrest⟩ := h
      refine ⟨⟨Nat.lt_of_lt_of_le hlt hgrows.size, ?_, (hsame scope hlt).trans hparent⟩, ih hrest⟩
      rw [hgrows.kind scope hlt, hkind]

theorem Policy.within_layout (global : ObjectId) (hgrows : s.Grows t)
    (hsame : ∀ id : ObjectId, id.index < s.objects.size → parents' id = parents id) :
    (layout parents s global).Within (layout parents' t global) where
  object := fun id hid =>
    ⟨Nat.lt_of_lt_of_le hid.1 hgrows.size, fun h => hid.2 (hgrows.kind id hid.1 ▸ h)⟩
  environment := fun _ h => h.grows hgrows hsame
  code := fun _ _ => trivial

theorem Environment.Framed.lt_of_mem {env : Environment} (h : env.Framed parents s global)
    (hglobal : global.index < s.objects.size) {id : ObjectId} (hid : id ∈ env.scopes) :
    id.index < s.objects.size := by
  induction env with
  | root scope =>
      obtain rfl := List.mem_singleton.mp hid
      exact (h : id = global) ▸ hglobal
  | child scope parent ih =>
      rcases List.mem_cons.mp hid with rfl | hrest
      · exact h.1.1
      · exact ih h.2 hrest

/-- Nothing that keeps to a layout knows of an object yet to be made. -/
theorem Policy.within_avoiding (hglobal : global.index < s.objects.size) (kind : ObjectClass) :
    (layout parents s global).Within (avoiding (s.allocate kind).1) where
  object := by
    rintro _ hid rfl
    exact Nat.lt_irrefl _ hid.1
  environment := fun _ h hid => Nat.lt_irrefl _ (h.lt_of_mem hglobal hid)
  code := fun _ _ => trivial

end Layouts

/-! ## What a step keeps of a layout -/

/-- The machine that a step leaves. -/
def Progress.machine : Progress last → Machine
  | .next s => s.machine
  | .halt m _ => m

/-- The machine has the objects that another has and may have more, over the same global object. -/
structure Machine.Extends (m n : Machine) : Prop where
  grows : m.store.Grows n.store
  global : n.global = m.global

namespace Machine

variable {m n : Machine}

theorem Edited.extends (h : m.Edited n) : m.Extends n := by
  refine ⟨h.grows, ?_⟩
  have hglobal := congrArg Context.global h.context
  exact hglobal

theorem extends_raise {k : Stack p last} (kind : FaultKind) (message : String)
    (span : Option Span) (hstore : n.store = m.store) (hglobal : n.global = m.global) :
    m.Extends (Progress.raise n k kind message span).machine := by
  have hsame : (Progress.raise n k kind message span).machine = n := by
    unfold Progress.raise
    split <;> rfl
  rw [hsame]
  exact ⟨hstore ▸ .refl _, hglobal⟩

theorem extends_onward {k : Stack p last} {progress : Progress last} {work : Nat}
    (honward : progress.Onward n k work) (hstore : n.store = m.store)
    (hglobal : n.global = m.global) : m.Extends progress.machine := by
  cases honward with
  | moved hn | pushed hn =>
      exact ⟨hstore ▸ hn.extends.grows, hn.extends.global.trans hglobal⟩
  | raised b kind message span => exact extends_raise kind message span hstore hglobal

theorem extends_inside (m : Machine) (receiver : Value) (closure : Closure)
    (arguments : List Value) : m.Extends (m.inside receiver closure arguments) := by
  unfold inside
  split
  · exact ⟨.refl _, rfl⟩
  · exact ⟨(m.store.grows_allocate .scope).trans (Store.grows_bindParameters _ _ _ _), rfl⟩

end Machine

namespace Situation

theorem extends_step (hosts : HostTable) {s : Situation last} (hfree : s.HostFree) :
    s.machine.Extends (s.step hosts).machine := by
  have hmoves := moves_step hosts hfree
  have hreleased {p q : Phrase} (frame : Frame p q) (m : Machine) :
      m.Extends (frame.release m) := by
    cases frame <;> exact ⟨.refl _, rfl⟩
  generalize s.step hosts = progress at hmoves
  cases hmoves with
  | tooDeep | tooMany => exact Machine.extends_raise _ _ _ rfl rfl
  | begun hphrase hroom hwork honward => exact Machine.extends_onward honward rfl rfl
  | entered => exact Machine.extends_inside _ _ _ _
  | went hbetween honward => exact Machine.extends_onward honward rfl rfl
  | resumed hresult hf hframe honward => exact Machine.extends_onward honward rfl rfl
  | returned | unwound => exact hreleased _ _
  | again | ended => exact ⟨.refl _, rfl⟩

/-- Everything at hand keeps to some layout, and so do certain values that are held elsewhere. -/
def Tidy (known : List Value) (s : Situation last) : Prop :=
  ∃ parents, s.Obeys (.layout parents s.machine.store s.machine.global) ∧
    ∀ v ∈ known, v.Obeys (.layout parents s.machine.store s.machine.global)

end Situation

/-- The situation that a step leads to is tidy; where the run ends, the machine and the ending keep
to a layout together. -/
def Progress.Tidy (known : List Value) (progress : Progress last) : Prop :=
  ∃ parents, progress.Obeys (.layout parents progress.machine.store progress.machine.global) ∧
    ∀ v ∈ known, v.Obeys (.layout parents progress.machine.store progress.machine.global)

namespace Machine

variable (m : Machine) (receiver : Value) (closure : Closure) (arguments : List Value)

theorem store_inside (h : closure.isUnit = false) :
    (m.inside receiver closure arguments).store =
      (m.store.allocate .scope).2.bindParameters (m.store.allocate .scope).1
        closure.code.parameters arguments := by
  rw [inside, h]
  rfl

theorem environment_inside (h : closure.isUnit = false) :
    (m.inside receiver closure arguments).environment =
      .child (m.store.allocate .scope).1 closure.environment := by
  rw [inside, h]
  rfl

end Machine

namespace Store

/-- An object that was just made is among the objects of every store that grew from there. -/
theorem Grows.lt_allocate {s t : Store} {kind : ObjectClass} (h : (s.allocate kind).2.Grows t) :
    (s.allocate kind).1.index < t.objects.size := by
  refine Nat.lt_of_lt_of_le ?_ h.size
  simp [allocate]

theorem Grows.kind_allocate {s t : Store} {kind : ObjectClass} (h : (s.allocate kind).2.Grows t) :
    (t.object (s.allocate kind).1).kind = kind := by
  rw [h.kind _ (Grows.refl (s.allocate kind).2).lt_allocate, object_allocate]
  rfl

end Store

namespace Situation

variable {s : Situation last} {known : List Value} {parents parents' : ObjectId → Environment}

/-- A step keeps to a layout that lets it have what it makes anew. -/
theorem tidy_of_grants (hfree : s.HostFree)
    (hs : s.Obeys (.layout parents s.machine.store s.machine.global))
    (hknown : ∀ v ∈ known, v.Obeys (.layout parents s.machine.store s.machine.global))
    (hsame : ∀ id : ObjectId, id.index < s.machine.store.objects.size → parents' id = parents id)
    (hgrants : (Policy.layout parents' (s.step hosts).machine.store s.machine.global).Grants s) :
    (s.step hosts).Tidy known := by
  have hextends := extends_step hosts hfree
  have hwithin := Policy.within_layout s.machine.global hextends.grows hsame
  refine ⟨parents', ?_, ?_⟩
  · rw [hextends.global]
    exact obeys_step hosts (hs.within hwithin) hgrants
  · intro v hv
    rw [hextends.global]
    exact (hknown v hv).within hwithin

/-- A step from a tidy situation leads to a tidy one. Where a function is entered, its new scope is
laid out in front of what the function is closed over. -/
theorem tidy_step (hosts : HostTable) (hfree : s.HostFree) (hs : s.Tidy known) :
    (s.step hosts).Tidy known := by
  obtain ⟨parents, hs, hknown⟩ := hs
  obtain ⟨phrase, focus, k, m⟩ := s
  cases focus with
  | enter receiver closure arguments =>
      by_cases hcall : m.depth < m.maxCallDepth ∧ closure.isUnit = false
      · obtain ⟨hroom, hunit⟩ := hcall
        let scope := (m.store.allocate .scope).1
        have hsame (id : ObjectId) (hid : id.index < m.store.objects.size) :
            Function.update parents scope closure.environment id = parents id := by
          refine Function.update_of_ne ?_ _ _
          rintro rfl
          exact Nat.lt_irrefl _ hid
        have hstore : (step hosts ⟨_, .enter receiver closure arguments, k, m⟩).machine.store =
            (m.store.allocate .scope).2.bindParameters scope closure.code.parameters arguments := by
          rw [step, Machine.enterClosure_of_lt receiver closure arguments hroom]
          exact m.store_inside receiver closure arguments hunit
        have hgrows := hstore ▸ (m.store.allocate .scope).2.grows_bindParameters scope
          closure.code.parameters arguments
        refine tidy_of_grants hfree hs hknown hsame fun _ _ => ?_
        refine ⟨⟨hgrows.lt_allocate, hgrows.kind_allocate, Function.update_self _ _ _⟩, ?_⟩
        exact hs.focus.2.1.1.grows (extends_step hosts hfree).grows hsame
      · refine tidy_of_grants hfree hs hknown (fun _ _ => rfl) fun hroom hunit => ?_
        exact absurd ⟨hroom, hunit⟩ hcall
  | evaluate e =>
      cases e with
      | object span entries =>
          refine tidy_of_grants hfree hs hknown (fun _ _ => rfl) fun hroom => ?_
          have hstore : (step hosts ⟨_, .evaluate (.object span entries), k, m⟩).machine.store =
              (m.store.allocate .plain).2 := by
            rw [step, Machine.enterPhrase, if_neg (Nat.not_le.mpr hroom)]
            cases entries <;> rfl
          have hgrows : (m.store.allocate .plain).2.Grows
              (step hosts ⟨_, .evaluate (.object span entries), k, m⟩).machine.store := by
            rw [hstore]
            exact .refl _
          refine ⟨hgrows.lt_allocate, ?_⟩
          rw [hgrows.kind_allocate]
          simp
      | _ => exact tidy_of_grants hfree hs hknown (fun _ _ => rfl) trivial
  | invoke receiver callee arguments =>
      refine tidy_of_grants hfree hs hknown (fun _ _ => rfl) ?_
      unfold Policy.Grants
      split
      · rename_i heq
        cases heq
      · rename_i heq
        cases heq
      · exact fun _ _ _ _ => trivial
      · exact trivial
  | _ => exact tidy_of_grants hfree hs hknown (fun _ _ => rfl) trivial

end Situation

end ScriptHost
