import ScriptHost.Proofs.Machine.Layout

/-!
Chains of frames. A chain that keeps to a layout ends in the global frame and comes upon no scope
twice, as what lies behind a scope does not depend on the chain. A name is looked up, and assigned
to, in as many steps at the most as the chain has frames.
-/

namespace ScriptHost

namespace Environment

/-- Number of frames in front of the global one. -/
def depth : Environment → Nat
  | root _ => 0
  | child _ parent => parent.depth + 1

@[simp] theorem length_scopes (env : Environment) : env.scopes.length = env.depth + 1 := by
  induction env with
  | root => rfl
  | child scope parent ih => exact congrArg (· + 1) ih

variable {parents : ObjectId → Environment} {s : Store} {global : ObjectId} {env : Environment}

theorem Framed.getLast?_scopes (h : env.Framed parents s global) :
    env.scopes.getLast? = some global := by
  induction env with
  | root id => exact congrArg some h
  | child scope parent ih =>
      rw [scopes, List.getLast?_cons_of_ne_nil parent.scopes_ne_nil]
      exact ih h.2

/-- Behind a scope of the chain there is less than the chain. -/
theorem Framed.depth_parents_lt (h : env.Framed parents s global) {id : ObjectId}
    (hid : id ∈ env.scopes) (hne : id ≠ global) : (parents id).depth < env.depth := by
  induction env with
  | root other =>
      obtain rfl := List.mem_singleton.mp hid
      exact absurd h hne
  | child scope parent ih =>
      rcases List.mem_cons.mp hid with rfl | hbehind
      · rw [h.1.2.2]
        exact Nat.lt_succ_self _
      · exact Nat.lt_succ_of_lt (ih h.2 hbehind)

theorem Framed.nodup_scopes (h : env.Framed parents s global)
    (hglobal : (s.object global).kind ≠ .scope) : env.scopes.Nodup := by
  induction env with
  | root id => exact List.pairwise_singleton _ id
  | child scope parent ih =>
      obtain ⟨⟨-, hkind, hparent⟩, hrest⟩ := h
      refine List.nodup_cons.mpr ⟨fun hmem => ?_, ih hrest⟩
      have hne : scope ≠ global := fun heq => hglobal (heq ▸ hkind)
      have hlt := hrest.depth_parents_lt hmem hne
      rw [hparent] at hlt
      exact Nat.lt_irrefl _ hlt

end Environment

namespace Store

/-- The search for a name in so many steps, one for each frame that is asked; none where they do not
suffice. -/
def lookupWithin (s : Store) (name : String) : Nat → Environment → Option (Option Value)
  | 0, _ => none
  | _ + 1, .root scope => some (s.get? scope name)
  | steps + 1, .child scope parent =>
    match s.get? scope name with
    | some value => some (some value)
    | none => s.lookupWithin name steps parent

/-- An assignment in so many steps, one for each frame that is asked. -/
def assignWithin (s : Store) (name : String) (value : Value) : Nat → Environment → Option Store
  | 0, _ => none
  | _ + 1, .root scope => some (s.set scope name value)
  | steps + 1, .child scope parent =>
    if s.has scope name then some (s.set scope name value)
    else s.assignWithin name value steps parent

theorem lookupWithin_of_lt (s : Store) (name : String) {env : Environment} {steps : Nat}
    (h : env.depth < steps) : s.lookupWithin name steps env = some (s.lookup env name) := by
  induction env generalizing steps with
  | root scope =>
      cases steps with
      | zero => cases h
      | succ steps => rfl
  | child scope parent ih =>
      cases steps with
      | zero => cases h
      | succ steps =>
          rw [lookupWithin, lookup]
          cases s.get? scope name with
          | some value => rfl
          | none => exact ih (Nat.lt_of_succ_lt_succ h)

theorem assignWithin_of_lt (s : Store) (name : String) (value : Value) {env : Environment}
    {steps : Nat} (h : env.depth < steps) :
    s.assignWithin name value steps env = some (s.assign env name value) := by
  induction env generalizing steps with
  | root scope =>
      cases steps with
      | zero => cases h
      | succ steps => rfl
  | child scope parent ih =>
      cases steps with
      | zero => cases h
      | succ steps =>
          rw [assignWithin, assign]
          split
          · rfl
          · exact ih (Nat.lt_of_succ_lt_succ h)

end Store

end ScriptHost
