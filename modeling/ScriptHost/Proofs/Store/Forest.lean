import ScriptHost.Proofs.Store.Retained

/-!
Forests of frames, each with a scope of its own. An assignment sets one binding, on the nearest
frame that owns the name or else on the root of the chain, a definition sets one on the frame it is
made on; of all lookups only those change that now come to that binding.
-/

namespace ScriptHost

namespace Environment

/-- The frames of the chain, the nearest first. -/
def frames : Environment → List Environment
  | root scope => [root scope]
  | child scope parent => child scope parent :: parent.frames

/-- The last frame of the chain. -/
def rootFrame : Environment → Environment
  | root scope => root scope
  | child _ parent => parent.rootFrame

@[simp] theorem scope_root (scope : ObjectId) : (root scope).scope = scope := rfl

@[simp] theorem scope_child (scope : ObjectId) (parent : Environment) :
    (child scope parent).scope = scope := rfl

theorem mem_frames_self (env : Environment) : env ∈ env.frames := by
  cases env <;> exact List.mem_cons_self

end Environment

namespace Store

variable {s : Store} {frames : List Environment} {f g : Environment}

/-- The nearest frame of the chain that owns the name. -/
def owner? (s : Store) (env : Environment) (name : String) : Option Environment :=
  env.frames.find? fun frame => s.has frame.scope name

/-- The frame on which an assignment binds the name: its owner, or the root where there is none. -/
def target (s : Store) (env : Environment) (name : String) : Environment :=
  (s.owner? env name).getD env.rootFrame

/-- Frames that were made one after another, for the global object of a machine or behind a frame
that is there, each with an object of the store for its scope that no other of them has. -/
inductive Forest (s : Store) : List Environment → Prop
  | empty : Forest s []
  | global {frames : List Environment} {scope : ObjectId} (h : Forest s frames)
      (hscope : scope.index < s.objects.size) (hown : ∀ f ∈ frames, f.scope ≠ scope) :
      Forest s (.root scope :: frames)
  | withParent {frames : List Environment} {parent : Environment} {scope : ObjectId}
      (h : Forest s frames) (hparent : parent ∈ frames) (hscope : scope.index < s.objects.size)
      (hown : ∀ f ∈ frames, f.scope ≠ scope) : Forest s (.child scope parent :: frames)

/-- A chain comes to the frame, and to no other one before that owns the name. -/
inductive Reaches (s : Store) (f : Environment) (name : String) : Environment → Prop
  | here : Reaches s f name f
  | further {scope : ObjectId} {parent : Environment} (hfree : s.has scope name = false)
      (h : Reaches s f name parent) : Reaches s f name (.child scope parent)

namespace Forest

theorem lt (h : s.Forest frames) (hf : f ∈ frames) : f.scope.index < s.objects.size := by
  induction h with
  | empty => cases hf
  | global _ hscope _ ih | withParent _ _ hscope _ ih =>
      rcases List.mem_cons.mp hf with rfl | hmem
      · exact hscope
      · exact ih hmem

/-- Frames with one scope are one. -/
theorem eq_of_scope (h : s.Forest frames) (hf : f ∈ frames) (hg : g ∈ frames)
    (hscope : f.scope = g.scope) : f = g := by
  induction h with
  | empty => cases hf
  | global _ _ hown ih | withParent _ _ _ hown ih =>
      rcases List.mem_cons.mp hf with rfl | hf <;> rcases List.mem_cons.mp hg with rfl | hg
      · rfl
      · exact absurd hscope.symm (hown g hg)
      · exact absurd hscope (hown f hf)
      · exact ih hf hg

/-- All frames of a chain are in the forest. -/
theorem mem_of_mem_frames (h : s.Forest frames) (hf : f ∈ frames) (hg : g ∈ f.frames) :
    g ∈ frames := by
  induction h generalizing f with
  | empty => cases hf
  | global _ _ _ ih =>
      rcases List.mem_cons.mp hf with rfl | hf
      · obtain rfl := List.mem_singleton.mp hg
        exact List.mem_cons_self
      · exact List.mem_cons_of_mem _ (ih hf hg)
  | withParent _ hparent _ _ ih =>
      rcases List.mem_cons.mp hf with rfl | hf
      · rcases List.mem_cons.mp hg with rfl | hg
        · exact List.mem_cons_self
        · exact List.mem_cons_of_mem _ (ih hparent hg)
      · exact List.mem_cons_of_mem _ (ih hf hg)

theorem of_size {t : Store} (h : s.Forest frames) (hsize : t.objects.size = s.objects.size) :
    t.Forest frames := by
  induction h with
  | empty => exact .empty
  | global _ hscope hown ih => exact .global ih (hsize ▸ hscope) hown
  | withParent _ hparent hscope hown ih => exact .withParent ih hparent (hsize ▸ hscope) hown

end Forest

theorem lookup_eq_findSome? (s : Store) (env : Environment) (name : String) :
    s.lookup env name = env.frames.findSome? fun frame => s.get? frame.scope name := by
  induction env with
  | root scope => simp [lookup, Environment.frames]
  | child scope parent ih =>
      rw [lookup, ih, Environment.frames, List.findSome?_cons, Environment.scope_child]
      cases s.get? scope name <;> rfl

theorem target_root (s : Store) (scope : ObjectId) (name : String) :
    s.target (.root scope) name = .root scope := by
  rw [target, owner?, Environment.frames, List.find?_singleton]
  split <;> rfl

theorem target_child (s : Store) (scope : ObjectId) (parent : Environment) (name : String) :
    s.target (.child scope parent) name =
      if s.has scope name then .child scope parent else s.target parent name := by
  rw [target, owner?, Environment.frames, List.find?_cons, Environment.scope_child]
  cases s.has scope name <;> rfl

theorem assign_eq_set (s : Store) (env : Environment) (name : String) (value : Value) :
    s.assign env name value = s.set (s.target env name).scope name value := by
  induction env with
  | root scope => rw [assign, target_root, Environment.scope_root]
  | child scope parent ih =>
      rw [assign, target_child, ih]
      cases s.has scope name <;> rfl

theorem reaches_target (s : Store) (env : Environment) (name : String) :
    s.Reaches (s.target env name) name env := by
  induction env with
  | root scope =>
      rw [target_root]
      exact .here
  | child scope parent ih =>
      rw [target_child]
      cases hown : s.has scope name with
      | true => exact .here
      | false => exact .further hown ih

theorem Reaches.mem_frames {name : String} (h : s.Reaches f name g) : f ∈ g.frames := by
  induction h with
  | here => exact f.mem_frames_self
  | further _ _ ih => exact List.mem_cons_of_mem _ ih

/-- What the frames of a forest hold after a name was set on one of them. -/
theorem Forest.get?_set (h : s.Forest frames) (hf : f ∈ frames) (hg : g ∈ frames)
    (name key : String) (value : Value) :
    (s.set f.scope name value).get? g.scope key =
      if g = f ∧ key = name then some value else s.get? g.scope key := by
  have hsame : g.scope = f.scope ↔ g = f := ⟨h.eq_of_scope hg hf, congrArg _⟩
  rw [Store.get?_set]
  simp [hsame, h.lt hf]

/-- A name that was set on a frame is found from where the search for it ends at this frame, and
nothing else is found anew. -/
theorem Forest.lookup_set (h : s.Forest frames) (hf : f ∈ frames) (hg : g ∈ frames)
    (name key : String) (value : Value) :
    (s.set f.scope name value).lookup g key =
      if key = name ∧ (s.set f.scope name value).owner? g name = some f then some value
      else s.lookup g key := by
  have hmem : ∀ k ∈ g.frames, k ∈ frames := fun k hk => h.mem_of_mem_frames hg hk
  rw [lookup_eq_findSome?, lookup_eq_findSome?, owner?]
  generalize g.frames = chain at hmem
  induction chain with
  | nil => simp
  | cons k rest ih =>
      obtain ⟨hk, hrest⟩ := List.forall_mem_cons.mp hmem
      have hhas : (s.set f.scope name value).has k.scope name =
          ((s.set f.scope name value).get? k.scope name).isSome := rfl
      rw [List.findSome?_cons, List.findSome?_cons, List.find?_cons, hhas, ih hrest,
        h.get?_set hf hk, h.get?_set hf hk]
      by_cases hkey : key = name
      · subst hkey
        by_cases heq : k = f
        · simp [heq]
        · cases hown : s.get? k.scope key with
          | some v => simp [heq]
          | none => simp [heq]
      · simp [hkey]

/-- The frame that a name was set on owns it for the chains that reach it, and for no others. -/
theorem Forest.owner?_set (h : s.Forest frames) (hf : f ∈ frames) (hg : g ∈ frames)
    (name : String) (value : Value) :
    (s.set f.scope name value).owner? g name = some f ↔ s.Reaches f name g := by
  have hhas {k : Environment} (hk : k ∈ frames) :
      (s.set f.scope name value).has k.scope name = (decide (k = f) || s.has k.scope name) := by
    change ((s.set f.scope name value).get? k.scope name).isSome = _
    rw [h.get?_set hf hk]
    by_cases heq : k = f
    · simp [heq]
    · simp [heq, has, get?, Bindings.has]
  induction g with
  | root scope =>
      rw [owner?, Environment.frames, List.find?_singleton, hhas hg]
      constructor
      · intro howner
        split at howner
        · obtain rfl := Option.some.inj howner
          exact .here
        · cases howner
      · rintro ⟨⟩
        simp
  | child scope parent ih =>
      have hparent : parent ∈ frames :=
        h.mem_of_mem_frames hg (List.mem_cons_of_mem _ parent.mem_frames_self)
      rw [owner?, Environment.frames, List.find?_cons, hhas hg]
      by_cases heq : Environment.child scope parent = f
      · subst heq
        simp [Reaches.here]
      · have hfree : s.Reaches f name (.child scope parent) ↔
            s.has scope name = false ∧ s.Reaches f name parent := by
          constructor
          · rintro (_ | ⟨hfree, hreaches⟩)
            · exact absurd rfl heq
            · exact ⟨hfree, hreaches⟩
          · rintro ⟨hfree, hreaches⟩
            exact .further hfree hreaches
        have hbehind := ih hparent
        rw [owner?] at hbehind
        cases hown : s.has scope name <;> simp [hfree, hbehind, heq, hown]

/-- Of all bindings just the one of the name on the frame is set, and every object keeps its class
and its names where they are. -/
structure Sets (s t : Store) (frame : Environment) (name : String) (value : Value) : Prop where
  get? : ∀ id key, t.get? id key =
    if id = frame.scope ∧ key = name then some value else s.get? id key
  size : t.objects.size = s.objects.size
  retains : s.Retains t

theorem Forest.sets (h : s.Forest frames) (hf : f ∈ frames) (name : String) (value : Value) :
    s.Sets (s.set f.scope name value) f name value := by
  refine ⟨fun id key => ?_, size_objects_set .., retains_set ..⟩
  rw [Store.get?_set]
  simp [h.lt hf]

/-- An assignment from the frame sets the name on its target; it is found there from this frame and
from all that now come to the target, and every other lookup is what it was. -/
structure Assigns (s t : Store) (frames : List Environment) (f : Environment) (name : String)
    (value : Value) : Prop where
  sets : s.Sets t (s.target f name) name value
  found : t.lookup f name = some value
  lookup : ∀ g ∈ frames, ∀ key, t.lookup g key =
    if key = name ∧ t.owner? g name = some (s.target f name) then some value else s.lookup g key
  forest : t.Forest frames

/-- A definition on the frame sets the name there; it is found from where this frame is reached
before another that owns the name, and every other lookup is what it was. -/
structure Defines (s t : Store) (frames : List Environment) (f : Environment) (name : String)
    (value : Value) : Prop where
  sets : s.Sets t f name value
  found : ∀ g ∈ frames, s.Reaches f name g → t.lookup g name = some value
  others : ∀ g ∈ frames, ∀ key, ¬ (key = name ∧ s.Reaches f name g) →
    t.lookup g key = s.lookup g key
  forest : t.Forest frames

/-- In a forest of frames, assignments and definitions each set one binding, and of the lookups from
all frames just those change that come to it. -/
theorem Forest.assigns_and_defines (h : s.Forest frames) (hf : f ∈ frames) (name : String)
    (value : Value) :
    s.Assigns (s.assign f name value) frames f name value ∧
      s.Defines (s.define f name value) frames f name value := by
  have htarget : s.target f name ∈ frames :=
    h.mem_of_mem_frames hf (s.reaches_target f name).mem_frames
  constructor
  · rw [assign_eq_set]
    refine ⟨h.sets htarget name value, ?_, fun g hg key => h.lookup_set htarget hg name key value,
      h.of_size (size_objects_set ..)⟩
    have hfound := (h.owner?_set htarget hf name value).mpr (s.reaches_target f name)
    rw [h.lookup_set htarget hf, if_pos ⟨rfl, hfound⟩]
  · rw [define]
    refine ⟨h.sets hf name value, fun g hg hreaches => ?_, fun g hg key hother => ?_,
      h.of_size (size_objects_set ..)⟩
    · rw [h.lookup_set hf hg, if_pos ⟨rfl, (h.owner?_set hf hg name value).mpr hreaches⟩]
    · rw [h.lookup_set hf hg, if_neg]
      rwa [h.owner?_set hf hg]

/-- The frame of a call within that of another, both of which see a name of their own and a global
one, and the frame of a third call beside them. -/
def callFrames : List Environment :=
  let global := Environment.root ⟨0⟩
  [.child ⟨3⟩ global, .child ⟨2⟩ (.child ⟨1⟩ global), .child ⟨1⟩ global, global]

def callStore : Store :=
  ⟨#[⟨.global, [("x", .null)]⟩, ⟨.scope, [("x", .undefined)]⟩, ⟨.scope, []⟩, ⟨.scope, []⟩], 0⟩

/-- A name that is nowhere declared is assigned to in the inner call and seen in the one beside. -/
theorem Forest.assigns_and_defines_undeclared :
    ∃ inner ∈ callFrames, ∃ beside ∈ callFrames, callStore.Forest callFrames ∧
      callStore.Assigns (callStore.assign inner "y" .null) callFrames inner "y" .null ∧
      callStore.Defines (callStore.define inner "y" .null) callFrames inner "y" .null ∧
      callStore.lookup beside "y" = none ∧
      ((callStore.assign inner "y" .null).lookup beside "y").isSome = true := by
  have hforest : callStore.Forest callFrames := by
    refine .withParent (.withParent (.withParent (.global .empty ?_ ?_) ?_ ?_ ?_) ?_ ?_ ?_) ?_ ?_ ?_
    all_goals decide
  have hinner : Environment.child ⟨2⟩ (.child ⟨1⟩ (.root ⟨0⟩)) ∈ callFrames := by decide
  obtain ⟨hassigns, hdefines⟩ := Forest.assigns_and_defines hforest hinner "y" .null
  exact ⟨_, hinner, .child ⟨3⟩ (.root ⟨0⟩), by decide, hforest, hassigns, hdefines, rfl, by decide⟩

end Store

end ScriptHost
