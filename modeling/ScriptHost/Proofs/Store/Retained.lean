import Mathlib.Data.List.Nodup
import ScriptHost.Proofs.Store.Growth

/-!
What a store keeps of the names on its objects. A name that is set keeps its place, or comes last if
it is new; so the names that an object has stay in front, in their order, and none is there twice.
-/

namespace ScriptHost

namespace Bindings

theorem keys_prefix_set (b : Bindings) (name : String) (value : Value) :
    b.keys <+: (b.set name value).keys := by
  rw [keys_set]
  split
  · exact List.prefix_rfl
  · exact List.prefix_append _ _

theorem nodup_keys_set {b : Bindings} (h : b.keys.Nodup) (name : String) (value : Value) :
    (b.set name value).keys.Nodup := by
  rw [keys_set]
  split
  · exact h
  · rename_i hnew
    rw [← List.concat_eq_append]
    exact h.concat hnew

end Bindings

namespace Store

/-- The names on an object, in order. -/
def names (s : Store) (id : ObjectId) : List String := (s.object id).properties.keys

/-- The store holds all objects of another, each of its class and with the names it had in front of
those it has beyond them, none of which is there twice unless it was before. -/
structure Retains (s t : Store) : Prop extends s.Grows t where
  names : ∀ id, s.names id <+: t.names id
  nodup : ∀ id, (s.names id).Nodup → (t.names id).Nodup

variable {s t u : Store}

theorem Retains.refl (s : Store) : s.Retains s := ⟨.refl s, fun _ => List.prefix_rfl, fun _ h => h⟩

theorem Retains.trans (h : s.Retains t) (h' : t.Retains u) : s.Retains u where
  toGrows := h.toGrows.trans h'.toGrows
  names id := (h.names id).trans (h'.names id)
  nodup id hid := h'.nodup id (h.nodup id hid)

theorem Retains.of_names (hgrows : s.Grows t) (h : ∀ id, t.names id = s.names id) :
    s.Retains t := by
  refine ⟨hgrows, fun id => ?_, fun id hid => ?_⟩
  · exact h id ▸ List.prefix_rfl
  · rwa [h id]

theorem names_set (s : Store) (id other : ObjectId) (name : String) (value : Value) :
    (s.set id name value).names other =
      if other = id ∧ id.index < s.objects.size then
        ((s.object other).properties.set name value).keys
      else s.names other := by
  split
  · rename_i h
    obtain ⟨rfl, hlt⟩ := h
    rw [names, object_set_self hlt, Object.set]
  · rename_i h
    by_cases hid : other = id
    · have hle : s.objects.size ≤ id.index := Nat.not_lt.mp fun hlt => h ⟨hid, hlt⟩
      rw [set_of_le hle]
    · rw [names, object_set_of_ne hid, names]

theorem retains_set (s : Store) (id : ObjectId) (name : String) (value : Value) :
    s.Retains (s.set id name value) := by
  refine ⟨grows_set s id name value, fun other => ?_, fun other hother => ?_⟩
  · rw [names_set]
    split
    · exact Bindings.keys_prefix_set ..
    · exact List.prefix_rfl
  · rw [names_set]
    split
    · exact Bindings.nodup_keys_set hother ..
    · exact hother

theorem retains_setAll (s : Store) (id : ObjectId) (bindings : Bindings) :
    s.Retains (bindings.foldl (fun s p => s.set id p.1 p.2) s) := by
  induction bindings generalizing s with
  | nil => exact .refl s
  | cons first rest ih => exact (retains_set s id first.1 first.2).trans (ih _)

theorem retains_allocate (s : Store) (kind : ObjectClass) : s.Retains (s.allocate kind).2 :=
  .of_names (grows_allocate s kind) fun id => by rw [names, properties_allocate, names]

theorem retains_identify (s : Store) : s.Retains s.identify.2 :=
  .of_names (grows_identify s) fun _ => rfl

end Store

end ScriptHost
