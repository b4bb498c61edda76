import ScriptHost.Machine.Step

/-!
What reading a property finds after the store was changed.
-/

namespace ScriptHost

theorem Bindings.mem_of_mem_set {b : Bindings} {name : String} {value : Value} {p : String × Value}
    (h : p ∈ b.set name value) : p ∈ b ∨ p = (name, value) := by
  induction b with
  | nil => exact .inr (List.mem_singleton.mp h)
  | cons entry rest ih =>
      obtain ⟨key, old⟩ := entry
      rw [set] at h
      split at h
      · rename_i hkey
        rcases List.mem_cons.mp h with rfl | hrest
        · exact .inr (hkey ▸ rfl)
        · exact .inl (List.mem_cons_of_mem _ hrest)
      · rcases List.mem_cons.mp h with rfl | hrest
        · exact .inl List.mem_cons_self
        · exact (ih hrest).imp_left (List.mem_cons_of_mem _)

namespace Store

/-- Nothing is set on an object that is not there. -/
theorem set_of_le {s : Store} {id : ObjectId} (h : s.objects.size ≤ id.index) (name : String)
    (value : Value) : s.set id name value = s := by
  have hsame : s.objects.modify id.index (·.set name value) = s.objects := by
    apply Array.ext
    · simp
    · intro i hi hi'
      have hne : ¬ id.index = i := by omega
      simp [Array.getElem_modify, hne]
  rw [set, hsame]

/-- A property is one that was there before or the one that was set. -/
theorem mem_properties_of_set {s : Store} {id other : ObjectId} {name : String} {value : Value}
    {p : String × Value} (h : p ∈ ((s.set id name value).object other).properties) :
    p ∈ (s.object other).properties ∨ p = (name, value) := by
  by_cases heq : other = id
  · subst heq
    by_cases hlt : other.index < s.objects.size
    · rw [object_set_self hlt] at h
      exact Bindings.mem_of_mem_set h
    · rw [set_of_le (Nat.not_lt.mp hlt)] at h
      exact .inl h
  · rw [object_set_of_ne heq] at h
    exact .inl h

theorem get?_set (s : Store) (id other : ObjectId) (name key : String) (value : Value) :
    (s.set id name value).get? other key =
      if other = id ∧ key = name ∧ id.index < s.objects.size then some value
      else s.get? other key := by
  by_cases hid : other = id
  · subst hid
    by_cases hlt : other.index < s.objects.size
    · rw [get?, object_set_self hlt, Object.set, Bindings.get?_set]
      by_cases hkey : key = name
      · simp [hkey, hlt]
      · simp [hkey, get?]
    · simp [set_of_le (Nat.not_lt.mp hlt), hlt]
  · rw [get?, object_set_of_ne hid]
    simp [hid, get?]

theorem get?_allocate (s : Store) (kind : ObjectClass) (id : ObjectId) (name : String) :
    (s.allocate kind).2.get? id name = s.get? id name := by
  simp only [get?, allocate, object]
  by_cases hlt : id.index < s.objects.size
  · simp [Array.getElem?_push, hlt, Nat.ne_of_lt hlt]
  · by_cases heq : id.index = s.objects.size
    · simp [heq, Object.ofClass]
    · simp [Array.getElem?_push, heq, hlt]

end Store

end ScriptHost
