import ScriptHost.Proofs.Store.Bindings

/-!
What becomes of the objects of a store. No object is taken away and none comes to serve as anything
else, whatever is set on it.
-/

namespace ScriptHost

namespace Store

variable {s t u : Store}

/-- The store holds all objects of another, each of its class, and may hold more. -/
structure Grows (s t : Store) : Prop where
  size : s.objects.size ≤ t.objects.size
  kind : ∀ id : ObjectId, id.index < s.objects.size → (t.object id).kind = (s.object id).kind

theorem Grows.refl (s : Store) : s.Grows s := ⟨Nat.le_refl _, fun _ _ => rfl⟩

theorem Grows.trans (h : s.Grows t) (h' : t.Grows u) : s.Grows u := by
  refine ⟨Nat.le_trans h.size h'.size, ?_⟩
  intro id hid
  rw [h'.kind id (Nat.lt_of_lt_of_le hid h.size), h.kind id hid]

theorem grows_set (s : Store) (id : ObjectId) (name : String) (value : Value) :
    s.Grows (s.set id name value) := by
  refine ⟨Nat.le_of_eq (size_objects_set s id name value).symm, ?_⟩
  intro other hother
  by_cases heq : other = id
  · subst heq
    rw [object_set_self hother]
    rfl
  · rw [object_set_of_ne heq]

theorem object_allocate (s : Store) (kind : ObjectClass) :
    (s.allocate kind).2.object (s.allocate kind).1 = Object.ofClass kind := by
  simp [allocate, object]

theorem object_allocate_of_lt (s : Store) (kind : ObjectClass) {id : ObjectId}
    (h : id.index < s.objects.size) : (s.allocate kind).2.object id = s.object id := by
  simp [allocate, object, Array.getElem?_push, h, Nat.ne_of_lt h]

theorem grows_allocate (s : Store) (kind : ObjectClass) : s.Grows (s.allocate kind).2 := by
  refine ⟨by simp [allocate], ?_⟩
  intro id hid
  rw [object_allocate_of_lt s kind hid]

theorem grows_identify (s : Store) : s.Grows s.identify.2 := ⟨Nat.le_refl _, fun _ _ => rfl⟩

theorem grows_bindParameters (s : Store) (scope : ObjectId) (names : List String)
    (arguments : List Value) : s.Grows (s.bindParameters scope names arguments) := by
  induction names generalizing s arguments with
  | nil => exact .refl s
  | cons name rest ih => exact (grows_set s scope name _).trans (ih _ _)

theorem grows_assign (s : Store) (env : Environment) (name : String) (value : Value) :
    s.Grows (s.assign env name value) := by
  induction env with
  | root scope => exact grows_set s scope name value
  | child scope parent ih =>
      rw [assign]
      split
      · exact grows_set s scope name value
      · exact ih

theorem object_allocate_of_ne (s : Store) (kind : ObjectClass) {id : ObjectId}
    (h : id ≠ (s.allocate kind).1) : (s.allocate kind).2.object id = s.object id := by
  have hne : ¬ id.index = s.objects.size := fun heq => h (by cases id; cases heq; rfl)
  simp [allocate, object, Array.getElem?_push, hne]

theorem object_clear_of_ne (s : Store) {id other : ObjectId} (h : other ≠ id) :
    (s.clear id).object other = s.object other := by
  have hne : ¬ id.index = other.index := fun heq => h (by cases id; cases other; cases heq; rfl)
  simp [clear, object, Array.getElem?_modify, hne]

theorem properties_clear_self (s : Store) (id : ObjectId) :
    ((s.clear id).object id).properties = [] := by
  by_cases hlt : id.index < s.objects.size
  · simp [clear, object, hlt, Array.getElem_modify, Object.emptied]
  · simp [clear, object, hlt, Object.ofClass]

/-- Emptying some objects takes the properties of these and of no others. -/
theorem properties_foldl_clear (ids : List ObjectId) (s : Store) (id : ObjectId) :
    ((ids.foldl clear s).object id).properties =
      if id ∈ ids then [] else (s.object id).properties := by
  induction ids generalizing s with
  | nil => rfl
  | cons first rest ih =>
      rw [List.foldl_cons, ih]
      by_cases hrest : id ∈ rest
      · simp [hrest]
      · by_cases heq : id = first
        · subst heq
          simp [hrest, properties_clear_self]
        · simp [hrest, heq, object_clear_of_ne s heq]

theorem mem_properties_of_foldl_clear {ids : List ObjectId} {s : Store} {id : ObjectId}
    {p : String × Value} (h : p ∈ ((ids.foldl clear s).object id).properties) :
    p ∈ (s.object id).properties := by
  rw [properties_foldl_clear] at h
  split at h
  · exact absurd h List.not_mem_nil
  · exact h

theorem size_objects_foldl_clear (ids : List ObjectId) (s : Store) :
    (ids.foldl clear s).objects.size = s.objects.size := by
  induction ids generalizing s with
  | nil => rfl
  | cons first rest ih => exact (ih _).trans Array.size_modify

/-- An allocation gives no object a property. -/
theorem properties_allocate (s : Store) (kind : ObjectClass) (id : ObjectId) :
    ((s.allocate kind).2.object id).properties = (s.object id).properties := by
  by_cases heq : id = (s.allocate kind).1
  · subst heq
    rw [object_allocate]
    simp [allocate, object, Object.ofClass]
  · rw [object_allocate_of_ne s kind heq]

/-- Parameters are bound on the scope of the call alone. -/
theorem object_bindParameters_of_ne (s : Store) {scope id : ObjectId} (h : id ≠ scope)
    (names : List String) (arguments : List Value) :
    (s.bindParameters scope names arguments).object id = s.object id := by
  induction names generalizing s arguments with
  | nil => rfl
  | cons name rest ih => rw [bindParameters, ih, object_set_of_ne h]

theorem get?_bindParameters_of_not_mem (s : Store) (scope : ObjectId) {names : List String}
    {name : String} (h : name ∉ names) (arguments : List Value) :
    (s.bindParameters scope names arguments).get? scope name = s.get? scope name := by
  induction names generalizing s arguments with
  | nil => rfl
  | cons first rest ih =>
      obtain ⟨hne, hrest⟩ := not_or.mp (mt List.mem_cons.mpr h)
      rw [bindParameters, ih _ hrest, get?_set]
      simp [hne]

/-- A parameter is bound to the argument at its place; of two of one name the last one counts. -/
theorem get?_bindParameters {s : Store} {scope : ObjectId} (hscope : scope.index < s.objects.size)
    {names : List String} {i : Nat} {name : String} (hname : names[i]? = some name)
    (hlast : name ∉ names.drop (i + 1)) (arguments : List Value) :
    (s.bindParameters scope names arguments).get? scope name =
      some (arguments.getD i .undefined) := by
  induction names generalizing s arguments i with
  | nil => simp at hname
  | cons first rest ih =>
      rw [bindParameters]
      cases i with
      | zero =>
          obtain rfl : first = name := by simpa using hname
          rw [get?_bindParameters_of_not_mem _ _ (by simpa using hlast), get?_set]
          simp [hscope, List.headD_eq_head?_getD, List.getD_eq_getElem?_getD, List.head?_eq_getElem?]
      | succ i =>
          have hkept : scope.index < (s.set scope first (arguments.headD .undefined)).objects.size := by
            rwa [size_objects_set]
          rw [ih hkept (by simpa using hname) (by simpa using hlast)]
          simp [List.getD_eq_getElem?_getD]

end Store

end ScriptHost
