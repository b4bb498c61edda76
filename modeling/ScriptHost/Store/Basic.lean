import ScriptHost.Store.Object

/-!
Stores of objects and the bindings that environments find in them. A binding belongs to the nearest
frame that owns its name; a name that no frame owns is bound on the global one.
-/

namespace ScriptHost

/-- All objects, each at its name, and the number that the next function or native will carry. -/
structure Store where
  objects : Array Object
  nextIdentity : Nat

namespace Store

/-- A store without objects. -/
def empty : Store := ⟨#[], 0⟩

/-- The object of a name. -/
def object (s : Store) (id : ObjectId) : Object :=
  s.objects[id.index]?.getD (Object.ofClass .plain)

/-- Adds an object without properties. -/
def allocate (s : Store) (kind : ObjectClass) : ObjectId × Store :=
  (⟨s.objects.size⟩, { s with objects := s.objects.push (Object.ofClass kind) })

/-- Hands out the number of a new function or native. -/
def identify (s : Store) : Nat × Store :=
  (s.nextIdentity, { s with nextIdentity := s.nextIdentity + 1 })

/-- Sets a property of an object. -/
def set (s : Store) (id : ObjectId) (name : String) (value : Value) : Store :=
  { s with objects := s.objects.modify id.index (·.set name value) }

/-- The value of a property. -/
def get? (s : Store) (id : ObjectId) (name : String) : Option Value :=
  (s.object id).properties.get? name

/-- Whether an object has a property. -/
def has (s : Store) (id : ObjectId) (name : String) : Bool :=
  (s.object id).properties.has name

/-- Takes all properties from an object. -/
def clear (s : Store) (id : ObjectId) : Store :=
  { s with objects := s.objects.modify id.index Object.emptied }

/-- Binds a name on the innermost frame. -/
def define (s : Store) (env : Environment) (name : String) (value : Value) : Store :=
  s.set env.scope name value

/-- The value bound to a name on the nearest frame that owns it. -/
def lookup (s : Store) : Environment → String → Option Value
  | .root scope, name => s.get? scope name
  | .child scope parent, name =>
    match s.get? scope name with
    | some value => some value
    | none => s.lookup parent name

/-- Changes a name on the nearest frame that owns it, or binds it on the global one. -/
def assign (s : Store) : Environment → String → Value → Store
  | .root scope, name, value => s.set scope name value
  | .child scope parent, name, value =>
    if s.has scope name then s.set scope name value else s.assign parent name value

theorem object_set_self {s : Store} {id : ObjectId} (h : id.index < s.objects.size)
    (name : String) (value : Value) :
    (s.set id name value).object id = (s.object id).set name value := by
  simp [object, set, h, Array.getElem_modify]

theorem object_set_of_ne {s : Store} {id other : ObjectId} (h : other ≠ id)
    (name : String) (value : Value) :
    (s.set id name value).object other = s.object other := by
  have : ¬ id.index = other.index := fun e => h (by cases id; cases other; simp_all)
  simp [object, set, Array.getElem?_modify, this]

theorem size_objects_set (s : Store) (id : ObjectId) (name : String) (value : Value) :
    (s.set id name value).objects.size = s.objects.size := by
  simp [set]

end Store

end ScriptHost
