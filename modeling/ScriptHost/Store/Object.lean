import ScriptHost.Value.Basic

/-!
Objects: properties in the order in which they were first set. Setting a property again keeps its
place.
-/

namespace ScriptHost

/-- What an object serves as. -/
inductive ObjectClass
  | global
  | plain
  | scope
  deriving DecidableEq, Repr

/-- Values by name, in the order in which the names were first bound. -/
abbrev Bindings := List (String × Value)

namespace Bindings

/-- The names, in order. -/
def keys (b : Bindings) : List String := b.map Prod.fst

/-- The value bound to a name. -/
def get? (b : Bindings) (name : String) : Option Value := b.lookup name

/-- Whether a name is bound. -/
def has (b : Bindings) (name : String) : Bool := (b.get? name).isSome

/-- Binds a name in its place, or at the end if it was not bound. -/
def set : Bindings → String → Value → Bindings
  | [], name, value => [(name, value)]
  | (key, old) :: rest, name, value =>
    if key = name then (key, value) :: rest else (key, old) :: set rest name value

theorem get?_set (b : Bindings) (name key : String) (value : Value) :
    (b.set name value).get? key = if key = name then some value else b.get? key := by
  induction b with
  | nil =>
    by_cases h : key = name
    · simp [set, get?, h]
    · have : (key == name) = false := by simpa using h
      simp [set, get?, List.lookup_cons, h, this]
  | cons entry rest ih =>
    obtain ⟨first, old⟩ := entry
    by_cases hf : first = name
    · subst hf
      by_cases hk : key = first
      · simp [set, get?, hk]
      · have : (key == first) = false := by simpa using hk
        simp [set, get?, List.lookup_cons, hk, this]
    · by_cases hk : key = first
      · subst hk
        simp [set, get?, hf]
      · have : (key == first) = false := by simpa using hk
        simpa [set, get?, List.lookup_cons, hf, this] using ih

theorem keys_set (b : Bindings) (name : String) (value : Value) :
    (b.set name value).keys = if name ∈ b.keys then b.keys else b.keys ++ [name] := by
  induction b with
  | nil => simp [set, keys]
  | cons entry rest ih =>
    obtain ⟨first, old⟩ := entry
    by_cases hf : first = name
    · simp [set, keys, hf]
    · have hn : ¬ name = first := fun h => hf h.symm
      simp only [keys] at ih
      by_cases hm : name ∈ rest.map Prod.fst <;> simp_all [set, keys]

end Bindings

/-- An object. -/
structure Object where
  kind : ObjectClass
  properties : Bindings

namespace Object

/-- An object without properties. -/
def ofClass (kind : ObjectClass) : Object := ⟨kind, []⟩

/-- Sets a property. -/
def set (o : Object) (name : String) (value : Value) : Object :=
  { o with properties := o.properties.set name value }

/-- The object without its properties. -/
def emptied (o : Object) : Object := { o with properties := [] }

end Object

end ScriptHost
