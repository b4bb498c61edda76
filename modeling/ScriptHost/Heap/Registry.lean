import ScriptHost.Value.Basic

/-!
A registry of all objects an owner has allocated. It does not keep them alive: entries of objects
that are gone are swept out once the registry has grown to a bound, which is then set to twice the
number of survivors.
-/

namespace ScriptHost

/-- The objects recorded, oldest first, and the size at which dead entries are swept out. -/
structure Registry where
  entries : Array ObjectId
  sweepAt : Nat

namespace Registry

/-- Least size at which entries are swept out. -/
def minSweepSize : Nat := 64

/-- A registry without entries. -/
def empty : Registry := ⟨#[], minSweepSize⟩

/-- Keeps the entries of live objects. -/
def sweep (r : Registry) (live : ObjectId → Bool) : Registry :=
  let survivors := r.entries.filter live
  ⟨survivors, max minSweepSize (2 * survivors.size)⟩

/-- Sweeps if the registry has reached its bound; the answer is how many entries a sweep kept. -/
def makeRoom (r : Registry) (live : ObjectId → Bool) : Option Nat × Registry :=
  if r.sweepAt ≤ r.entries.size then
    let r := r.sweep live
    (some r.entries.size, r)
  else (none, r)

/-- Adds an entry behind all others. -/
def add (r : Registry) (id : ObjectId) : Registry := { r with entries := r.entries.push id }

/-- Records a new object once there is room. -/
def record (r : Registry) (live : ObjectId → Bool) (id : ObjectId) : Registry :=
  (r.makeRoom live).2.add id

/-- The entries of live objects. -/
def survivors (r : Registry) (live : ObjectId → Bool) : List ObjectId :=
  (r.entries.filter live).toList

theorem size_entries_sweep_le (r : Registry) (live : ObjectId → Bool) :
    (r.sweep live).entries.size ≤ r.entries.size :=
  Array.size_filter_le

theorem minSweepSize_le_sweepAt_sweep (r : Registry) (live : ObjectId → Bool) :
    minSweepSize ≤ (r.sweep live).sweepAt :=
  Nat.le_max_left ..

end Registry

end ScriptHost
