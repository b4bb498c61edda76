import Mathlib.Data.List.Nodup
import ScriptHost.Heap.Registry

/-!
What a registry keeps when room is made and an object is recorded: every entry of a live object, and
nothing but earlier entries and the new one.
-/

namespace ScriptHost

namespace Registry

variable {r : Registry} {live : ObjectId → Bool} {id other : ObjectId}

theorem mem_sweep : other ∈ (r.sweep live).entries ↔ other ∈ r.entries ∧ live other := by
  simp [sweep]

theorem mem_survivors : other ∈ r.survivors live ↔ other ∈ r.entries ∧ live other := by
  simp [survivors]

theorem nodup_survivors (h : r.entries.toList.Nodup) (live : ObjectId → Bool) :
    (r.survivors live).Nodup := by
  rw [survivors, Array.toList_filter]
  exact h.filter live

theorem mem_makeRoom_of_live (h : other ∈ r.entries) (hlive : live other) :
    other ∈ (r.makeRoom live).2.entries := by
  unfold makeRoom
  split
  · exact mem_sweep.mpr ⟨h, hlive⟩
  · exact h

theorem mem_of_mem_makeRoom (h : other ∈ (r.makeRoom live).2.entries) : other ∈ r.entries := by
  unfold makeRoom at h
  split at h
  · exact (mem_sweep.mp h).1
  · exact h

theorem nodup_makeRoom (h : r.entries.toList.Nodup) (live : ObjectId → Bool) :
    (r.makeRoom live).2.entries.toList.Nodup := by
  unfold makeRoom
  split
  · exact nodup_survivors h live
  · exact h

/-- A sweep leaves room for as many entries as it found live, and for the least bound at any rate;
without one there was room. -/
theorem size_makeRoom_lt (r : Registry) (live : ObjectId → Bool) :
    (r.makeRoom live).2.entries.size < (r.makeRoom live).2.sweepAt := by
  unfold makeRoom
  split
  · simp only [sweep, minSweepSize]
    omega
  · exact Nat.not_le.mp ‹¬ r.sweepAt ≤ r.entries.size›

/-- The bound follows from the entries that a sweep kept. -/
theorem sweepAt_makeRoom {kept : Nat} (hbound : r.sweepAt = max minSweepSize (2 * kept))
    (live : ObjectId → Bool) :
    (r.makeRoom live).2.sweepAt = max minSweepSize (2 * (r.makeRoom live).1.getD kept) := by
  unfold makeRoom
  split
  · rfl
  · exact hbound

/-- A sweep keeps the live entries. -/
theorem length_survivors_of_makeRoom {kept : Nat} (h : (r.makeRoom live).1 = some kept) :
    kept = (r.survivors live).length := by
  unfold makeRoom at h
  split at h
  · rw [survivors, Array.length_toList]
    exact (Option.some.inj h).symm
  · contradiction

theorem mem_record_self (r : Registry) (live : ObjectId → Bool) (id : ObjectId) :
    id ∈ (r.record live id).entries :=
  Array.mem_push_self

theorem mem_record_of_live (h : other ∈ r.entries) (hlive : live other) :
    other ∈ (r.record live id).entries :=
  Array.mem_push_of_mem _ (mem_makeRoom_of_live h hlive)

theorem mem_of_mem_record (h : other ∈ (r.record live id).entries) :
    other ∈ r.entries ∨ other = id :=
  (Array.mem_push.mp h).imp_left mem_of_mem_makeRoom

theorem nodup_record (h : r.entries.toList.Nodup) (hnew : id ∉ r.entries) :
    (r.record live id).entries.toList.Nodup := by
  have hnot : id ∉ (r.makeRoom live).2.entries.toList := fun hmem =>
    hnew (mem_of_mem_makeRoom (Array.mem_toList_iff.mp hmem))
  rw [record, add, Array.toList_push, ← List.concat_eq_append]
  exact List.Nodup.concat hnot (nodup_makeRoom h live)

theorem size_record_le (r : Registry) (live : ObjectId → Bool) (id : ObjectId) :
    (r.record live id).entries.size ≤ (r.record live id).sweepAt := by
  rw [record, add, Array.size_push]
  exact size_makeRoom_lt r live

end Registry

end ScriptHost
