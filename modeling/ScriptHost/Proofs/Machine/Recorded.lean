import ScriptHost.Proofs.Heap.Registry
import ScriptHost.Proofs.Machine.Building

/-!
Every object that a machine makes is an entry of its registry. One step makes at most what it
records, unless a host's native function makes an object of its own; so a run that begins with all
objects recorded ends with all of them recorded.
-/

namespace ScriptHost

variable {last : Phrase}

/-- The second machine has the entries of the first, and one for every object it has beyond it. -/
structure Machine.Records (m n : Machine) : Prop where
  kept : ∀ id ∈ m.registry.entries, id ∈ n.registry.entries
  added : ∀ id : ObjectId, m.store.objects.size ≤ id.index → id.index < n.store.objects.size →
    id ∈ n.registry.entries

/-- Whether all objects of a machine are entries of its registry. -/
def Machine.Covers (m : Machine) : Prop :=
  ∀ id : ObjectId, id.index < m.store.objects.size → id ∈ m.registry.entries

namespace Machine

variable {m n o : Machine}

theorem Records.of_eq (hregistry : n.registry = m.registry)
    (hsize : n.store.objects.size = m.store.objects.size) : m.Records n where
  kept := fun _ hid => hregistry ▸ hid
  added := fun _ hle hlt => absurd (hsize ▸ hlt) (Nat.not_lt.mpr hle)

theorem Records.refl (m : Machine) : m.Records m := .of_eq rfl rfl

theorem Records.trans (h : m.Records n) (h' : n.Records o) : m.Records o where
  kept := fun id hid => h'.kept id (h.kept id hid)
  added := by
    intro id hle hlt
    by_cases hold : id.index < n.store.objects.size
    · exact h'.kept id (h.added id hle hold)
    · exact h'.added id (Nat.not_lt.mp hold) hlt

theorem Records.covers (h : m.Records n) (hm : m.Covers) : n.Covers := by
  intro id hid
  by_cases hold : id.index < m.store.objects.size
  · exact h.kept id (hm id hold)
  · exact h.added id (Nat.not_lt.mp hold) hid

end Machine

namespace Memory

variable {a b : Memory}

theorem Becomes.kept (h : a.Becomes b) {id : ObjectId} (hid : id ∈ a.registry.entries) :
    id ∈ b.registry.entries := by
  induction h with
  | refl => exact hid
  | set _ _ _ _ ih | identify _ ih => exact ih
  | allocate _ _ ih => exact Registry.mem_record_of_live ih rfl

/-- An object that came to the store is recorded. -/
theorem Becomes.added (h : a.Becomes b) {id : ObjectId} (hle : a.store.objects.size ≤ id.index)
    (hlt : id.index < b.store.objects.size) : id ∈ b.registry.entries := by
  induction h with
  | refl => exact absurd hlt (Nat.not_lt.mpr hle)
  | set _ other name value ih =>
      rw [Memory.set, Store.size_objects_set] at hlt
      exact ih hlt
  | identify _ ih => exact ih hlt
  | @allocate b _ kind ih =>
      by_cases hold : id.index < b.store.objects.size
      · exact Registry.mem_record_of_live (ih hold) rfl
      · have hsize : (b.allocate kind).store.objects.size = b.store.objects.size + 1 := by
          simp [Memory.allocate, Store.allocate]
        have hnew : id = (b.store.allocate kind).1 := by
          have hindex : id.index = b.store.objects.size := by omega
          cases id
          exact congrArg ObjectId.mk hindex
        exact hnew ▸ Registry.mem_record_self ..

end Memory

/-- A step records every object that it makes, unless it makes it for a host. -/
theorem Situation.records_step (hosts : HostTable) (s : Situation last)
    (hmakes : s.makesForHost = false) : s.machine.Records (s.step hosts).machine where
  kept := fun _ hid => (s.becomes_step hosts hmakes).kept hid
  added := fun _ hle hlt => (s.becomes_step hosts hmakes).added hle hlt

end ScriptHost
