import ScriptHost.Proofs.Heap.Settled

/-!
What the registry of a heap knows after any sequence of allocations, links between objects, handles
taken and given up, and clears. Beside the heap, a history keeps the objects that were handed out
since the last clear, those that the clear left alive, and how many entries the last sweep kept.
Every living object is one of these, and the registry has one entry for each of the former.
-/

namespace ScriptHost

namespace CountedHeap

/-- Holds a living object under a handle, which gives up what it held before. -/
def hold (h : CountedHeap) (handle : Nat) (id : ObjectId) : CountedHeap :=
  if h.isAlive id then
    settle { h with handles := (handle, id) :: h.handles.filter (·.1 != handle) }
  else h

/-- Sets a property of the object under a handle. Nobody has a value that refers to an object which
is gone. -/
def link (h : CountedHeap) (handle : Nat) (name : String) (value : Value) : CountedHeap :=
  if value.referents.all h.isAlive then h.set handle name value else h

/-- Takes all properties from the object under a handle. -/
def strip (h : CountedHeap) (handle : Nat) : CountedHeap :=
  match h.held? handle with
  | some id => settle { h with store := h.store.clear id }
  | none => h

end CountedHeap

/-- What can be done to a heap: objects are allocated, under a handle or for nobody, handles are
taken and given up, objects are linked and unlinked through properties, and all are cleared. -/
inductive HeapAction
  | allocate (kind : ObjectClass) (handle : Nat)
  | discard
  | hold (handle : Nat) (id : ObjectId)
  | drop (handle : Nat)
  | link (handle : Nat) (name : String) (value : Value)
  | strip (handle : Nat)
  | clear

/-- A heap with the objects handed out since the last clear, newest first, the objects that the
clear left alive, and the number of entries that the last sweep since then kept. -/
structure HeapHistory where
  heap : CountedHeap
  recent : List ObjectId
  earlier : List ObjectId
  swept : Nat

namespace HeapHistory

open Registry (minSweepSize)

/-- A heap on which nothing was done yet. -/
def start : HeapHistory := ⟨.empty, [], [], 0⟩

/-- The history after an object was handed out. -/
def handedOut (t : HeapHistory) (a : CountedHeap.Allocation) : HeapHistory :=
  { t with heap := a.heap, recent := a.id :: t.recent, swept := a.swept.getD t.swept }

/-- The history after an action. -/
def perform (t : HeapHistory) : HeapAction → HeapHistory
  | .allocate kind handle => t.handedOut (t.heap.handTo kind handle)
  | .discard => t.handedOut (t.heap.handOut .plain)
  | .hold handle id => { t with heap := t.heap.hold handle id }
  | .drop handle => { t with heap := (t.heap.drop handle).2 }
  | .link handle name value => { t with heap := t.heap.link handle name value }
  | .strip handle => { t with heap := t.heap.strip handle }
  | .clear =>
    let left := t.heap.clear.2
    ⟨left, [], left.alive, 0⟩

/-- The history after some actions, first to last. -/
def performAll (t : HeapHistory) (actions : List HeapAction) : HeapHistory :=
  actions.foldl perform t

/-- The objects handed out since the last clear that are alive. -/
def live (t : HeapHistory) : List ObjectId := t.recent.filter t.heap.isAlive

/-- What every action keeps: a living object was handed out since the last clear or left alive by
it, and not both; entries are of objects handed out since then, each has at most one and a living
one has it; and there are no more of them than the size that calls for a sweep, which follows from
the last one. -/
structure Tracked (t : HeapHistory) : Prop where
  settled : t.heap.Settled
  origin : ∀ id ∈ t.heap.alive, id ∈ t.recent ∨ id ∈ t.earlier
  made : ∀ id, id ∈ t.recent ∨ id ∈ t.earlier → id.index < t.heap.store.objects.size
  distinct : t.recent.Nodup
  apart : ∀ id ∈ t.recent, id ∉ t.earlier
  recorded : t.heap.registry.entries.toList.Nodup
  known : ∀ id ∈ t.heap.registry.entries, id ∈ t.recent
  covered : ∀ id ∈ t.recent, id ∈ t.heap.alive → id ∈ t.heap.registry.entries
  sweepAt : t.heap.registry.sweepAt = max minSweepSize (2 * t.swept)
  size : t.heap.registry.entries.size ≤ t.heap.registry.sweepAt

variable {t : HeapHistory} {heap : CountedHeap}

/-- An empty registry has nothing to answer for. -/
theorem tracked_of_registry_eq_empty (hsettled : heap.Settled)
    (hmade : ∀ id ∈ heap.alive, id.index < heap.store.objects.size)
    (hregistry : heap.registry = .empty) : Tracked ⟨heap, [], heap.alive, 0⟩ where
  settled := hsettled
  origin := fun id hid => .inr hid
  made := fun id hid => hmade id (hid.resolve_left List.not_mem_nil)
  distinct := List.nodup_nil
  apart := by simp
  recorded := by simp [hregistry, Registry.empty]
  known := by simp [hregistry, Registry.empty]
  covered := by simp
  sweepAt := by simp [hregistry, Registry.empty]
  size := by simp [hregistry, Registry.empty]

theorem tracked_start : start.Tracked := by
  have hsettled : CountedHeap.empty.Settled := by
    intro id
    constructor
    · exact fun hid => nomatch hid
    · rintro ⟨kept, hkept, hid⟩
      rcases CountedHeap.isReferenced_iff.mp (hkept id hid) with
        ⟨handle, hhandle⟩ | ⟨owner, -, p, hp, -⟩
      · exact nomatch hhandle
      · exact nomatch hp
  exact tracked_of_registry_eq_empty hsettled (fun id hid => nomatch hid) rfl

/-- Objects may die as long as the registry stays as it is. -/
theorem Tracked.of_registry_eq (ht : t.Tracked) (hsettled : heap.Settled)
    (hsize : t.heap.store.objects.size ≤ heap.store.objects.size)
    (halive : heap.alive ⊆ t.heap.alive) (hregistry : heap.registry = t.heap.registry) :
    ({ t with heap } : HeapHistory).Tracked where
  settled := hsettled
  origin := fun id hid => ht.origin id (halive hid)
  made := fun id hid => Nat.lt_of_lt_of_le (ht.made id hid) hsize
  distinct := ht.distinct
  apart := ht.apart
  recorded := hregistry ▸ ht.recorded
  known := hregistry ▸ ht.known
  covered := by
    intro id hid hlive
    rw [hregistry]
    exact ht.covered id hid (halive hlive)
  sweepAt := by rw [hregistry]; exact ht.sweepAt
  size := by rw [hregistry]; exact ht.size

/-- The object that is handed out is none that was there before. -/
theorem Tracked.not_mem_handOut (ht : t.Tracked) (kind : ObjectClass) :
    ¬ ((t.heap.handOut kind).id ∈ t.recent ∨ (t.heap.handOut kind).id ∈ t.earlier) := by
  intro hmem
  have hlt : t.heap.store.objects.size < t.heap.store.objects.size := ht.made _ hmem
  exact Nat.lt_irrefl _ hlt

/-- Handing out an object may sweep, but never loses the entry of a living object. -/
theorem Tracked.of_handOut (ht : t.Tracked) {kind : ObjectClass} (hsettled : heap.Settled)
    (hstore : heap.store = (t.heap.handOut kind).heap.store)
    (halive : heap.alive ⊆ (t.heap.handOut kind).id :: t.heap.alive)
    (hregistry : heap.registry = (t.heap.handOut kind).heap.registry) :
    (t.handedOut { t.heap.handOut kind with heap }).Tracked := by
  have hnew := ht.not_mem_handOut kind
  have hsize : heap.store.objects.size = t.heap.store.objects.size + 1 := by
    rw [hstore]
    exact Array.size_push _
  have hmore : ∀ id, id ∈ (t.heap.handOut kind).id :: t.recent ∨ id ∈ t.earlier ↔
      id = (t.heap.handOut kind).id ∨ id ∈ t.recent ∨ id ∈ t.earlier := by
    intro id
    rw [List.mem_cons, or_assoc]
  constructor
  case settled => exact hsettled
  case origin =>
    exact fun id hid => (hmore id).mpr ((List.mem_cons.mp (halive hid)).imp_right (ht.origin id))
  case made =>
    intro id hid
    rw [handedOut, hsize]
    rcases (hmore id).mp hid with rfl | hold
    · exact Nat.lt_succ_self _
    · exact Nat.lt_succ_of_lt (ht.made id hold)
  case distinct => exact List.nodup_cons.mpr ⟨fun hmem => hnew (.inl hmem), ht.distinct⟩
  case apart =>
    exact List.forall_mem_cons.mpr ⟨fun hmem => hnew (.inr hmem), ht.apart⟩
  case recorded =>
    rw [handedOut, hregistry]
    exact Registry.nodup_record ht.recorded fun hmem => hnew (.inl (ht.known _ hmem))
  case known =>
    intro id hid
    rw [handedOut, hregistry] at hid
    rcases Registry.mem_of_mem_record hid with hold | rfl
    · exact List.mem_cons_of_mem _ (ht.known id hold)
    · exact List.mem_cons_self
  case covered =>
    intro id hid hlive
    rw [handedOut, hregistry]
    by_cases heq : id = (t.heap.handOut kind).id
    · exact heq ▸ Registry.mem_record_self ..
    · have hbefore : id ∈ t.heap.alive := (List.mem_cons.mp (halive hlive)).resolve_left heq
      have hentry := ht.covered id ((List.mem_cons.mp hid).resolve_left heq) hbefore
      exact Registry.mem_record_of_live hentry (by simpa [CountedHeap.isAlive] using hbefore)
  case sweepAt =>
    rw [handedOut, hregistry]
    exact Registry.sweepAt_makeRoom ht.sweepAt _
  case size =>
    rw [handedOut, hregistry]
    exact Registry.size_record_le ..

/-- What is released in the end costs the registry nothing, and what handles and properties come to
refer to was alive. -/
theorem Tracked.of_settle (ht : t.Tracked)
    (hsize : t.heap.store.objects.size ≤ heap.store.objects.size)
    (halive : heap.alive = t.heap.alive) (hregistry : heap.registry = t.heap.registry)
    (hhandles : ∀ handle id, (handle, id) ∈ heap.handles →
      id ∈ t.heap.alive ∨ (handle, id) ∈ t.heap.handles)
    (hproperties : ∀ owner, ∀ p ∈ (heap.store.object owner).properties,
      (∀ id ∈ p.2.referents, id ∈ t.heap.alive) ∨ p ∈ (t.heap.store.object owner).properties) :
    ({ t with heap := heap.settle } : HeapHistory).Tracked := by
  refine ht.of_registry_eq (ht.settled.settle_of_refers halive hhandles hproperties) ?_ ?_ ?_
  · rwa [CountedHeap.store_settle]
  · exact halive ▸ heap.alive_settle_subset
  · rw [CountedHeap.registry_settle, hregistry]

theorem tracked_perform (ht : t.Tracked) (action : HeapAction) : (t.perform action).Tracked := by
  cases action with
  | allocate kind handle =>
      exact ht.of_handOut (ht.settled.handTo kind handle) (CountedHeap.store_settle _)
        (CountedHeap.alive_settle_subset _) (CountedHeap.registry_settle _)
  | discard =>
      exact ht.of_handOut (ht.settled.handOut .plain) rfl (List.subset_cons_self _ _) rfl
  | hold handle id =>
      rw [perform, CountedHeap.hold]
      split
      · rename_i hlive
        refine ht.of_settle (Nat.le_refl _) rfl rfl ?_ fun _ _ hp => .inr hp
        intro other held hheld
        rcases List.mem_cons.mp hheld with heq | hold
        · cases heq
          exact .inl (by simpa [CountedHeap.isAlive] using hlive)
        · exact .inr (List.mem_filter.mp hold).1
      · exact ht
  | drop handle =>
      refine ht.of_settle (Nat.le_refl _) rfl rfl ?_ fun _ _ hp => .inr hp
      exact fun _ _ hheld => .inr (List.mem_filter.mp hheld).1
  | link handle name value =>
      rw [perform, CountedHeap.link, CountedHeap.set]
      split
      · rename_i hlive
        split
        · refine ht.of_settle (Nat.le_of_eq (Store.size_objects_set ..).symm) rfl rfl
            (fun _ _ hheld => .inr hheld) ?_
          intro owner p hp
          rcases Store.mem_properties_of_set hp with hold | rfl
          · exact .inr hold
          · exact .inl (by simpa [CountedHeap.isAlive] using hlive)
        · exact ht
      · exact ht
  | strip handle =>
      rw [perform, CountedHeap.strip]
      split
      · rename_i id _
        refine ht.of_settle (Nat.le_of_eq (Store.size_objects_foldl_clear [id] _).symm) rfl rfl
          (fun _ _ hheld => .inr hheld) ?_
        intro owner p hp
        have hbefore : p ∈ (([id].foldl Store.clear t.heap.store).object owner).properties := hp
        exact .inr (Store.mem_properties_of_foldl_clear hbefore)
      · exact ht
  | clear =>
      refine tracked_of_registry_eq_empty ?_ ?_ (CountedHeap.registry_settle _)
      · exact ht.settled.settle_of_refers rfl (fun _ _ hheld => .inr hheld)
          fun _ _ hp => .inr (Store.mem_properties_of_foldl_clear hp)
      · intro id hid
        have hbefore : id ∈ t.heap.alive := t.heap.alive_clear_subset hid
        have hsize : t.heap.clear.2.store.objects.size = t.heap.store.objects.size :=
          (congrArg (fun s : Store => s.objects.size) (CountedHeap.store_settle _)).trans
            (Store.size_objects_foldl_clear _ _)
        exact hsize ▸ ht.made id (ht.origin id hbefore)

theorem tracked_performAll (ht : t.Tracked) (actions : List HeapAction) :
    (t.performAll actions).Tracked := by
  induction actions generalizing t with
  | nil => exact ht
  | cons action rest ih => exact ih (tracked_perform ht action)

/-- The registry finds precisely the living objects handed out since the last clear. -/
theorem Tracked.perm_live (ht : t.Tracked) :
    (t.heap.registry.survivors t.heap.isAlive).Perm t.live := by
  refine (List.perm_ext_iff_of_nodup (Registry.nodup_survivors ht.recorded _)
    (ht.distinct.filter _)).mpr ?_
  intro id
  rw [Registry.mem_survivors, List.mem_filter]
  refine and_congr_left fun hlive => ⟨ht.known id, fun hid => ht.covered id hid ?_⟩
  simpa [CountedHeap.isAlive] using hlive

/-- An allocation hands out a new object under its handle. -/
theorem Tracked.handed (ht : t.Tracked) (kind : ObjectClass) (handle : Nat) :
    let after := t.perform (.allocate kind handle)
    ∃ id, ¬ (id ∈ t.recent ∨ id ∈ t.earlier) ∧ after.recent = id :: t.recent ∧
      after.heap.held? handle = some id := by
  refine ⟨_, ht.not_mem_handOut kind, rfl, ?_⟩
  simp only [perform, handedOut, CountedHeap.handTo, CountedHeap.held?, CountedHeap.settle]
  rw [CountedHeap.release_eq]
  exact List.lookup_cons_self

/-- What a history shows of its heap. The living objects are the most that handles and properties of
living objects refer to; an allocation hands out a new object under its handle, and every living
object was handed out since the last clear or left alive by it. Of those handed out since, each
living one has one entry, they are counted right, and a clear empties each of them once and no other
object. A sweep keeps the entries of the living, and the registry never holds more entries than the
least bound for a sweep or twice the number that the last sweep kept. -/
structure RecordedOnce (t : HeapHistory) : Prop where
  settled : t.heap.Settled
  held : ∀ handle id, t.heap.held? handle = some id → id ∈ t.heap.alive
  handed : ∀ kind handle, ∃ id, ¬ (id ∈ t.recent ∨ id ∈ t.earlier) ∧
    (t.perform (.allocate kind handle)).recent = id :: t.recent ∧
    (t.perform (.allocate kind handle)).heap.held? handle = some id
  origin : ∀ id ∈ t.heap.alive, id ∈ t.recent ∨ id ∈ t.earlier
  apart : ∀ id ∈ t.recent, id ∉ t.earlier
  recorded : ∀ id ∈ t.live, t.heap.registry.entries.count id = 1
  counted : t.heap.liveCount = t.live.length
  cleared : t.heap.clear.1 = t.live.length
  emptied : ∃ emptied : List ObjectId, emptied.Nodup ∧ emptied.Perm t.live ∧
    t.heap.clear.2.store = emptied.foldl Store.clear t.heap.store
  properties : ∀ id, (t.heap.clear.2.store.object id).properties =
    if id ∈ t.live then [] else (t.heap.store.object id).properties
  sweeps : ∀ kind kept, (t.heap.handOut kind).swept = some kept → kept = t.heap.liveCount
  bounded : t.heap.registry.entries.size ≤ max minSweepSize (2 * t.swept)

/-- Whatever is done to a heap, its registry has each living object handed out since the last clear
once. -/
theorem recorded_once_performAll (actions : List HeapAction) :
    (start.performAll actions).RecordedOnce := by
  have ht : (start.performAll actions).Tracked := tracked_performAll tracked_start actions
  generalize start.performAll actions = t at ht
  constructor
  case settled => exact ht.settled
  case held => exact fun handle id hheld => ht.settled.alive_of_held? hheld
  case handed => exact ht.handed
  case origin => exact ht.origin
  case apart => exact ht.apart
  case recorded =>
    intro id hid
    obtain ⟨hrecent, hlive⟩ := List.mem_filter.mp hid
    rw [← Array.count_toList]
    have hmem : id ∈ t.heap.registry.entries :=
      ht.covered id hrecent (by simpa [CountedHeap.isAlive] using hlive)
    exact List.count_eq_one_of_mem ht.recorded (Array.mem_toList_iff.mpr hmem)
  case counted => exact ht.perm_live.length_eq
  case cleared => exact ht.perm_live.length_eq
  case emptied =>
    exact ⟨_, Registry.nodup_survivors ht.recorded _, ht.perm_live, CountedHeap.store_settle _⟩
  case properties =>
    intro id
    rw [CountedHeap.properties_clear]
    simp only [ht.perm_live.mem_iff]
  case sweeps => exact fun _ kept hkept => Registry.length_survivors_of_makeRoom hkept
  case bounded => exact ht.sweepAt ▸ ht.size

/-- An object that holds itself and is under no handle, one under a handle, and as many that nobody
holds as it takes for a sweep: the sweep keeps the first two, and a clear empties both. -/
theorem recorded_once_performAll_ring :
    let t := start.performAll ([.allocate .plain 0, .link 0 "self" (.object ⟨0⟩), .drop 0,
      .allocate .scope 1] ++ List.replicate 63 .discard)
    t.RecordedOnce ∧ t.heap.handles = [(1, ⟨1⟩)] ∧ t.live = [⟨1⟩, ⟨0⟩] ∧ t.swept = 2 ∧
      ⟨2⟩ ∈ t.recent ∧ t.heap.registry.entries = #[⟨0⟩, ⟨1⟩, ⟨64⟩] ∧ t.heap.clear.1 = 2 ∧
      t.heap.clear.2.alive = [⟨1⟩] :=
  ⟨recorded_once_performAll _, by decide +kernel⟩

end HeapHistory

end ScriptHost
