import ScriptHost.Heap.Counted
import ScriptHost.Proofs.Heap.Registry
import ScriptHost.Proofs.Store.Growth

/-!
Which objects are left once all that nothing refers to has been released. They are the most that
can keep one another alive: objects each of which a handle holds or a property of one of them
refers to. A ring of objects is such a set, whether or not anything outside it refers to it. What a
program does to a heap refers to living objects only, so that a heap in which the living objects are
the most that support one another stays such a heap.
-/

namespace ScriptHost

/-- The objects that a value keeps alive. -/
def Value.referents : Value → List ObjectId
  | .object id => [id]
  | .function _ closure => closure.environment.scopes
  | _ => []

theorem Value.refersTo_iff {v : Value} {id : ObjectId} :
    v.refersTo id = true ↔ id ∈ v.referents := by
  cases v with
  | object other =>
      rw [refersTo, referents, List.mem_singleton, beq_iff_eq]
      exact eq_comm
  | function identity closure => exact List.contains_iff_mem
  | undefined | null | bool | number | string | native => simp [refersTo, referents]

namespace CountedHeap

variable {h : CountedHeap} {kept : List ObjectId} {id : ObjectId}

/-- Whether each of some objects is held by a handle or referred to by a property of one of them. -/
def Supported (h : CountedHeap) (kept : List ObjectId) : Prop :=
  ∀ id ∈ kept, ({ h with alive := kept } : CountedHeap).isReferenced id

/-- Whether the living objects are the most that support one another: what is under a handle, and
what a property of one of them refers to. -/
def Settled (h : CountedHeap) : Prop :=
  ∀ id, id ∈ h.alive ↔ ∃ kept, h.Supported kept ∧ id ∈ kept

theorem isReferenced_iff :
    h.isReferenced id ↔ (∃ handle, (handle, id) ∈ h.handles) ∨
      ∃ owner ∈ h.alive, ∃ p ∈ (h.store.object owner).properties, p.2.refersTo id := by
  simp [isReferenced]

theorem isReferenced_of_subset {fewer more : List ObjectId} (hsub : fewer ⊆ more)
    (href : ({ h with alive := fewer } : CountedHeap).isReferenced id) :
    ({ h with alive := more } : CountedHeap).isReferenced id := by
  rw [isReferenced_iff] at href ⊢
  refine href.imp_right ?_
  rintro ⟨owner, howner, hp⟩
  exact ⟨owner, hsub howner, hp⟩

/-- Nothing but the living objects changes when objects are released. -/
theorem release_eq (bound : Nat) (h : CountedHeap) :
    h.release bound = { h with alive := (h.release bound).alive } := by
  induction bound generalizing h with
  | zero => rfl
  | succ bound ih =>
      simp only [release]
      split
      · rfl
      · exact ih _

theorem alive_release_subset (bound : Nat) (h : CountedHeap) :
    (h.release bound).alive ⊆ h.alive := by
  induction bound generalizing h with
  | zero => exact List.Subset.refl _
  | succ bound ih =>
      simp only [release]
      split
      · exact List.Subset.refl _
      · exact List.Subset.trans (ih _) List.filter_sublist.subset

/-- What supports itself is never released. -/
theorem subset_alive_release (bound : Nat) (hkept : h.Supported kept) (hsub : kept ⊆ h.alive) :
    kept ⊆ (h.release bound).alive := by
  induction bound generalizing h with
  | zero => exact hsub
  | succ bound ih =>
      simp only [release]
      split
      · exact hsub
      · refine ih hkept ?_
        intro id hid
        exact List.mem_filter.mpr ⟨hsub hid, isReferenced_of_subset hsub (hkept id hid)⟩

/-- As many rounds as there are objects are enough, since each but the last releases one. -/
theorem supported_release {bound : Nat} (hbound : h.alive.length ≤ bound) :
    h.Supported (h.release bound).alive := by
  induction bound generalizing h with
  | zero =>
      have hnone : h.alive = [] := List.length_eq_zero_iff.mp (Nat.le_zero.mp hbound)
      intro id hid
      simp [release, hnone] at hid
  | succ bound ih =>
      simp only [release]
      split
      · rename_i hall
        intro id hid
        exact List.filter_eq_self.mp
          (List.filter_sublist.eq_of_length hall) id hid
      · rename_i hsome
        have hfewer : (h.alive.filter h.isReferenced).length < h.alive.length :=
          Nat.lt_of_le_of_ne (List.length_filter_le _ _) hsome
        exact ih (h := { h with alive := _ }) (by simp only; omega)

@[simp] theorem store_settle (h : CountedHeap) : h.settle.store = h.store := by
  rw [settle, release_eq]

@[simp] theorem registry_settle (h : CountedHeap) : h.settle.registry = h.registry := by
  rw [settle, release_eq]

theorem alive_settle_subset (h : CountedHeap) : h.settle.alive ⊆ h.alive :=
  alive_release_subset _ h

theorem supported_alive_settle (h : CountedHeap) : h.Supported h.settle.alive :=
  supported_release (Nat.le_refl _)

theorem supported_settle (h : CountedHeap) : h.settle.Supported h.settle.alive := by
  rw [settle, release_eq]
  exact supported_alive_settle h

/-- An object survives if and only if it is among living objects that support themselves. -/
theorem mem_alive_settle :
    id ∈ h.settle.alive ↔ ∃ kept, kept ⊆ h.alive ∧ h.Supported kept ∧ id ∈ kept := by
  constructor
  · intro hid
    exact ⟨h.settle.alive, alive_settle_subset h, supported_alive_settle h, hid⟩
  · rintro ⟨kept, hsub, hkept, hid⟩
    exact subset_alive_release _ hkept hsub hid

theorem Settled.supported (hs : h.Settled) : h.Supported h.alive := by
  intro id hid
  obtain ⟨kept, hkept, hmem⟩ := (hs id).mp hid
  exact isReferenced_of_subset (fun other hother => (hs other).mpr ⟨kept, hkept, hother⟩)
    (hkept id hmem)

/-- Objects that support one another, or are alive, are all alive. -/
theorem Settled.subset_alive (hs : h.Settled)
    (hkept : ∀ id ∈ kept, id ∈ h.alive ∨ ({ h with alive := kept } : CountedHeap).isReferenced id) :
    kept ⊆ h.alive := by
  have hall : h.Supported (kept ++ h.alive) := by
    intro id hid
    have hcases : id ∈ h.alive ∨ ({ h with alive := kept } : CountedHeap).isReferenced id :=
      (List.mem_append.mp hid).elim (hkept id) .inl
    rcases hcases with halive | href
    · exact isReferenced_of_subset (List.subset_append_right _ _) (hs.supported id halive)
    · exact isReferenced_of_subset (List.subset_append_left _ _) href
  exact fun id hid => (hs id).mpr ⟨_, hall, List.mem_append_left _ hid⟩

theorem Settled.alive_of_held? (hs : h.Settled) {handle : Nat} (hheld : h.held? handle = some id) :
    id ∈ h.alive := by
  obtain ⟨front, rest, hhandles, -⟩ := List.lookup_eq_some_iff.mp hheld
  refine (hs id).mpr ⟨[id], ?_, List.mem_singleton_self id⟩
  intro other hother
  rw [List.mem_singleton.mp hother]
  exact isReferenced_iff.mpr (.inl ⟨handle, hhandles ▸ List.mem_append_cons_self⟩)

/-- Releasing settles a heap of which nothing dead supports itself. -/
theorem settled_settle (hmost : ∀ kept, h.Supported kept → kept ⊆ h.alive) : h.settle.Settled := by
  intro id
  constructor
  · exact fun hid => ⟨h.settle.alive, h.supported_settle, hid⟩
  · rintro ⟨kept, hkept, hid⟩
    have hbefore : h.Supported kept := by
      rw [settle, release_eq] at hkept
      exact hkept
    exact subset_alive_release _ hbefore (hmost kept hbefore) hid

/-- A heap stays settled when handles and properties are taken away from it or come to refer to
living objects. -/
theorem Settled.settle_of_refers {g : CountedHeap} (hs : h.Settled) (halive : g.alive = h.alive)
    (hhandles : ∀ handle id, (handle, id) ∈ g.handles → id ∈ h.alive ∨ (handle, id) ∈ h.handles)
    (hproperties : ∀ owner, ∀ p ∈ (g.store.object owner).properties,
      (∀ id ∈ p.2.referents, id ∈ h.alive) ∨ p ∈ (h.store.object owner).properties) :
    g.settle.Settled := by
  refine settled_settle fun kept hkept => halive ▸ hs.subset_alive fun id hid => ?_
  rcases isReferenced_iff.mp (hkept id hid) with ⟨handle, hhandle⟩ | ⟨owner, howner, p, hp, hrefers⟩
  · refine (hhandles handle id hhandle).imp_right fun hold => ?_
    exact isReferenced_iff.mpr (.inl ⟨handle, hold⟩)
  · rcases hproperties owner p hp with hliving | hold
    · exact .inl (hliving id (Value.refersTo_iff.mp hrefers))
    · exact .inr (isReferenced_iff.mpr (.inr ⟨owner, howner, p, hold, hrefers⟩))

/-- A new object has no properties, so it supports nothing by itself. -/
theorem Settled.handOut (hs : h.Settled) (kind : ObjectClass) : (h.handOut kind).heap.Settled := by
  have hsame : ∀ kept, (h.handOut kind).heap.Supported kept ↔ h.Supported kept := by
    intro kept
    simp only [Supported, isReferenced_iff, CountedHeap.handOut, Store.properties_allocate]
  intro id
  simp only [hsame]
  exact hs id

theorem Settled.handTo (hs : h.Settled) (kind : ObjectClass) (handle : Nat) :
    (h.handTo kind handle).heap.Settled := by
  refine settled_settle fun kept hkept => ?_
  set fresh := (h.handOut kind).id
  have hnone : ((h.handOut kind).heap.store.object fresh).properties = [] :=
    congrArg Object.properties (Store.object_allocate ..)
  have hothers : kept.filter (· ≠ fresh) ⊆ h.alive := by
    refine (hs.handOut kind).subset_alive fun id hid => .inr ?_
    obtain ⟨hkeptid, hne⟩ := List.mem_filter.mp hid
    rcases isReferenced_iff.mp (hkept id hkeptid) with
      ⟨other, hhandle⟩ | ⟨owner, howner, p, hp, hrefers⟩
    · rcases List.mem_cons.mp hhandle with heq | hold
      · exact absurd (congrArg Prod.snd heq) (of_decide_eq_true hne)
      · exact isReferenced_iff.mpr (.inl ⟨other, (List.mem_filter.mp hold).1⟩)
    · have howner' : owner ≠ fresh := by
        rintro rfl
        exact List.not_mem_nil (hnone ▸ hp)
      exact isReferenced_iff.mpr (.inr
        ⟨owner, List.mem_filter.mpr ⟨howner, decide_eq_true howner'⟩, p, hp, hrefers⟩)
  intro id hid
  by_cases heq : id = fresh
  · exact heq ▸ List.mem_cons_self
  · exact List.mem_cons_of_mem _ (hothers (List.mem_filter.mpr ⟨hid, decide_eq_true heq⟩))

theorem alive_clear_subset (h : CountedHeap) : h.clear.2.alive ⊆ h.alive :=
  alive_settle_subset { h with
    store := (h.registry.survivors h.isAlive).foldl Store.clear h.store, registry := .empty }

/-- A clear takes the properties of the living objects that the registry knows, and of no other. -/
theorem properties_clear (h : CountedHeap) (id : ObjectId) :
    (h.clear.2.store.object id).properties =
      if id ∈ h.registry.survivors h.isAlive then [] else (h.store.object id).properties := by
  have hstore : h.clear.2.store = (h.registry.survivors h.isAlive).foldl Store.clear h.store :=
    store_settle _
  rw [hstore, Store.properties_foldl_clear]

theorem properties_clear_of_alive (hknown : ∀ id ∈ h.alive, id ∈ h.registry.entries)
    (hid : id ∈ h.alive) : (h.clear.2.store.object id).properties = [] := by
  have hsurvivor : id ∈ h.registry.survivors h.isAlive :=
    Registry.mem_survivors.mpr ⟨hknown id hid, by simpa [isAlive] using hid⟩
  rw [properties_clear, if_pos hsurvivor]

/-- Where the registry knows every living object, a clear breaks every ring, and what is left is
what is under a handle. -/
theorem mem_alive_clear (hknown : ∀ id ∈ h.alive, id ∈ h.registry.entries) :
    id ∈ h.clear.2.alive ↔ id ∈ h.alive ∧ ∃ handle, (handle, id) ∈ h.handles := by
  let emptied : CountedHeap :=
    { h with
      store := (h.registry.survivors h.isAlive).foldl Store.clear h.store, registry := .empty }
  change id ∈ emptied.settle.alive ↔ _
  constructor
  · intro hid
    refine ⟨alive_settle_subset emptied hid, ?_⟩
    have hreferenced := isReferenced_iff.mp (supported_alive_settle emptied id hid)
    refine hreferenced.resolve_right ?_
    rintro ⟨owner, howner, p, hp, -⟩
    have hnone := properties_clear_of_alive hknown (alive_settle_subset emptied howner)
    rw [show h.clear.2.store = emptied.store from store_settle emptied] at hnone
    rw [hnone] at hp
    cases hp
  · rintro ⟨halive, handle, hhandle⟩
    refine mem_alive_settle.mpr ⟨[id], by simpa using halive, ?_, List.mem_singleton_self id⟩
    intro other hother
    rw [List.mem_singleton.mp hother]
    exact isReferenced_iff.mpr (.inl ⟨handle, hhandle⟩)

end CountedHeap

end ScriptHost
