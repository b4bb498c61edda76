import ScriptHost.Proofs.Heap.Settled
import ScriptHost.Proofs.Machine.Recorded

/-!
Reference counting beside a machine. A machine never gives an object up; a ledger says which of its
objects are alive when each is released at some time after nothing refers to it any more, whenever
that is, and what the host holds meanwhile. The registry of a ledger sweeps out the entries of
objects that are gone, and still knows every living one.
-/

namespace ScriptHost

variable {p q last : Phrase}

/-- The objects that a completion keeps alive. -/
def Completion.referents : Completion → List ObjectId
  | .normal latest => latest.toList.flatMap Value.referents
  | .return v => v.referents

/-- The objects that the next request of a host's native function keeps alive. What else the
function has at hand, the host holds. -/
def HostScript.referents : HostScript → List ObjectId
  | .finish v => v.referents
  | .invoke receiver callee arguments _ => (receiver :: callee :: arguments).flatMap Value.referents
  | .create bindings _ => bindings.flatMap fun p => p.2.referents
  | .properties id _ => [id]
  | _ => []

/-- The objects that a focus keeps alive. -/
def Focus.referents : Focus p → List ObjectId
  | .evaluate _ | .execute _ | .fault _ => []
  | .executeAll _ latest => latest.toList.flatMap Value.referents
  | .invoke receiver callee arguments => (receiver :: callee :: arguments).flatMap Value.referents
  | .enter receiver closure arguments =>
    closure.environment.scopes ++ (receiver :: arguments).flatMap Value.referents
  | .perform script => script.referents
  | .value v => v.referents
  | .completion c => c.referents

/-- The objects that a frame keeps alive. -/
def Frame.referents : Frame p q → List ObjectId
  | .binaryApply _ v | .assignMember _ _ v => v.referents
  | .callArgument _ receiver function done _ =>
    (receiver :: function :: done).flatMap Value.referents
  | .objectEntry id _ _ => [id]
  | .returnTo environment receiver _ => environment.scopes ++ receiver.referents
  | .loopTest _ _ latest | .loopBody _ _ latest | .sequence _ latest =>
    latest.toList.flatMap Value.referents
  | _ => []

/-- The objects that the frames of a stack keep alive. -/
def Stack.referents : {p q : Phrase} → Stack p q → List ObjectId
  | _, _, .nil => []
  | _, _, .cons frame rest => frame.referents ++ rest.referents

/-- The objects that a machine keeps alive by itself. -/
def Machine.referents (m : Machine) : List ObjectId :=
  m.global :: m.environment.scopes ++ m.receiver.referents

/-- The objects that are kept alive by what is at hand. -/
def Situation.referents (s : Situation last) : List ObjectId :=
  s.focus.referents ++ s.stack.referents ++ s.machine.referents

/-- The living objects, the registry of those that were made, and the values that the host holds. -/
structure Ledger where
  alive : List ObjectId
  registry : Registry
  held : List Value

namespace Ledger

/-- A ledger of no objects. -/
def empty : Ledger := ⟨[], .empty, []⟩

/-- Whether an object is alive. -/
def isAlive (o : Ledger) (id : ObjectId) : Bool := o.alive.contains id

/-- Enters a new object. -/
def record (o : Ledger) (id : ObjectId) : Ledger :=
  { o with alive := id :: o.alive, registry := o.registry.record o.isAlive id }

/-- Enters the objects that the second store has beyond the first. -/
def after (o : Ledger) (s t : Store) : Ledger :=
  (List.range' s.objects.size (t.objects.size - s.objects.size)).foldl (fun o i => o.record ⟨i⟩) o

/-- The objects of a store as the ledger has them, held by what is at hand and by the host. -/
def counted (o : Ledger) (s : Store) (atHand : List ObjectId) : CountedHeap where
  store := s
  handles := (atHand ++ o.held.flatMap Value.referents).map fun id => (0, id)
  alive := o.alive
  registry := o.registry

/-- What may happen beside the steps of a machine: the host takes hold of a value that is alive, it
lets go of values, and an object that nothing refers to is released. -/
inductive Moves (s : Store) (atHand : List ObjectId) (o : Ledger) : Ledger → Prop
  | hold {v : Value} (hv : ∀ id ∈ v.referents, id ∈ o.alive) :
      Moves s atHand o { o with held := v :: o.held }
  | letGo {held : List Value} (hheld : held.Sublist o.held) : Moves s atHand o { o with held }
  | release {id : ObjectId} (hid : (o.counted s atHand).isReferenced id = false) :
      Moves s atHand o { o with alive := o.alive.filter (· != id) }

/-- What becomes of a ledger along a run, up to the machine that the run halts with. -/
inductive Course (hosts : HostTable) : Ledger → Situation last → Ledger → Machine → Prop
  | moved {o between o' : Ledger} {s : Situation last} {m : Machine}
      (hmove : o.Moves s.machine.store s.referents between) (h : Course hosts between s o' m) :
      Course hosts o s o' m
  | step {o o' : Ledger} {s t : Situation last} {m : Machine} (hmakes : s.makesForHost = false)
      (hstep : s.step hosts = .next t)
      (h : Course hosts (o.after s.machine.store t.machine.store) t o' m) : Course hosts o s o' m
  | halt {o : Ledger} {s : Situation last} {m : Machine} {ending : Ending last}
      (hmakes : s.makesForHost = false) (hstep : s.step hosts = .halt m ending) :
      Course hosts o s (o.after s.machine.store m.store) m

/-- The registry knows every living object, and what the host holds is alive. -/
structure Sound (o : Ledger) : Prop where
  covered : ∀ id ∈ o.alive, id ∈ o.registry.entries
  held : ∀ v ∈ o.held, ∀ id ∈ v.referents, id ∈ o.alive

variable {o o' : Ledger} {s t : Store} {hosts : HostTable}

theorem isReferenced_counted_of_held {atHand : List ObjectId} {v : Value} (hv : v ∈ o.held)
    {id : ObjectId} (hid : id ∈ v.referents) : (o.counted s atHand).isReferenced id = true := by
  refine CountedHeap.isReferenced_iff.mpr (.inl ⟨0, ?_⟩)
  exact List.mem_map_of_mem (List.mem_append_right _ (List.mem_flatMap.mpr ⟨v, hv, hid⟩))

theorem Sound.record (h : o.Sound) (id : ObjectId) : (o.record id).Sound where
  covered := by
    intro other hother
    cases List.mem_cons.mp hother with
    | inl heq => exact heq ▸ Registry.mem_record_self ..
    | inr hold =>
        exact Registry.mem_record_of_live (h.covered other hold) (by simpa [isAlive] using hold)
  held := fun v hv other hother => List.mem_cons_of_mem _ (h.held v hv other hother)

theorem Sound.after (h : o.Sound) (s t : Store) : (o.after s t).Sound := by
  unfold Ledger.after
  generalize List.range' _ _ = indices
  induction indices generalizing o with
  | nil => exact h
  | cons i rest ih => exact ih (h.record ⟨i⟩)

theorem Sound.moves {atHand : List ObjectId} (h : o.Sound) (hmove : o.Moves s atHand o') :
    o'.Sound := by
  cases hmove with
  | hold hv => exact ⟨h.covered, List.forall_mem_cons.mpr ⟨hv, h.held⟩⟩
  | letGo hheld => exact ⟨h.covered, fun v hv => h.held v (hheld.subset hv)⟩
  | @release id hid =>
      refine ⟨fun other hother => h.covered other (List.mem_filter.mp hother).1, ?_⟩
      intro v hv other hother
      refine List.mem_filter.mpr ⟨h.held v hv other hother, bne_iff_ne.mpr ?_⟩
      rintro rfl
      exact Bool.false_ne_true (hid.symm.trans (isReferenced_counted_of_held (o := o) hv hother))

theorem Sound.course {here : Situation last} {m : Machine} (h : o.Sound)
    (hcourse : Course hosts o here o' m) : o'.Sound := by
  induction hcourse with
  | moved hmove _ ih => exact ih (h.moves hmove)
  | step _ _ _ ih => exact ih (h.after _ _)
  | halt => exact h.after _ _

theorem covers_of_course {here : Situation last} {m : Machine} (h : here.machine.Covers)
    (hcourse : Course hosts o here o' m) : m.Covers := by
  induction hcourse with
  | moved _ _ ih => exact ih h
  | step hmakes hstep _ ih =>
      have hrecords := Situation.records_step hosts _ hmakes
      rw [hstep] at hrecords
      exact ih (hrecords.covers h)
  | halt hmakes hstep =>
      have hrecords := Situation.records_step hosts _ hmakes
      rw [hstep] at hrecords
      exact hrecords.covers h

/-- The machine at the end of a course is the one that the run comes to. -/
theorem eq_of_course {here : Situation last} {m n : Machine} {fuel : Nat} {ending : Ending last}
    (hcourse : Course hosts o here o' m) (hrun : here.run hosts fuel = some (n, ending)) :
    n = m := by
  induction hcourse with
  | moved _ _ ih => exact ih hrun
  | step _ hstep _ ih => exact ih (Situation.run_of_step hstep hrun)
  | halt _ hstep =>
      cases fuel with
      | zero => cases hrun
      | succ fuel =>
          rw [Situation.run, hstep] at hrun
          cases hrun
          rfl

theorem held_after (o : Ledger) (s t : Store) : (o.after s t).held = o.held := by
  unfold Ledger.after
  generalize List.range' _ _ = indices
  induction indices generalizing o with
  | nil => rfl
  | cons i rest ih => exact ih (o.record ⟨i⟩)

/-- The objects that a store has beyond another come to life. -/
theorem mem_alive_after {id : ObjectId} :
    id ∈ (o.after s t).alive ↔
      id ∈ o.alive ∨ s.objects.size ≤ id.index ∧ id.index < t.objects.size := by
  have hfold : ∀ (indices : List Nat) (o : Ledger),
      id ∈ (indices.foldl (fun o i => o.record ⟨i⟩) o).alive ↔
        id ∈ o.alive ∨ id.index ∈ indices := by
    intro indices
    induction indices with
    | nil => simp
    | cons i rest ih =>
        intro o
        have heq : id = ⟨i⟩ ↔ id.index = i := by
          cases id
          simp
        rw [List.foldl_cons, ih, record, List.mem_cons, List.mem_cons, heq, or_comm (a := _ = i),
          or_assoc]
  rw [Ledger.after, hfold, List.mem_range'_1]
  refine or_congr_right ⟨fun h => ⟨h.1, by omega⟩, fun h => ⟨h.1, by omega⟩⟩

/-- The run of scripts without natives of a host has a course on which nothing is released. -/
theorem exists_course {here : Situation last} {fuel : Nat} {n : Machine} {ending : Ending last}
    (hfree : here.HostFree) (hrun : here.run hosts fuel = some (n, ending))
    (hall : ∀ id : ObjectId, id.index < here.machine.store.objects.size → id ∈ o.alive) :
    ∃ o', Course hosts o here o' n ∧ o'.held = o.held ∧
      ∀ id : ObjectId, id.index < n.store.objects.size → id ∈ o'.alive := by
  have hmakes : ∀ {here : Situation last}, here.HostFree → here.makesForHost = false := by
    rintro ⟨phrase, focus, k, m⟩ hfree
    cases focus with
    | perform script => exact hfree.focus.elim
    | _ => rfl
  have hafter : ∀ {o : Ledger} {s t : Store},
      (∀ id : ObjectId, id.index < s.objects.size → id ∈ o.alive) →
      ∀ id : ObjectId, id.index < t.objects.size → id ∈ (o.after s t).alive := by
    intro o s t hall id hid
    refine mem_alive_after.mpr ?_
    by_cases hold : id.index < s.objects.size
    · exact .inl (hall id hold)
    · exact .inr ⟨Nat.not_lt.mp hold, hid⟩
  induction fuel generalizing here o with
  | zero => cases hrun
  | succ fuel ih =>
      have hnext := Situation.hostFree_step hosts hfree
      rw [Situation.run] at hrun
      cases hstep : here.step hosts with
      | next t =>
          rw [hstep] at hrun hnext
          obtain ⟨o', hcourse, hheld, hlast⟩ := ih hnext hrun (hafter hall)
          exact ⟨o', .step (hmakes hfree) hstep hcourse, hheld.trans (held_after ..), hlast⟩
      | halt m e =>
          rw [hstep] at hrun
          cases hrun
          exact ⟨_, .halt (hmakes hfree) hstep, held_after .., hafter hall⟩

/-- Where nothing is at hand any more but what the host holds, emptying all living objects releases
every object that the host does not hold, and those left are empty. -/
theorem Sound.clear (h : o.Sound) (s : Store) :
    let left := (o.counted s []).clear.2
    (∀ id ∈ left.alive, (left.store.object id).properties = []) ∧
    ∀ id, id ∈ left.alive ↔ ∃ v ∈ o.held, v.refersTo id := by
  have hknown : ∀ id ∈ (o.counted s []).alive, id ∈ (o.counted s []).registry.entries := h.covered
  have hhandles : ∀ id, (∃ handle, (handle, id) ∈ (o.counted s []).handles) ↔
      ∃ v ∈ o.held, v.refersTo id := by
    simp [counted, Value.refersTo_iff]
  refine ⟨fun id hid => ?_, fun id => ?_⟩
  · have hlive := ((CountedHeap.mem_alive_clear hknown).mp hid).1
    exact CountedHeap.properties_clear_of_alive hknown hlive
  · rw [CountedHeap.mem_alive_clear hknown, hhandles]
    refine and_iff_right_of_imp ?_
    rintro ⟨v, hv, hid⟩
    exact h.held v hv id (Value.refersTo_iff.mp hid)

end Ledger

end ScriptHost
