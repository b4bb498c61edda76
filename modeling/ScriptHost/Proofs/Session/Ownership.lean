import ScriptHost.Proofs.Machine.Ledger
import ScriptHost.Proofs.Session.Scripted
import ScriptHost.Proofs.Session.Trap

/-!
What is left of the objects of a session when it is destroyed. Whatever was run and however it
ended, and whenever objects were released meanwhile, destroying a session empties all of its objects
and so breaks every ring of them; those that live on are empty and held by the host, as values or as
scopes of functions.
-/

namespace ScriptHost

namespace Session

variable {o o' : Ledger} {s t : Session} {known : List Value} {fuel : Nat}

/-- The objects that a session keeps alive between operations. -/
def referents (s : Session) : List ObjectId :=
  s.machine.referents ++ s.pending.toList.flatMap fun u => u.closure.environment.scopes

/-- Sessions that make all of their objects themselves, with ledgers of these. Every operation is
made of loads, reports, runs of the pending unit and settings of global names; between them as well
as along a run the host takes and gives up values, and objects are released. -/
inductive Owned : Ledger → Session → Prop
  | create (config : Config) (output diagnostics : Output) (hosts : HostTable)
      (natives : List String) :
      Owned (Ledger.empty.after .empty
          (create .empty config output diagnostics hosts natives).machine.store)
        (create .empty config output diagnostics hosts natives)
  | moved {o o' : Ledger} {s : Session} (h : Owned o s)
      (hmove : o.Moves s.machine.store s.referents o') : Owned o' s
  | load {o : Ledger} {s : Session} (h : Owned o s) (name source : String) :
      Owned o (s.loadNamed name source).2
  | report {o : Ledger} {s : Session} (h : Owned o s) (message : String) :
      Owned o (s.report message)
  | run {o o' : Ledger} {s t : Session} {u : ScriptUnit} {m : Machine} {fuel : Nat}
      {value : Option Value} (h : Owned o s) (hpending : s.pending = some u)
      (hcourse : Ledger.Course s.hosts o (Situation.ofUnit s.machine u) o' m)
      (hrun : s.runPending fuel = .ok (value, t)) : Owned o' t
  | setGlobal {o : Ledger} {s : Session} (h : Owned o s) (name : String) {v : Value}
      (hv : ∀ id ∈ v.referents, id ∈ o.alive) : Owned o (s.setGlobal name v)

/-- What a session without a trap armed keeps of its objects. -/
structure Keeps (o : Ledger) (s : Session) : Prop where
  sound : o.Sound
  covers : s.machine.Covers
  unarmed : s.machine.trap.armed = false

theorem records_loadNamed (s : Session) (name source : String) :
    s.machine.Records (s.loadNamed name source).2.machine := by
  unfold loadNamed
  dsimp only
  split
  · exact .of_eq rfl rfl
  · rw [machine_report]
    exact .of_eq rfl rfl

theorem covers_create (config : Config) (output diagnostics : Output) (hosts : HostTable)
    (natives : List String) :
    (create .empty config output diagnostics hosts natives).machine.Covers := by
  have hinstall : ∀ (m : Machine) (code : NativeCode), m.Records (m.install code) :=
    fun m code => .of_eq rfl (Store.size_objects_set ..)
  have hfold : ∀ (names : List String) (m : Machine),
      m.Records (names.foldl (fun m name => m.install (.host name)) m) := by
    intro names
    induction names with
    | nil => exact .refl
    | cons name rest ih => exact fun m => (hinstall m _).trans (ih _)
  refine (hfold natives _).covers ?_
  unfold Machine.create
  refine ((hinstall _ .print).trans (hinstall _ .eval)).covers ?_
  intro id hid
  have hglobal : id = (Store.empty.allocate .global).1 := by
    cases id
    simpa [Store.allocate, Store.empty] using hid
  exact hglobal ▸ Registry.mem_record_self ..

theorem Owned.keeps (h : Owned o s) : s.Keeps o := by
  induction h with
  | create config output diagnostics hosts natives =>
      refine ⟨Ledger.Sound.after ⟨by simp [Ledger.empty], by simp [Ledger.empty]⟩ _ _,
        covers_create config output diagnostics hosts natives, ?_⟩
      exact congrArg Trap.armed (atRest_create ..).trap
  | moved _ hmove ih => exact ⟨ih.sound.moves hmove, ih.covers, ih.unarmed⟩
  | load _ name source ih =>
      refine ⟨ih.sound, (records_loadNamed _ name source).covers ih.covers, ?_⟩
      rw [trap_loadNamed]
      exact ih.unarmed
  | report _ message ih =>
      refine ⟨ih.sound, ?_, ?_⟩
      · rw [machine_report]
        exact ih.covers
      · rw [machine_report]
        exact ih.unarmed
  | @run o o' s t u m fuel value _ hpending hcourse hrun ih =>
      have hexecutes := executes_runPending ih.unarmed
      simp only [executionOfPending, hpending, Option.map_some] at hexecutes
      have hends : Bracketed ((Situation.ofUnit s.machine u).run s.hosts fuel)
          (s.runPending fuel) := hexecutes.2.2 fuel
      rw [hrun] at hends
      generalize hresult : (Situation.ofUnit s.machine u).run s.hosts fuel = result at hends
      cases hends with
      | @returned left ending _ _ harmed hreturned hmachine =>
          obtain rfl := Ledger.eq_of_course hcourse hresult
          have hbegin : (Situation.ofUnit s.machine u).machine.Covers := ih.covers
          have hcovers := Ledger.covers_of_course hbegin hcourse
          refine ⟨ih.sound.course hcourse, ?_, ?_⟩
          · rw [hmachine]
            exact hcovers
          · rw [hmachine]
            rfl
  | @setGlobal o s _ name v _ ih =>
      have hset : s.machine.Records (s.setGlobal name v).machine :=
        .of_eq rfl (Store.size_objects_set ..)
      exact ⟨ih.sound, hset.covers ih.covers, ih.unarmed⟩

/-- The session has a ledger on which nothing was released and the host holds certain values. -/
def Followed (known : List Value) (s : Session) : Prop :=
  ∃ o, Owned o s ∧ o.held = known ∧
    ∀ id : ObjectId, id.index < s.machine.store.objects.size → id ∈ o.alive

namespace Followed

theorem create (config : Config) (output diagnostics : Output) (hosts : HostTable)
    (natives : List String) : Followed [] (create .empty config output diagnostics hosts natives) :=
  ⟨_, .create config output diagnostics hosts natives, Ledger.held_after .., fun _ hid =>
    Ledger.mem_alive_after.mpr (.inr ⟨Nat.zero_le _, hid⟩)⟩

theorem loadNamed (h : s.Followed known) (name source : String) :
    (s.loadNamed name source).2.Followed known := by
  obtain ⟨o, howned, hheld, hall⟩ := h
  refine ⟨o, howned.load name source, hheld, fun id hid => hall id ?_⟩
  have hstore : (s.loadNamed name source).2.machine.store = s.machine.store := by
    unfold Session.loadNamed
    dsimp only
    split
    · rfl
    · rw [machine_report]
      rfl
  rwa [hstore] at hid

theorem report (h : s.Followed known) (message : String) : (s.report message).Followed known := by
  obtain ⟨o, howned, hheld, hall⟩ := h
  refine ⟨o, howned.report message, hheld, fun id hid => hall id ?_⟩
  rwa [machine_report] at hid

/-- The host can hold a value whose objects there are. -/
theorem hold (h : s.Followed known) {v : Value}
    (hv : ∀ id ∈ v.referents, id.index < s.machine.store.objects.size) :
    s.Followed (v :: known) := by
  obtain ⟨o, howned, rfl, hall⟩ := h
  exact ⟨_, howned.moved (.hold fun id hid => hall id (hv id hid)), rfl, hall⟩

theorem letGo {more : List Value} (h : s.Followed (more ++ known)) : s.Followed known := by
  obtain ⟨o, howned, hheld, hall⟩ := h
  refine ⟨_, howned.moved (.letGo ?_), rfl, hall⟩
  rw [hheld]
  exact List.sublist_append_right more known

end Followed

theorem lt_of_mem_referents {v : Value} (hs : s.InOrder known) (hv : v ∈ known) {id : ObjectId}
    (hid : id ∈ v.referents) : id.index < s.machine.store.objects.size := by
  obtain ⟨-, ⟨parents, hobeys, hknown⟩, -⟩ := hs
  have hvalue := hknown v hv
  cases v with
  | object other =>
      rw [List.mem_singleton.mp hid]
      exact hvalue.1
  | function identity closure =>
      exact Environment.Framed.lt_of_mem hvalue.1 hobeys.global.1 hid
  | undefined | null | bool | number | string | native => cases hid

theorem Followed.runPending {value : Option Value} (hs : s.InOrder known)
    (h : s.Followed known) (hrun : s.runPending fuel = .ok (value, t)) :
    t.Followed (value.toList ++ known) := by
  have ht := hs.runPending hrun
  have hunarmed : s.machine.trap.armed = false := congrArg Trap.armed hs.atRest.trap
  suffices hfollowed : t.Followed known by
    cases value with
    | none => exact hfollowed
    | some v => exact hfollowed.hold fun id hid => lt_of_mem_referents ht List.mem_cons_self hid
  cases hpending : s.pending with
  | none =>
      rw [Session.runPending, hpending] at hrun
      obtain ⟨-, rfl⟩ := Prod.mk.inj (Except.ok.inj hrun)
      exact h.report _
  | some u =>
      obtain ⟨o, howned, hheld, hall⟩ := h
      obtain ⟨parents, hobeys, -⟩ := hs.tidy
      have hexecutes := executes_runPending hunarmed
      simp only [executionOfPending, hpending, Option.map_some] at hexecutes
      have hends : Bracketed ((Situation.ofUnit s.machine u).run s.hosts fuel)
          (s.runPending fuel) := hexecutes.2.2 fuel
      rw [hrun] at hends
      generalize hresult : (Situation.ofUnit s.machine u).run s.hosts fuel = result at hends
      cases hends with
      | returned _ _ hmachine =>
          obtain ⟨o', hcourse, hkept, hlast⟩ := Ledger.exists_course (o := o)
            (Situation.hostFree_ofUnit hobeys.hostFree u) hresult hall
          refine ⟨o', howned.run hpending hcourse hrun, hkept.trans hheld, fun id hid => ?_⟩
          rw [hmachine] at hid
          exact hlast id hid

theorem Followed.getGlobal (hs : s.InOrder known) (h : s.Followed known) (name : String) :
    s.Followed ((s.getGlobal name).toList ++ known) := by
  cases hvalue : s.getGlobal name with
  | none => exact h
  | some v =>
      refine h.hold fun id hid => lt_of_mem_referents (hs.getGlobal name) ?_ hid
      rw [hvalue]
      exact List.mem_cons_self

theorem Followed.setGlobal (hs : s.InOrder known) (h : s.Followed known) {v : Value}
    (hv : v.IsData ∨ v ∈ known) (name : String) : (s.setGlobal name v).Followed known := by
  obtain ⟨o, howned, hheld, hall⟩ := h
  have hsize : (s.setGlobal name v).machine.store.objects.size =
      s.machine.store.objects.size := Store.size_objects_set ..
  refine ⟨o, howned.setGlobal name fun id hid => ?_, hheld, fun id hid => hall id (hsize ▸ hid)⟩
  rcases hv with hdata | hgiven
  · cases v <;> first | exact hdata.elim | cases hid
  · exact hall id (lt_of_mem_referents hs hgiven hid)

/-- Every operation has a ledger on which the host holds what was answered. -/
theorem carried_followed (fuel : Nat) :
    Carried fuel (fun known s => s.InOrder known ∧ s.Followed known)
      fun _ _ known s => s.Followed known where
  loadNamed h name source := ⟨h.1.loadNamed name source, h.2.loadNamed name source⟩
  report h message := ⟨h.1.report message, h.2.report message⟩
  runPending h hrun := h.2.runPending h.1 hrun
  still h := h.2
  forget h := h.letGo
  getGlobal h name := ⟨h.1.getGlobal name, h.2.getGlobal h.1 name⟩
  setGlobal h hv name := ⟨h.1.setGlobal name hv, h.2.setGlobal h.1 hv name⟩

/-- Every session that only scripts have a hand in has a ledger. -/
theorem Scripted.followed (h : s.Scripted known) : s.Followed known := by
  induction h with
  | create config output diagnostics hosts => exact .create config output diagnostics hosts []
  | perform hs hset hperform ih =>
      exact (carried_followed _).perform ⟨hs.inOrder, ih⟩ hset hperform

/-- Destroying a session empties all of its objects. Of those that are still alive then, what is
left once nothing but the host refers to them is empty, and is just what the host holds: the objects
among its values and the scopes of the functions among them. -/
theorem Owned.released (h : Owned o s) :
    let left := (o.counted s.machine.store []).clear.2
    (∀ id, (s.destroy.object id).properties = []) ∧
    (∀ id ∈ left.alive, (left.store.object id).properties = []) ∧
    ∀ id, id ∈ left.alive ↔ ∃ v ∈ o.held, v.refersTo id := by
  obtain ⟨hsound, hcovers, -⟩ := h.keeps
  refine ⟨fun id => ?_, hsound.clear s.machine.store⟩
  have hdestroy : s.destroy =
      (s.machine.registry.survivors fun _ => true).foldl Store.clear s.machine.store := rfl
  rw [hdestroy, Store.properties_foldl_clear]
  by_cases hlt : id.index < s.machine.store.objects.size
  · rw [if_pos (Registry.mem_survivors.mpr ⟨hcovers id hlt, rfl⟩)]
  · have hnone : s.machine.store.object id = Object.ofClass .plain := by
      simp [Store.object, hlt]
    rw [hnone]
    exact ite_self []

/-- The host holds a function whose chain has the scope of a call that is over. The object that was
made in the call, which refers to itself and to a function of that scope, is released. -/
theorem Owned.released_after_call :
    ∃ (o : Ledger) (s : Session) (v : Value), Owned o s ∧ o.held = [v] ∧
      s.getGlobal "read" = some v ∧ s.machine.store.objects.size = 3 ∧
      (s.machine.store.get? ⟨2⟩ "self").map Value.referents = some [⟨2⟩] ∧
      (s.machine.store.get? ⟨2⟩ "read").map Value.referents = some [⟨1⟩, ⟨0⟩] ∧
      (∀ id, (s.destroy.object id).properties = []) ∧
      ∀ id, id ∈ (o.counted s.machine.store []).clear.2.alive ↔ id = ⟨1⟩ ∨ id = ⟨0⟩ := by
  let source := "function make() \x7b var node = \x7b\x7d; node.self = node;" ++
    " node.read = function() \x7b return node; \x7d; return node.read; \x7d var read = make();"
  have hran : ((blank.runString 80 source).toOption.any fun left =>
      left.2.machine.store.objects.size == 3 &&
      (left.2.getGlobal "read").map Value.referents == some [⟨1⟩, ⟨0⟩] &&
      (left.2.machine.store.get? ⟨2⟩ "self").map Value.referents == some [⟨2⟩] &&
      (left.2.machine.store.get? ⟨2⟩ "read").map Value.referents == some [⟨1⟩, ⟨0⟩]) = true := by
    decide +kernel
  have hblank : blank.Scripted [] := .create .default (.buffer .empty) (.buffer .empty) .inert
  cases hrun : blank.runString 80 source with
  | error halt =>
      rw [hrun] at hran
      cases hran
  | ok left =>
      obtain ⟨status, s⟩ := left
      rw [hrun] at hran
      simp only [Except.toOption, Option.any_some, Bool.and_eq_true, beq_iff_eq] at hran
      obtain ⟨⟨⟨hsize, hread⟩, hself⟩, hstored⟩ := hran
      obtain ⟨v, hv, hreferents⟩ := Option.map_eq_some_iff.mp hread
      have hperform : blank.perform 80 (.run source) = .ok (.status status, s) := by
        rw [perform, hrun]
        rfl
      have hscripted : s.Scripted [] := .perform hblank (by simp) hperform
      have hheld : s.Scripted [v] := by
        have hget : s.perform 0 (.getGlobal "read") = .ok (.value (s.getGlobal "read"), s) := rfl
        rw [hv] at hget
        exact .perform hscripted (by simp) hget
      obtain ⟨o, howned, hknown, -⟩ := hheld.followed
      obtain ⟨hempty, -, halive⟩ := howned.released
      refine ⟨o, s, v, howned, hknown, hv, hsize, hself, hstored, hempty, fun id => ?_⟩
      rw [halive, hknown]
      simp [Value.refersTo_iff, hreferents]

end Session

end ScriptHost
