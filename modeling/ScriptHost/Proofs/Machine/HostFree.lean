import ScriptHost.Proofs.Machine.Policy

/-!
Machines without native functions of a host: those that obey the policy that refuses nothing else.
Scripts make no such function, so a run that meets none in the beginning meets none at all: no frame
ever waits for a host, and a fault once raised passes every frame down to the end of the run.
-/

namespace ScriptHost

variable {p q last : Phrase}

/-- A value that is no native function of a host. -/
def Value.HostFree : Value → Prop
  | .native _ (.host _) => False
  | _ => True

/-- No property of any object is a native function of a host. -/
def Store.HostFree (s : Store) : Prop :=
  ∀ id name v, s.get? id name = some v → v.HostFree

def Machine.HostFree (m : Machine) : Prop := m.store.HostFree ∧ m.receiver.HostFree

def Completion.HostFree : Completion → Prop
  | .normal value => ∀ v ∈ value, v.HostFree
  | .return v => v.HostFree

/-- Control is not with a host, and no value that it is at or has at hand is a native of one. -/
def Focus.HostFree : Focus p → Prop
  | .evaluate _ | .execute _ | .fault _ => True
  | .executeAll _ latest => ∀ v ∈ latest, v.HostFree
  | .invoke receiver callee arguments =>
    receiver.HostFree ∧ callee.HostFree ∧ ∀ v ∈ arguments, v.HostFree
  | .enter receiver _ arguments => receiver.HostFree ∧ ∀ v ∈ arguments, v.HostFree
  | .perform _ => False
  | .value v => v.HostFree
  | .completion c => c.HostFree

/-- A frame that does not wait for a host and keeps no native function of one. -/
def Frame.HostFree : Frame p q → Prop
  | .binaryApply _ left => left.HostFree
  | .assignMember _ _ value => value.HostFree
  | .callArgument _ receiver function done _ =>
    receiver.HostFree ∧ function.HostFree ∧ ∀ v ∈ done, v.HostFree
  | .host _ => False
  | .returnTo _ receiver _ => receiver.HostFree
  | .loopTest _ _ value | .loopBody _ _ value | .sequence _ value => ∀ v ∈ value, v.HostFree
  | _ => True

def Stack.HostFree : {p q : Phrase} → Stack p q → Prop
  | _, _, .nil => True
  | _, _, .cons frame rest => frame.HostFree ∧ rest.HostFree

structure Situation.HostFree (s : Situation last) : Prop where
  focus : s.focus.HostFree
  stack : s.stack.HostFree
  machine : s.machine.HostFree

/-- The policy that asks nothing, so that it refuses natives of a host alone. -/
def Policy.any : Policy where
  object := fun _ => True
  environment := fun _ => True
  code := fun _ => True
  left := fun _ _ => trivial
  inner := fun _ _ => trivial

theorem Policy.grants_any (s : Situation last) : Policy.any.Grants s := by
  unfold Grants
  split
  · exact fun _ => trivial
  · exact fun _ _ => trivial
  · exact fun _ _ _ _ => trivial
  · exact trivial

/-! What obeys this policy, and no more, is without natives of a host. -/

theorem Value.hostFree_iff {v : Value} : v.HostFree ↔ v.Obeys .any := by
  cases v with
  | function => exact ⟨fun _ => ⟨trivial, fun _ _ => trivial⟩, fun _ => trivial⟩
  | native identity code => cases code <;> exact Iff.rfl
  | _ => exact Iff.rfl

theorem Completion.hostFree_iff {c : Completion} : c.HostFree ↔ c.Obeys .any := by
  cases c <;> simp only [HostFree, Obeys, Value.hostFree_iff]

theorem Focus.hostFree_iff {f : Focus p} : f.HostFree ↔ f.Obeys .any := by
  have hclosure (c : Closure) : c.Obeys .any := ⟨trivial, fun _ _ => trivial⟩
  have hbody (body : List Stmt) : Policy.any.body body := fun _ _ => trivial
  cases f with
  | evaluate | execute | perform | fault => exact Iff.rfl
  | value => exact Value.hostFree_iff
  | completion => exact Completion.hostFree_iff
  | executeAll | invoke | enter =>
      simp only [HostFree, Obeys, Value.hostFree_iff, hclosure, hbody, true_and]

theorem Frame.hostFree_iff {frame : Frame p q} : frame.HostFree ↔ frame.Obeys .any := by
  have hcode (t : Tree) : Policy.any.code t := trivial
  have hobject (id : ObjectId) : Policy.any.object id := trivial
  have henvironment (env : Environment) : Policy.any.environment env := trivial
  have hbody (body : List Stmt) : Policy.any.body body := fun _ _ => trivial
  cases frame with
  | loopTest | loopBody =>
      simp only [HostFree, Obeys, Value.hostFree_iff]
      exact ⟨fun h => ⟨⟨⟨0, 0⟩, trivial⟩, h⟩, fun h => h.2⟩
  | _ => simp [HostFree, Obeys, Value.hostFree_iff, hcode, hobject, henvironment, hbody]

theorem Stack.hostFree_iff {k : Stack p q} : k.HostFree ↔ k.Obeys .any := by
  induction k with
  | nil => exact Iff.rfl
  | cons frame rest ih => exact and_congr Frame.hostFree_iff ih

theorem Store.hostFree_iff {s : Store} : s.HostFree ↔ s.Obeys .any := by
  simp only [HostFree, Obeys, Value.hostFree_iff]

theorem Machine.hostFree_iff {m : Machine} : m.HostFree ↔ m.Obeys .any := by
  constructor
  · rintro ⟨hstore, hreceiver⟩
    exact ⟨Store.hostFree_iff.mp hstore, Value.hostFree_iff.mp hreceiver, trivial, trivial, trivial⟩
  · intro h
    exact ⟨Store.hostFree_iff.mpr h.store, Value.hostFree_iff.mpr h.receiver⟩

theorem Situation.hostFree_iff {s : Situation last} : s.HostFree ↔ s.Obeys .any := by
  constructor
  · rintro ⟨hfocus, hstack, hmachine⟩
    exact ⟨Focus.hostFree_iff.mp hfocus, Stack.hostFree_iff.mp hstack,
      Machine.hostFree_iff.mp hmachine⟩
  · rintro ⟨hfocus, hstack, hmachine⟩
    exact ⟨Focus.hostFree_iff.mpr hfocus, Stack.hostFree_iff.mpr hstack,
      Machine.hostFree_iff.mpr hmachine⟩

theorem Store.hostFree_empty : Store.empty.HostFree := Store.hostFree_iff.mpr obeys_empty

/-- A machine has no native functions of a host before the host gives it some. -/
theorem Machine.hostFree_create {s : Store} (hs : s.HostFree) (config : Config) (output : Output) :
    (create s config output).HostFree :=
  hostFree_iff.mpr (obeys_create (Store.hostFree_iff.mp hs) config output trivial trivial)

/-- A step leads to no native function of a host. -/
def Progress.HostFree : Progress last → Prop :=
  Leads Situation.HostFree fun m _ => m.HostFree

/-- Where a frame says that a call was made. -/
def Frame.place? : Frame p q → Option Span
  | .locate span => some span
  | _ => none

/-- Where the calls were made that a fault comes out of, innermost first. -/
def Stack.places : {p q : Phrase} → Stack p q → List Span
  | _, _, .nil => []
  | _, _, .cons frame rest => frame.place?.toList ++ rest.places

/-- The first place of a fault that passes all these frames. -/
def Stack.firstPlace (k : Stack p q) (f : Fault) : Option Span := (f.span.toList ++ k.places).head?

namespace Situation

variable {hosts : HostTable}

/-- Without native functions of a host, a step leads to none. -/
theorem hostFree_step (hosts : HostTable) {s : Situation last} (hs : s.HostFree) :
    (s.step hosts).HostFree := by
  have hobeys := obeys_step hosts (hostFree_iff.mp hs) (Policy.grants_any s)
  cases hstep : s.step hosts with
  | next t =>
      rw [hstep] at hobeys
      exact hostFree_iff.mpr hobeys
  | halt m ending =>
      rw [hstep] at hobeys
      exact Machine.hostFree_iff.mpr hobeys.1

/-- No frame stops a fault: the run ends with it at its first place, and leaves the objects and the
output as they were. -/
theorem run_of_fault {fuel : Nat} {k : Stack p last} {m n : Machine} {f : Fault}
    {ending : Ending last} (hk : k.HostFree)
    (h : run hosts fuel ⟨p, .fault f, k, m⟩ = some (n, ending)) :
    ending = .fault ⟨f.kind, f.message, k.firstPlace f⟩ ∧ n.store = m.store ∧
      n.output = m.output := by
  induction fuel generalizing p m f with
  | zero => simp [run] at h
  | succ fuel ih =>
      rw [run] at h
      cases k with
      | nil =>
          obtain ⟨rfl, rfl⟩ := Prod.mk.inj (Option.some.inj h)
          refine ⟨?_, rfl, rfl⟩
          obtain ⟨kind, message, span⟩ := f
          cases span <;> rfl
      | cons frame k =>
          cases frame with
          | host resume => exact hk.1.elim
          | locate span =>
              obtain ⟨hending, hleft⟩ := ih (f := f.locate span) hk.2 h
              refine ⟨?_, hleft⟩
              rw [hending]
              obtain ⟨kind, message, place⟩ := f
              cases place <;> rfl
          | leave => exact ih (k := k) (m := m.left) hk.2 h
          | returnTo environment receiver isUnit =>
              exact ih (k := k) (m := m.returned environment receiver) hk.2 h
          | _ => exact ih (k := k) hk.2 h

theorem fault_of_run {fuel : Nat} {k : Stack p last} {m n : Machine} {f : Fault}
    {ending : Ending last} (hk : k.HostFree)
    (h : Situation.run hosts fuel ⟨p, .fault f, k, m⟩ = some (n, ending)) :
    ∃ g, ending = .fault g ∧ g.kind = f.kind ∧ g.message = f.message :=
  ⟨_, (run_of_fault hk h).1, rfl, rfl⟩

end Situation

end ScriptHost
