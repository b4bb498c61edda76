import ScriptHost.Heap.Registry
import ScriptHost.Store.Basic

/-!
Objects under reference counting. An object is alive while a handle holds it or a property of a
living object refers to it; one that is no longer referred to is released together with whatever
only it kept alive, so that a ring of objects stays alive until one of its properties is taken away.
-/

namespace ScriptHost

/-- Whether a value keeps an object alive: it is that object, or a function that was made in a
chain with that object among its scopes. -/
def Value.refersTo (id : ObjectId) : Value → Bool
  | .object other => other == id
  | .function _ closure => closure.environment.scopes.contains id
  | _ => false

/-- Objects with the handles that hold them, those alive, and the registry of their owner. -/
structure CountedHeap where
  store : Store
  handles : List (Nat × ObjectId)
  alive : List ObjectId
  registry : Registry

namespace CountedHeap

/-- An object that was handed out, how many entries a sweep kept to make room for it, and the heap
from then on. -/
structure Allocation where
  id : ObjectId
  swept : Option Nat
  heap : CountedHeap

/-- A heap without objects. -/
def empty : CountedHeap := ⟨.empty, [], [], .empty⟩

/-- The object under a handle. -/
def held? (h : CountedHeap) (handle : Nat) : Option ObjectId := h.handles.lookup handle

/-- Whether a handle or a property of a living object refers to an object. -/
def isReferenced (h : CountedHeap) (id : ObjectId) : Bool :=
  h.handles.any (·.2 == id) ||
    h.alive.any fun owner => (h.store.object owner).properties.any fun p => p.2.refersTo id

/-- Releases the living objects that nothing refers to, again and again while there are any, at
most as often as the bound. -/
def release : Nat → CountedHeap → CountedHeap
  | 0, h => h
  | bound + 1, h =>
    let kept := h.alive.filter h.isReferenced
    if kept.length = h.alive.length then h else release bound { h with alive := kept }

/-- Releases everything that nothing refers to any more. -/
def settle (h : CountedHeap) : CountedHeap := release h.alive.length h

/-- Whether an object is alive. -/
def isAlive (h : CountedHeap) (id : ObjectId) : Bool := h.alive.contains id

/-- Makes an object and records it. Nothing holds it yet. -/
def handOut (h : CountedHeap) (kind : ObjectClass) : Allocation :=
  let (id, store) := h.store.allocate kind
  let (swept, room) := h.registry.makeRoom h.isAlive
  ⟨id, swept, { h with store := store, registry := room.add id }⟩

/-- Makes an object and holds it under a handle, which gives up what it held before. -/
def handTo (h : CountedHeap) (kind : ObjectClass) (handle : Nat) : Allocation :=
  let ⟨id, swept, h⟩ := h.handOut kind
  let others := h.handles.filter (·.1 != handle)
  ⟨id, swept, settle { h with handles := (handle, id) :: others, alive := id :: h.alive }⟩

/-- The heap with another object under a handle. -/
def allocate (h : CountedHeap) (kind : ObjectClass) (handle : Nat) : CountedHeap :=
  (h.handTo kind handle).heap

/-- The heap after an object was made that nothing holds. -/
def allocateGarbage (h : CountedHeap) : CountedHeap := (h.handOut .plain).heap

/-- Gives up a handle; the answer tells whether it held an object. -/
def drop (h : CountedHeap) (handle : Nat) : Bool × CountedHeap :=
  let kept := h.handles.filter (·.1 != handle)
  ((h.held? handle).isSome, settle { h with handles := kept })

/-- Sets a property of the object under a handle. -/
def set (h : CountedHeap) (handle : Nat) (name : String) (value : Value) : CountedHeap :=
  match h.held? handle with
  | some id => settle { h with store := h.store.set id name value }
  | none => h

/-- Number of living objects that the registry knows. -/
def liveCount (h : CountedHeap) : Nat := (h.registry.survivors h.isAlive).length

/-- Empties every living object that the registry knows and forgets all entries; the answer is
how many were emptied. -/
def clear (h : CountedHeap) : Nat × CountedHeap :=
  let live := h.registry.survivors h.isAlive
  (live.length, settle { h with store := live.foldl Store.clear h.store, registry := .empty })

/-- Number of properties of each object under a handle, by ascending handle. -/
def sizes (h : CountedHeap) : List (Nat × Nat) :=
  let sorted := h.handles.mergeSort fun a b => a.1 ≤ b.1
  sorted.map fun (handle, id) => (handle, (h.store.object id).properties.length)

end CountedHeap

end ScriptHost
