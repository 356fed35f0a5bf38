import TypedStack.Heap.Object
import TypedStack.Value.Render

/-!
# The heap

Objects stay at their address until they are released, and an address that was
released never names an object again. A place counts how often it was vacated,
and an address carries that count: under the recycling policy a vacated place is
used again under the next count, and a place whose counts have run out is
retired.

Operations that change the heap work on it in place: one that fails leaves a heap
behind as well, in whatever state it has reached.
-/

namespace TypedStack

/-- What becomes of a place whose object was released. -/
inductive ReclaimPolicy where
  /-- It stays vacant. -/
  | retain
  /-- It is used again for a later object. -/
  | recycle
  deriving DecidableEq, Repr

/-- The name of a policy. -/
def ReclaimPolicy.name : ReclaimPolicy → String
  | retain => "Retain"
  | recycle => "Recycle"

/-- Why a heap operation failed. -/
inductive HeapError where
  | danglingReference (address : Address)
  | indexOutOfRange (address : Address) (index length : Nat)
  | elementKind (mismatch : ElementMismatch)
  | exhausted
  deriving DecidableEq, Repr

/-- The wording of a heap error. -/
def HeapError.message : HeapError → String
  | danglingReference address => "dangling reference " ++ address.render
  | indexOutOfRange address index length =>
    "index " ++ toString index ++ " out of range for " ++ address.render ++
      " (length " ++ toString length ++ ")"
  | elementKind mismatch => mismatch.message
  | exhausted => "heap address space exhausted"

/-- A place in the heap: how often it was vacated, and what it holds. -/
structure Heap.Entry where
  generation : UInt32
  object : Option HeapObject
  deriving DecidableEq

/-- The heap. `free` holds the places to use again, the next one first, and
`live` counts the objects. -/
structure Heap where
  policy : ReclaimPolicy
  entries : Array Heap.Entry
  free : List UInt32
  live : Nat
  deriving DecidableEq

/-- Work on a heap in place, which may stop with an error in the state it has
reached by then. -/
abbrev Heap.Update (α : Type) := EStateM HeapError Heap α

namespace Heap

/-- Look something up, and stop if it is not there. -/
def look {α : Type} (query : Heap → Except HeapError α) : Update α := fun heap =>
  match query heap with
  | .ok a => .ok a heap
  | .error e => .error e heap

/-- A heap without objects. -/
def empty (policy : ReclaimPolicy) : Heap :=
  ⟨policy, #[], [], 0⟩

/-- The number of places there can be, since a place is numbered by a word of
thirty-two bits. -/
def maxPlaces : Nat := UInt32.size

/-- The object at an address. -/
def object? (heap : Heap) (address : Address) : Option HeapObject :=
  match heap.entries[address.index.toNat]? with
  | none => none
  | some entry => if entry.generation = address.generation then entry.object else none

/-- The object at an address, or the error that there is none. -/
def object (heap : Heap) (address : Address) : Except HeapError HeapObject :=
  match heap.object? address with
  | some object => .ok object
  | none => .error (.danglingReference address)

/-- Whether an address names an object. -/
def isLive (heap : Heap) (address : Address) : Bool :=
  (heap.object? address).isSome

/-- The value that refers to the object at an address. -/
def reference (heap : Heap) (address : Address) : Except HeapError Value :=
  (heap.object address).map fun object => .ref ⟨address, object.element⟩

/-- The element at an index of the object at an address; index zero gives the
length. -/
def deref (heap : Heap) (address : Address) (index : Nat) : Except HeapError Value :=
  match heap.object address with
  | .error e => .error e
  | .ok object =>
    match object.get? index with
    | some value => .ok value
    | none => .error (.indexOutOfRange address index object.length)

/-- The count of vacations of a place. -/
def generationAt (heap : Heap) (index : UInt32) : UInt32 :=
  match heap.entries[index.toNat]? with
  | some entry => entry.generation
  | none => 0

/-- Put an object into a place to use again, or else into a new one. -/
def insert (object : HeapObject) : Update Address := fun heap =>
  match heap.free with
  | index :: free =>
    .ok ⟨index, heap.generationAt index⟩
      { heap with
        entries := heap.entries.modify index.toNat fun entry => { entry with object := some object }
        free
        live := heap.live + 1 }
  | [] =>
    if heap.entries.size < maxPlaces then
      .ok ⟨UInt32.ofNat heap.entries.size, 0⟩
        { heap with entries := heap.entries.push ⟨0, some object⟩, live := heap.live + 1 }
    else .error .exhausted heap

/-- Make an object of the given elements. -/
def create (element : Kind) (payload : List Value) : Update Address :=
  match HeapObject.make element payload with
  | .error mismatch => throw (.elementKind mismatch)
  | .ok object => insert object

/-- Make an object that holds bytes. -/
def createBytes (bytes : List UInt8) : Update Address :=
  insert (.ofBytes bytes)

/-- The greatest count of vacations. -/
def lastGeneration : UInt32 := 0xFFFFFFFF

/-- A vacated place. A place that has reached the greatest count keeps it. -/
def Entry.vacate (entry : Entry) : Entry where
  generation :=
    if entry.generation = lastGeneration then entry.generation else entry.generation + 1
  object := none

/-- The heap once the object at an address was taken out. The place may be used
again if the policy says so and its counts have not run out. -/
def vacate (address : Address) (heap : Heap) : Heap :=
  let reusable := heap.policy == .recycle && heap.generationAt address.index != lastGeneration
  { heap with
    entries := heap.entries.modify address.index.toNat Entry.vacate
    free := if reusable then address.index :: heap.free else heap.free
    live := heap.live - 1 }

/-- Take the object at an address out of the heap. -/
def release (address : Address) : Update HeapObject := do
  let object ← look (·.object address)
  modify (vacate address)
  return object

end Heap

end TypedStack
