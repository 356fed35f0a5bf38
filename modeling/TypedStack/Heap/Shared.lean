import TypedStack.Heap.Store

/-!
# A heap behind a lock

Several hosts may use one heap. Whoever holds the lock has the heap for itself;
work done under the lock is a function on the heap.
-/

namespace TypedStack

/-- A heap and whether some host holds its lock. -/
structure SharedHeap where
  heap : Heap
  locked : Bool
  deriving DecidableEq

namespace SharedHeap

/-- A shared heap that nobody holds. -/
def ofHeap (heap : Heap) : SharedHeap :=
  ⟨heap, false⟩

/-- Take the lock if nobody holds it. -/
def tryLock (shared : SharedHeap) : Option SharedHeap :=
  if shared.locked then none else some { shared with locked := true }

/-- Give the lock back, leaving the heap as it then is. -/
def unlock (shared : SharedHeap) (heap : Heap) : SharedHeap :=
  { shared with heap, locked := false }

/-- Do some work on the heap under the lock. -/
def withLock {α : Type} (shared : SharedHeap) (work : Heap → α × Heap) :
    Option (α × SharedHeap) :=
  shared.tryLock.map fun held =>
    let (result, heap) := work held.heap
    (result, held.unlock heap)

/-- Change the heap under the lock. -/
def update {α : Type} (shared : SharedHeap) (work : Heap.Update α) :
    Option (Except HeapError α × SharedHeap) :=
  shared.withLock fun heap =>
    match work heap with
    | .ok a after => (.ok a, after)
    | .error e after => (.error e, after)

end SharedHeap

end TypedStack
