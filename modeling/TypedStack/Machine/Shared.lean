import TypedStack.Heap.Shared
import TypedStack.Machine.Run

/-!
# Running on a shared heap

An invocation on a shared heap holds the lock from its first instruction to its
last, and gives the heap back as it was.
-/

namespace TypedStack

namespace Machine

/-- The outcome of running the entry function of a program under the lock of the
heap. -/
def invokeShared (program : Program) (shared : SharedHeap) (limits : Limits)
    (activation : Activation) : Option (Except SetupError Outcome × SharedHeap) :=
  shared.withLock fun heap => (invoke program heap limits activation, heap)

end Machine

end TypedStack
