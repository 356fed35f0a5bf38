import TypedStack.Proofs.Heap.Consistency
import TypedStack.Proofs.Machine.Causes
import TypedStack.Proofs.Machine.References

/-!
# Runs without dangling references

A reference names an object if there is one at its address and it holds elements of
the kind that the reference says. A heap is well typed if all references in its
objects name objects. Such a heap is made by putting in one object after the other,
each with references that name objects already: objects that are there stay where
they are, so what was named once remains named as long as nothing is released.

The references that name objects of a well typed heap are closed under reading from
it. So a run that starts with such references holds no others, and an instruction
that reads from the heap never finds nothing at the address of its reference.
-/

namespace TypedStack

/-! ## Well typed heaps -/

namespace Heap

/-- There is an object at the address, and the reference has its element kind. -/
def Names (heap : Heap) (reference : Reference) : Prop :=
  ∃ object, heap.object? reference.address = some object ∧ object.element = reference.element

/-- The references in the objects of a consistent heap name objects. -/
structure WellTyped (heap : Heap) : Prop where
  consistent : heap.Consistent
  names : ∀ address object, heap.object? address = some object →
    ∀ value ∈ object.payload, value.Within heap.Names

/-- Every object is still at its address. -/
def Extends (heap after : Heap) : Prop :=
  ∀ address object, heap.object? address = some object → after.object? address = some object

variable {heap middle after : Heap} {address : Address} {object : HeapObject} {value : Value}

theorem Extends.refl (heap : Heap) : heap.Extends heap :=
  fun _ _ h => h

theorem Extends.trans (h : heap.Extends middle) (h' : middle.Extends after) :
    heap.Extends after :=
  fun address object hobject => h' address object (h address object hobject)

theorem Extends.names
    (h : heap.Extends after) {reference : Reference} (hnames : heap.Names reference) :
    after.Names reference := by
  obtain ⟨object, hobject, helement⟩ := hnames
  exact ⟨object, h _ _ hobject, helement⟩

theorem Extends.within (h : heap.Extends after) (hvalue : value.Within heap.Names) :
    value.Within after.Names :=
  fun reference href => h.names (hvalue reference href)

theorem wellTyped_empty (policy : ReclaimPolicy) : (empty policy).WellTyped where
  consistent := consistent_empty policy
  names address object h := by simp [object?, empty] at h

theorem Inserted.extends
    (h : Inserted heap object address after) (hconsistent : heap.Consistent) :
    heap.Extends after := by
  intro other found hfound
  have hother : other ≠ address := by
    rintro rfl
    rw [h.object?_eq_none hconsistent] at hfound
    cases hfound
  rw [h.object?_eq hconsistent, if_neg hother]
  exact hfound

theorem WellTyped.of_inserted
    (hheap : heap.WellTyped) (h : Inserted heap object address after)
    (hpayload : ∀ value ∈ object.payload, value.Within heap.Names) : after.WellTyped where
  consistent := hheap.consistent.of_inserted h
  names other found hfound value hvalue := by
    have hextends := h.extends hheap.consistent
    rw [h.object?_eq hheap.consistent] at hfound
    split at hfound
    · cases hfound
      exact hextends.within (hpayload value hvalue)
    · exact hextends.within (hheap.names other found hfound value hvalue)

theorem inserted_of_create
    {element : Kind} {payload : List Value} (h : create element payload heap = .ok address after) :
    ∃ object : HeapObject, object.element = element ∧ object.payload = payload ∧
      Inserted heap object address after := by
  unfold create at h
  cases hmake : HeapObject.make element payload with
  | error mismatch =>
    rw [hmake] at h
    cases h
  | ok object =>
    rw [hmake] at h
    obtain ⟨helement, hpayload⟩ := HeapObject.of_make hmake
    exact ⟨object, helement, hpayload, inserted_of_insert h⟩

/-- What refers to the object at an address names it. -/
theorem within_of_reference (h : heap.reference address = .ok value) :
    value.Within heap.Names := by
  rintro reference rfl
  unfold Heap.reference at h
  cases hobject : heap.object address with
  | error e =>
    rw [hobject] at h
    cases h
  | ok object =>
    rw [hobject] at h
    cases h
    exact ⟨object, object_eq_ok.1 hobject, rfl⟩

theorem WellTyped.closed_names (hheap : heap.WellTyped) : heap.Closed heap.Names :=
  fun reference object _ hobject =>
    hheap.names reference.address object (object_eq_ok.1 hobject)

end Heap

/-! ## Runs -/

namespace Machine

variable {program : Program} {heap : Heap} {limits : Limits} {activation : Activation}
  {machine : Machine}

/-- No instruction finds a dangling reference where all references name objects. -/
theorem Blocked.ne_dangling
    {kind : TrapKind} (h : Blocked machine kind)
    (hframe : machine.frame.Within machine.heap.Names) : kind ≠ .danglingReference := by
  rintro rfl
  cases h with
  | within _ _ _ stopped =>
    have hcause := (Frame.stopsFor_perform _ _ _).of_error stopped
    obtain ⟨reference, hmem, hnone⟩ := hcause.dangling rfl
    obtain ⟨object, hobject, -⟩ := hframe.stack _ hmem _ rfl
    rw [hnone] at hobject
    cases hobject

/-- In a well typed heap, a run that starts with references that name objects holds
no others. -/
theorem Reachable.within_names
    (h : Reachable program heap limits activation machine) (hheap : heap.WellTyped)
    (hactivation : ∀ reference, activation.Refers reference → heap.Names reference) :
    machine.Within heap.Names :=
  h.within hheap.closed_names hactivation

theorem Reachable.trap_ne_dangling
    (h : Reachable program heap limits activation machine) (hheap : heap.WellTyped)
    (hactivation : ∀ reference, activation.Refers reference → heap.Names reference)
    {trap : Trap} (htrap : machine.outcome = some (.error trap)) :
    trap.kind ≠ .danglingReference := by
  obtain ⟨before, hbefore, -, hlast⟩ := h.exists_lastStep htrap
  cases hlast with
  | finish _ => cases htrap
  | trap stopped =>
    cases htrap
    have hframe := (hbefore.within_names hheap hactivation).frames _ List.mem_cons_self
    rw [← hbefore.sound.heap_eq] at hframe
    exact (blocked_of_execute stopped).ne_dangling hframe

end Machine

end TypedStack
