import TypedStack.Trap
import TypedStack.Proofs.Heap.Consistency

/-!
# Relocation

A map of addresses moves references, and with them the values and objects that
hold them. Kinds, lengths and positions stay, and so does everything that is no
reference; two references may well be moved to one address. What a heap holds at
an address is mirrored by another heap if this holds the moved object at the moved
address, or nothing where the first holds nothing.
-/

namespace TypedStack

def Reference.relocate (ρ : Address → Address) (reference : Reference) : Reference :=
  ⟨ρ reference.address, reference.element⟩

/-- A value with its reference moved, if it is one. -/
def Value.relocate (ρ : Address → Address) : Value → Value
  | integer kind bits => integer kind bits
  | float format bits => float format bits
  | bool b => bool b
  | ref reference => ref (reference.relocate ρ)

section

variable {ρ : Address → Address} {value : Value}

@[simp] theorem Value.kind_relocate : (value.relocate ρ).kind = value.kind := by
  cases value <;> rfl

@[simp] theorem Value.toInt?_relocate : (value.relocate ρ).toInt? = value.toInt? := by
  cases value <;> rfl

theorem Value.relocate_of_kind_ne_ref (h : value.kind ≠ .ref) : value.relocate ρ = value := by
  cases value with
  | ref reference => exact absurd rfl h
  | _ => rfl

theorem Value.relocate_id : Value.relocate id = id := by
  funext value
  cases value <;> rfl

/-- Conversion looks at no address. -/
theorem Value.convertChecked_relocate (target : Kind) :
    (value.relocate ρ).convertChecked target = (value.convertChecked target).map (relocate ρ) := by
  by_cases hkind : value.kind = .ref
  · cases value with
    | ref reference =>
      unfold convertChecked
      by_cases htarget : target = .ref
      · rw [if_pos htarget, if_pos htarget]
        rfl
      · rw [if_neg htarget, if_neg htarget]
        rfl
    | _ => cases hkind
  · rw [relocate_of_kind_ne_ref hkind]
    cases hresult : value.convertChecked target with
    | error e => rfl
    | ok result =>
      have hscalar := kind_ne_ref_of_convertChecked hresult
      rw [Except.map, relocate_of_kind_ne_ref hscalar]

theorem Value.convertUnchecked_relocate (target : Kind) :
    (value.relocate ρ).convertUnchecked target =
      (value.convertUnchecked target).map (relocate ρ) := by
  by_cases hkind : value.kind = .ref
  · cases value with
    | ref reference => rfl
    | _ => cases hkind
  · rw [relocate_of_kind_ne_ref hkind]
    cases hresult : value.convertUnchecked target with
    | error e => rfl
    | ok result =>
      have hscalar := kind_ne_ref_of_convertUnchecked hresult
      rw [Except.map, relocate_of_kind_ne_ref hscalar]

end

/-! ## Objects -/

/-- An object with the references in its payload moved. -/
def HeapObject.relocate (ρ : Address → Address) (object : HeapObject) : HeapObject where
  element := object.element
  payload := object.payload.map (Value.relocate ρ)
  uniform := by
    intro value hmem
    obtain ⟨found, hfound, rfl⟩ := List.mem_map.1 hmem
    rw [Value.kind_relocate]
    exact object.uniform found hfound

section

variable {ρ : Address → Address} {object : HeapObject}

@[simp] theorem HeapObject.length_relocate : (object.relocate ρ).length = object.length := by
  simp [length, relocate]

@[simp] theorem HeapObject.get?_relocate (index : Nat) :
    (object.relocate ρ).get? index = (object.get? index).map (Value.relocate ρ) := by
  cases index with
  | zero => simp [get?, header, Value.wrapInteger, Value.relocate]
  | succ index => simp [get?, relocate]

theorem HeapObject.relocate_id : HeapObject.relocate id = id := by
  funext object
  simp [relocate, Value.relocate_id]

end

/-! ## Heaps -/

namespace Heap

/-- What is at the address of a reference is, moved, at its new address in the other
heap. -/
def Mirrored (heap heap' : Heap) (ρ : Address → Address) (reference : Reference) : Prop :=
  heap'.object? (ρ reference.address) =
    (heap.object? reference.address).map (HeapObject.relocate ρ)

variable {heap heap' : Heap} {ρ : Address → Address} {reference : Reference}

theorem mirrored_id :
    heap.Mirrored heap' id reference ↔
      heap'.object? reference.address = heap.object? reference.address := by
  simp [Mirrored, HeapObject.relocate_id]

/-- Reading through a mirrored reference gives the moved element, or fails for the
same cause. -/
theorem Mirrored.deref
    (h : heap.Mirrored heap' ρ reference) (index : Nat) :
    (heap'.deref (ρ reference.address) index).mapError HeapError.trapKind =
      ((heap.deref reference.address index).mapError HeapError.trapKind).map
        (Value.relocate ρ) := by
  unfold Mirrored at h
  cases hobject : heap.object? reference.address with
  | none =>
    rw [hobject] at h
    rw [Heap.deref, Heap.deref, object_eq_error.2 ⟨hobject, rfl⟩, object_eq_error.2 ⟨h, rfl⟩]
    rfl
  | some object =>
    rw [hobject] at h
    rw [Heap.deref, Heap.deref, object_eq_ok.2 hobject, object_eq_ok.2 h]
    simp only [HeapObject.get?_relocate, HeapObject.length_relocate]
    cases object.get? index <;> rfl

end Heap

end TypedStack
