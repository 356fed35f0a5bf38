import TypedStack.Value

/-!
# Heap objects

An object is an array of values of one kind. Its elements are counted from one;
element zero is the length.
-/

namespace TypedStack

/-- A payload value whose kind is not that of the object. Positions count from
zero and leave the length out. -/
structure ElementMismatch where
  index : Nat
  expected : Kind
  found : Kind
  deriving DecidableEq, Repr

/-- The wording of an element mismatch. -/
def ElementMismatch.message (e : ElementMismatch) : String :=
  "element " ++ toString e.index ++ " is " ++ e.found.name ++ ", object holds " ++ e.expected.name

/-- An array of values, all of the kind `element`. -/
structure HeapObject where
  element : Kind
  payload : List Value
  uniform : ∀ value ∈ payload, value.kind = element
  deriving DecidableEq

namespace HeapObject

/-- The first value whose kind is not `element`, with its position. -/
def mismatch? (element : Kind) (payload : List Value) : Option ElementMismatch :=
  (payload.zipIdx.find? fun entry => entry.1.kind != element).map fun entry =>
    ⟨entry.2, element, entry.1.kind⟩

theorem uniform_of_mismatch?_eq_none {element : Kind} {payload : List Value}
    (h : mismatch? element payload = none) : ∀ value ∈ payload, value.kind = element := by
  intro value hmem
  obtain ⟨index, hindex⟩ := List.getElem?_of_mem hmem
  simp only [mismatch?, Option.map_eq_none_iff, List.find?_eq_none] at h
  have hentry : (value, index) ∈ payload.zipIdx := by
    rw [List.mem_zipIdx_iff_getElem?]
    exact hindex
  simpa using h (value, index) hentry

/-- An object with the given payload, refused at the first value of another
kind. -/
def make (element : Kind) (payload : List Value) : Except ElementMismatch HeapObject :=
  match h : mismatch? element payload with
  | some mismatch => .error mismatch
  | none => .ok ⟨element, payload, uniform_of_mismatch?_eq_none h⟩

theorem of_make {element : Kind} {payload : List Value} {object : HeapObject}
    (h : make element payload = .ok object) :
    object.element = element ∧ object.payload = payload := by
  unfold make at h
  split at h
  · cases h
  · cases h
    exact ⟨rfl, rfl⟩

/-- An object that holds bytes. -/
def ofBytes (bytes : List UInt8) : HeapObject where
  element := .integer .u8
  payload := bytes.map Value.u8
  uniform := by
    intro value hmem
    obtain ⟨byte, _, rfl⟩ := List.mem_map.1 hmem
    rfl

/-- The number of payload values. -/
def length (object : HeapObject) : Nat :=
  object.payload.length

/-- The length as a value. -/
def header (object : HeapObject) : Value :=
  Value.wrapInteger .usize object.length

/-- The element at an index: the length at zero, then the payload. -/
def get? (object : HeapObject) : Nat → Option Value
  | 0 => some object.header
  | index + 1 => object.payload[index]?

end HeapObject

end TypedStack
