import TypedStack.Trap

/-!
# Argument and local slots

Arguments are filled when a function is entered and can be moved out once. Local
slots take the kind of what is declared or first written there and keep it until
they are declared anew.
-/

namespace TypedStack

/-- An argument and whether it was moved out. -/
structure Argument where
  value : Value
  consumed : Bool
  deriving DecidableEq, Repr

/-- The arguments of an activation. -/
structure Arguments where
  slots : List Argument
  deriving DecidableEq, Repr

namespace Arguments

/-- Arguments none of which was moved out. -/
def ofValues (values : List Value) : Arguments :=
  ⟨values.map fun value => ⟨value, false⟩⟩

/-- The number of arguments. -/
def length (arguments : Arguments) : Nat :=
  arguments.slots.length

/-- Whether the argument in a slot was moved out. -/
def isConsumed (arguments : Arguments) (index : Nat) : Bool :=
  arguments.slots[index]?.any (·.consumed)

/-- A copy of the argument in a slot. -/
def read (arguments : Arguments) (index : Nat) : Except TrapKind Value :=
  match arguments.slots[index]? with
  | none => .error .invalidSlot
  | some argument =>
    if argument.consumed then .error .slotAlreadyConsumed else .ok argument.value

/-- Move the argument in a slot out. -/
def take (arguments : Arguments) (index : Nat) : Except TrapKind (Value × Arguments) :=
  (arguments.read index).map fun value => (value, ⟨arguments.slots.set index ⟨value, true⟩⟩)

/-- There is no such slot, or what it held was moved out. -/
theorem read_eq_error {arguments : Arguments} {index : Nat} {kind : TrapKind} :
    arguments.read index = .error kind ↔
      (arguments.length ≤ index ∧ kind = .invalidSlot) ∨
        (arguments.isConsumed index ∧ kind = .slotAlreadyConsumed) := by
  unfold read length isConsumed
  cases hslot : arguments.slots[index]? with
  | none => simp [List.getElem?_eq_none_iff.1 hslot, eq_comm]
  | some argument =>
    have hindex : ¬arguments.slots.length ≤ index :=
      Nat.not_le_of_lt (List.getElem?_eq_some_iff.1 hslot).1
    by_cases hconsumed : argument.consumed <;> simp [hindex, hconsumed, eq_comm]

theorem take_eq_error {arguments : Arguments} {index : Nat} {kind : TrapKind} :
    arguments.take index = .error kind ↔ arguments.read index = .error kind := by
  unfold take
  cases arguments.read index <;> simp [Except.map]

theorem take_eq_ok {arguments after : Arguments} {index : Nat} {value : Value} :
    arguments.take index = .ok (value, after) ↔
      arguments.read index = .ok value ∧
        after = ⟨arguments.slots.set index ⟨value, true⟩⟩ := by
  unfold take
  cases arguments.read index with
  | error kind => simp [Except.map]
  | ok found =>
    simp only [Except.map, Except.ok.injEq, Prod.mk.injEq]
    constructor
    · rintro ⟨rfl, rfl⟩
      exact ⟨rfl, rfl⟩
    · rintro ⟨rfl, rfl⟩
      exact ⟨rfl, rfl⟩

end Arguments

/-- What a local slot holds. -/
inductive LocalSlot where
  /-- Nothing, and no kind either. -/
  | uninit
  /-- Nothing was written, so reading gives the zero of the kind. -/
  | declared (kind : Kind)
  /-- The value last written. -/
  | holding (value : Value)
  deriving DecidableEq, Repr

/-- The kind of a local slot. -/
def LocalSlot.kind? : LocalSlot → Option Kind
  | uninit => none
  | declared kind => some kind
  | holding value => some value.kind

/-- The local slots of an activation. -/
structure Locals where
  slots : List LocalSlot
  deriving DecidableEq, Repr

namespace Locals

/-- Slots that hold nothing. -/
def blank (count : Nat) : Locals :=
  ⟨List.replicate count .uninit⟩

/-- `count` slots of which the first ones are declared as given. -/
def declared (count : Nat) (kinds : List (Option Kind)) : Locals :=
  ⟨kinds.map (fun kind => kind.elim .uninit .declared) ++
    List.replicate (count - kinds.length) .uninit⟩

/-- The number of slots. -/
def length (locals : Locals) : Nat :=
  locals.slots.length

/-- What a slot holds. -/
def slot? (locals : Locals) (index : Nat) : Option LocalSlot :=
  locals.slots[index]?

/-- Declare the kind of a slot and drop what it held. -/
def init (locals : Locals) (index : Nat) (kind : Kind) : Except TrapKind Locals :=
  match locals.slots[index]? with
  | none => .error .invalidSlot
  | some _ => .ok ⟨locals.slots.set index (.declared kind)⟩

/-- Check that a value of a kind may be written to a slot. -/
def checkWrite (locals : Locals) (index : Nat) (kind : Kind) : Except TrapKind Unit :=
  match locals.slots[index]? with
  | none => .error .invalidSlot
  | some slot =>
    if slot.kind?.all (· == kind) then .ok () else .error .stackTypeMismatch

/-- Write a value to a slot. -/
def write (locals : Locals) (index : Nat) (value : Value) : Except TrapKind Locals :=
  (locals.checkWrite index value.kind).map fun _ => ⟨locals.slots.set index (.holding value)⟩

theorem init_eq_ok {locals after : Locals} {index : Nat} {kind : Kind} :
    locals.init index kind = .ok after ↔
      index < locals.length ∧ after = ⟨locals.slots.set index (.declared kind)⟩ := by
  unfold init length
  split <;> rename_i hslot
  · have hindex : ¬index < locals.slots.length := by
      simpa using hslot
    simp [hindex]
  · have hindex : index < locals.slots.length := by
      exact (List.getElem?_eq_some_iff.1 hslot).1
    simp [hindex, eq_comm]

theorem init_eq_error {locals : Locals} {index : Nat} {kind : Kind} {cause : TrapKind} :
    locals.init index kind = .error cause ↔ locals.length ≤ index ∧ cause = .invalidSlot := by
  unfold init length
  cases hslot : locals.slots[index]? with
  | none => simp [List.getElem?_eq_none_iff.1 hslot, eq_comm]
  | some slot => simp [Nat.not_le_of_lt (List.getElem?_eq_some_iff.1 hslot).1]

/-- There is no such slot, or it has another kind. -/
theorem checkWrite_eq_error {locals : Locals} {index : Nat} {kind : Kind} {cause : TrapKind} :
    locals.checkWrite index kind = .error cause ↔
      (locals.length ≤ index ∧ cause = .invalidSlot) ∨
        ∃ slot, locals.slot? index = some slot ∧ slot.kind?.all (· == kind) = false ∧
          cause = .stackTypeMismatch := by
  unfold checkWrite length slot?
  cases hslot : locals.slots[index]? with
  | none => simp [List.getElem?_eq_none_iff.1 hslot, eq_comm (a := cause)]
  | some slot =>
    have hindex : ¬locals.slots.length ≤ index :=
      Nat.not_le_of_lt (List.getElem?_eq_some_iff.1 hslot).1
    by_cases hkind : slot.kind?.all (· == kind) <;> simp [hindex, hkind, eq_comm (a := cause)]

theorem write_eq_error {locals : Locals} {index : Nat} {value : Value} {cause : TrapKind} :
    locals.write index value = .error cause ↔
      locals.checkWrite index value.kind = .error cause := by
  unfold write
  cases locals.checkWrite index value.kind <;> simp [Except.map]

theorem write_eq_ok {locals after : Locals} {index : Nat} {value : Value} :
    locals.write index value = .ok after ↔
      locals.checkWrite index value.kind = .ok () ∧
        after = ⟨locals.slots.set index (.holding value)⟩ := by
  unfold write
  cases locals.checkWrite index value.kind <;> simp [Except.map, eq_comm]

/-- Read a slot. A declared reference slot has no zero to read. -/
def read (locals : Locals) (index : Nat) : Except TrapKind Value :=
  match locals.slots[index]? with
  | none => .error .invalidSlot
  | some .uninit => .error .uninitializedRead
  | some (.declared kind) =>
    match Value.zero? kind with
    | some zero => .ok zero
    | none => .error .uninitializedRead
  | some (.holding value) => .ok value

/-- There is no such slot, or it has nothing to read. -/
theorem read_eq_error {locals : Locals} {index : Nat} {cause : TrapKind} :
    locals.read index = .error cause ↔
      (locals.length ≤ index ∧ cause = .invalidSlot) ∨
        ((locals.slot? index = some .uninit ∨ locals.slot? index = some (.declared .ref)) ∧
          cause = .uninitializedRead) := by
  unfold read length slot?
  cases hslot : locals.slots[index]? with
  | none => simp [List.getElem?_eq_none_iff.1 hslot, eq_comm]
  | some slot =>
    have hindex : ¬locals.slots.length ≤ index :=
      Nat.not_le_of_lt (List.getElem?_eq_some_iff.1 hslot).1
    cases slot with
    | uninit => simp [hindex, eq_comm]
    | holding value => simp [hindex]
    | declared kind => cases kind <;> simp [hindex, Value.zero?, eq_comm]

end Locals

end TypedStack
