import TypedStack.Machine.Action
import TypedStack.Machine.Slots
import TypedStack.Machine.Stack
import TypedStack.Instruction

/-!
# Frames

One activation of a function, and the actions of the instructions that stay
within it. Several of these change the frame in two places, one after the other;
each looks for all that the second change needs before it makes the first.
-/

namespace TypedStack

/-- An activation of a function: the offset of its next instruction and all that
the instructions work on. -/
structure Frame where
  function : UInt16
  pc : Nat
  arguments : Arguments
  locals : Locals
  stack : OperandStack
  deriving DecidableEq, Repr

namespace Frame

/-- The frame in which a function starts when it is called. -/
def enter (function : UInt16) (arguments : List Value) (locals stackLimit : Nat) : Frame where
  function
  pc := 0
  arguments := .ofValues arguments
  locals := .blank locals
  stack := .empty stackLimit

/-- Carry out an operation on the stack. -/
def onStack {α : Type} (operation : OperandStack → Except TrapKind (α × OperandStack)) :
    Action Frame α :=
  Action.change (·.stack) (fun frame stack => { frame with stack }) operation

/-- Carry out an operation on the arguments. -/
def onArguments {α : Type} (operation : Arguments → Except TrapKind (α × Arguments)) :
    Action Frame α :=
  Action.change (·.arguments) (fun frame arguments => { frame with arguments }) operation

/-- Carry out an operation on the local slots. -/
def onLocals {α : Type} (operation : Locals → Except TrapKind (α × Locals)) :
    Action Frame α :=
  Action.change (·.locals) (fun frame locals => { frame with locals }) operation

/-- Go on at another offset. -/
def jump (next : Nat) : Action Frame PUnit :=
  modify fun frame => { frame with pc := next }

/-- Push a value. -/
def push (value : Value) : Action Frame Unit :=
  onStack (Action.silent (·.push value))

/-- Push values, the last one ending on top. -/
def extend (values : List Value) : Action Frame Unit :=
  onStack (Action.silent (·.extend values))

/-- Push a copy of an argument. Room is looked for first. -/
def loadArg (slot : Nat) : Action Frame Unit := do
  Action.check (·.stack.ensureRoom 1)
  let value ← Action.check (·.arguments.read slot)
  push value

/-- Move an argument onto the stack. Room is looked for first. -/
def popArg (slot : Nat) : Action Frame Unit := do
  Action.check (·.stack.ensureRoom 1)
  let value ← onArguments (·.take slot)
  push value

/-- Declare a local slot. -/
def initLocal (kind : Kind) (slot : Nat) : Action Frame Unit :=
  onLocals (Action.silent (·.init slot kind))

/-- Move the top of the stack to a local slot, which is looked at first. -/
def popLocal (slot : Nat) : Action Frame Unit := do
  let value ← Action.check (·.stack.peek)
  Action.check (·.locals.checkWrite slot value.kind)
  let _ ← onStack (·.pop)
  onLocals (Action.silent (·.write slot value))

/-- Push a copy of a local slot. Room is looked for first. -/
def pushLocal (slot : Nat) : Action Frame Unit := do
  Action.check (·.stack.ensureRoom 1)
  let value ← Action.check (·.locals.read slot)
  push value

/-- Put a value in the place of the top of the stack. -/
def replaceTop (value : Value) : Action Frame Unit := do
  let _ ← onStack (·.replaceTop value)

/-- Read an element of a heap object. -/
def fetch (heap : Heap) (address : Address) (index : Nat) : Except TrapKind Value :=
  (heap.deref address index).mapError HeapError.trapKind

/-- Put an element of the object on top in the place of its reference. -/
def refSlot (heap : Heap) (slot : Nat) : Action Frame Unit := do
  let reference ← Action.check (·.stack.referenceBelow 0)
  let value ← Action.check fun _ => fetch heap reference.address slot
  replaceTop value

/-- The element number of a payload position, which must be a machine word and
leave room for the length in front. -/
def elementIndex (position : Int) : Except TrapKind Nat :=
  if 0 ≤ position ∧ position < OperandStack.maxWord then .ok (position.toNat + 1)
  else .error .indexOutOfRange

/-- The integer on top of the stack. -/
def topInteger (frame : Frame) : Except TrapKind Int :=
  match frame.stack.peek with
  | .error kind => .error kind
  | .ok top =>
    match top.toInt? with
    | some n => .ok n
    | none => .error .stackTypeMismatch

/-- Put the element at the position on top of the stack in the place of that
position and of the reference below it. -/
def pushArray (heap : Heap) : Action Frame Unit := do
  let position ← Action.check topInteger
  let reference ← Action.check (·.stack.referenceBelow 1)
  let index ← Action.check fun _ => elementIndex position
  let value ← Action.check fun _ => fetch heap reference.address index
  let _ ← onStack (·.popN 2)
  push value

/-- Put what a conversion makes of the top of the stack in its place. -/
def convert (conversion : Value → Except ConversionError Value) : Action Frame Unit := do
  let top ← Action.check (·.stack.peek)
  let value ← Action.check fun _ => (conversion top).mapError ConversionError.trapKind
  replaceTop value

/-- What an instruction does within the frame. Calls and returns, which concern
other frames as well, do nothing here. -/
def perform (heap : Heap) : Instruction → Action Frame Unit
  | .nop | .call _ | .ret => pure ()
  | .pushU8 value => push (.u8 value)
  | .loadArg slot => loadArg slot.toNat
  | .popArg slot => popArg slot.toNat
  | .initLocal kind slot => initLocal kind slot.toNat
  | .popLocal slot => popLocal slot.toNat
  | .pushLocal slot => pushLocal slot.toNat
  | .refSlot slot => refSlot heap slot.toNat
  | .pushArray => pushArray heap
  | .checkedConvert target => convert (·.convertChecked target)
  | .uncheckedConvert target => convert (·.convertUnchecked target)

/-! ## What the actions within a frame keep -/

/-- What becomes of a frame within its function: the function stays, and so do
the numbers of slots and the limit of the stack, which is not exceeded unless it
was before. -/
structure Kept (before after : Frame) : Prop where
  function : after.function = before.function
  arguments : after.arguments.length = before.arguments.length
  locals : after.locals.length = before.locals.length
  limit : after.stack.limit = before.stack.limit
  fits : before.stack.Fits → after.stack.Fits

theorem Kept.refl (frame : Frame) : Kept frame frame :=
  ⟨rfl, rfl, rfl, rfl, id⟩

theorem Kept.trans {before middle after : Frame}
    (h : Kept before middle) (h' : Kept middle after) : Kept before after where
  function := h'.function.trans h.function
  arguments := h'.arguments.trans h.arguments
  locals := h'.locals.trans h.locals
  limit := h'.limit.trans h.limit
  fits := h'.fits ∘ h.fits

/-- An action that comes to its end in a frame of the same shape. -/
def Keeps {α : Type} (action : Action Frame α) : Prop :=
  ∀ frame, Action.After action frame (fun _ after => Kept frame after) (fun _ _ => True)

section

variable {α β : Type}

theorem keeps_pure (a : α) : Keeps (pure a) := by
  intro frame
  exact Kept.refl frame

theorem keeps_check (test : Frame → Except TrapKind α) : Keeps (Action.check test) := by
  intro frame
  rw [Action.after_check]
  exact ⟨fun _ _ => Kept.refl frame, fun _ _ => trivial⟩

theorem keeps_bind {first : Action Frame α} {second : α → Action Frame β}
    (hfirst : Keeps first) (hsecond : ∀ a, Keeps (second a)) : Keeps (first >>= second) := by
  intro frame
  rw [Action.after_bind]
  refine (hfirst frame).imp (fun a middle hmiddle => ?_) fun _ _ _ => trivial
  exact (hsecond a middle).imp (fun _ _ hafter => hmiddle.trans hafter) fun _ _ _ => trivial

theorem keeps_onStack {operation : OperandStack → Except TrapKind (α × OperandStack)}
    (h : ∀ stack a after, operation stack = .ok (a, after) →
      after.limit = stack.limit ∧ (stack.Fits → after.Fits)) :
    Keeps (onStack operation) := by
  intro frame
  rw [onStack, Action.after_change]
  refine ⟨fun a stack hstack => ?_, fun _ _ => trivial⟩
  obtain ⟨hlimit, hfits⟩ := h _ _ _ hstack
  exact ⟨rfl, rfl, rfl, hlimit, hfits⟩

theorem keeps_onArguments {operation : Arguments → Except TrapKind (α × Arguments)}
    (h : ∀ arguments a after, operation arguments = .ok (a, after) →
      after.length = arguments.length) :
    Keeps (onArguments operation) := by
  intro frame
  rw [onArguments, Action.after_change]
  exact ⟨fun a _ h' => ⟨rfl, h _ _ _ h', rfl, rfl, id⟩, fun _ _ => trivial⟩

theorem keeps_onLocals {operation : Locals → Except TrapKind (α × Locals)}
    (h : ∀ locals a after, operation locals = .ok (a, after) → after.length = locals.length) :
    Keeps (onLocals operation) := by
  intro frame
  rw [onLocals, Action.after_change]
  exact ⟨fun a _ h' => ⟨rfl, rfl, h _ _ _ h', rfl, id⟩, fun _ _ => trivial⟩

end

theorem keeps_push (value : Value) : Keeps (push value) := by
  apply keeps_onStack
  intro stack _ after h
  obtain ⟨hroom, rfl⟩ := OperandStack.push_eq_ok.1 (Action.silent_eq_ok.1 h)
  exact ⟨rfl, fun _ => hroom⟩

theorem keeps_pop : Keeps (onStack (·.pop)) := by
  apply keeps_onStack
  intro stack top after h
  obtain ⟨hvalues, hlimit⟩ := OperandStack.pop_eq_ok.1 h
  refine ⟨hlimit, fun hfits => ?_⟩
  simp only [OperandStack.Fits, OperandStack.depth, hvalues, hlimit, List.length_cons] at hfits ⊢
  omega

theorem keeps_popN (n : Nat) : Keeps (onStack (·.popN n)) := by
  apply keeps_onStack
  intro stack values after h
  have hlimit : after.limit = stack.limit := by
    obtain ⟨-, -, rfl⟩ := OperandStack.popN_eq_ok.1 h
    rfl
  exact ⟨hlimit, fun hfits => hfits.popN h⟩

theorem keeps_replaceTop (value : Value) : Keeps (replaceTop value) := by
  refine keeps_bind (keeps_onStack ?_) fun _ => keeps_pure _
  intro stack top after h
  obtain ⟨rest, hvalues, rfl⟩ := OperandStack.replaceTop_eq_ok.1 h
  refine ⟨rfl, fun hfits => ?_⟩
  simpa [OperandStack.Fits, OperandStack.depth, hvalues] using hfits

theorem keeps_take (slot : Nat) : Keeps (onArguments (·.take slot)) := by
  apply keeps_onArguments
  intro arguments value after h
  obtain ⟨-, rfl⟩ := Arguments.take_eq_ok.1 h
  simp [Arguments.length]

theorem keeps_initLocal (kind : Kind) (slot : Nat) : Keeps (initLocal kind slot) := by
  apply keeps_onLocals
  intro locals _ after h
  obtain ⟨-, rfl⟩ := Locals.init_eq_ok.1 (Action.silent_eq_ok.1 h)
  simp [Locals.length]

theorem keeps_write (slot : Nat) (value : Value) :
    Keeps (onLocals (Action.silent (·.write slot value))) := by
  apply keeps_onLocals
  intro locals _ after h
  obtain ⟨-, rfl⟩ := Locals.write_eq_ok.1 (Action.silent_eq_ok.1 h)
  simp [Locals.length]

theorem keeps_convert (conversion : Value → Except ConversionError Value) :
    Keeps (convert conversion) :=
  keeps_bind (keeps_check _) fun _ => keeps_bind (keeps_check _) fun _ => keeps_replaceTop _

/-- Every instruction keeps the shape of the frame it is carried out in. -/
theorem keeps_perform (heap : Heap) (instruction : Instruction) :
    Keeps (perform heap instruction) := by
  cases instruction with
  | nop => exact keeps_pure _
  | pushU8 value => exact keeps_push _
  | loadArg slot =>
    exact keeps_bind (keeps_check _) fun _ => keeps_bind (keeps_check _) fun _ => keeps_push _
  | popArg slot =>
    exact keeps_bind (keeps_check _) fun _ => keeps_bind (keeps_take _) fun _ => keeps_push _
  | initLocal kind slot => exact keeps_initLocal _ _
  | popLocal slot =>
    refine keeps_bind (keeps_check _) fun value => keeps_bind (keeps_check _) fun _ => ?_
    exact keeps_bind keeps_pop fun _ => keeps_write _ _
  | pushLocal slot =>
    exact keeps_bind (keeps_check _) fun _ => keeps_bind (keeps_check _) fun _ => keeps_push _
  | refSlot slot =>
    exact keeps_bind (keeps_check _) fun _ => keeps_bind (keeps_check _) fun _ => keeps_replaceTop _
  | pushArray =>
    refine keeps_bind (keeps_check _) fun _ => keeps_bind (keeps_check _) fun _ => ?_
    refine keeps_bind (keeps_check _) fun _ => keeps_bind (keeps_check _) fun _ => ?_
    exact keeps_bind (keeps_popN _) fun _ => keeps_push _
  | checkedConvert target => exact keeps_convert _
  | uncheckedConvert target => exact keeps_convert _
  | call function => exact keeps_pure _
  | ret => exact keeps_pure _

end Frame

end TypedStack
