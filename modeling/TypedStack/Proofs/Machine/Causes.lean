import TypedStack.Machine.Frame
import TypedStack.Proofs.Heap.Consistency

/-!
# Causes of traps within a frame

An instruction that works on one frame stops for the values it finds there: too
few or too many of them, of another kind, consumed, uninitialized, dangling or out
of range. It never finds fault with the code, which is left to decoding and to
calls, and it finds a dangling reference only where the stack has one.
-/

namespace TypedStack

/-- Whether a cause lies in the code and not in the values that it works on. -/
def TrapKind.isInCode : TrapKind → Bool
  | invalidInstruction | invalidFunction | codeOverrun => true
  | _ => false

namespace Frame

/-- An action that stops only for the values that it finds. -/
def SparesCode {α : Type} (action : Action Frame α) : Prop :=
  ∀ frame, Action.After action frame (fun _ _ => True) (fun kind _ => kind.isInCode = false)

/-- What an instruction can stop for in a frame: a fault of the values, and a
dangling reference only if one is on the stack. -/
structure Cause (heap : Heap) (frame : Frame) (kind : TrapKind) : Prop where
  isInCode_eq : kind.isInCode = false
  dangling : kind = .danglingReference →
    ∃ reference, .ref reference ∈ frame.stack.values ∧ heap.object? reference.address = none

/-- If the action stops, it is for one of the causes. -/
def StopsFor {α : Type} (causes : TrapKind → Prop) (action : Action Frame α) (frame : Frame) :
    Prop :=
  Action.After action frame (fun _ _ => True) (fun kind _ => causes kind)

section

variable {causes : TrapKind → Prop} {frame : Frame} {α β τ : Type}

theorem stopsFor_check_bind
    {test : Frame → Except TrapKind β} {rest : β → Action Frame α}
    (htest : ∀ kind, test frame = .error kind → causes kind)
    (hrest : ∀ b, test frame = .ok b → StopsFor causes (rest b) frame) :
    StopsFor causes (Action.check test >>= rest) frame := by
  unfold StopsFor
  rw [Action.after_bind, Action.after_check]
  exact ⟨hrest, htest⟩

variable {get : Frame → τ} {put : Frame → τ → Frame}

theorem stopsFor_change
    {operation : τ → Except TrapKind (α × τ)}
    (h : ∀ kind, operation (get frame) = .error kind → causes kind) :
    StopsFor causes (Action.change get put operation) frame := by
  unfold StopsFor
  rw [Action.after_change]
  exact ⟨fun _ _ _ => trivial, h⟩

theorem stopsFor_change_bind
    {operation : τ → Except TrapKind (β × τ)} {rest : β → Action Frame α}
    (h : ∀ kind, operation (get frame) = .error kind → causes kind)
    (hrest : ∀ b after, StopsFor causes (rest b) after) :
    StopsFor causes (Action.change get put operation >>= rest) frame := by
  unfold StopsFor
  rw [Action.after_bind, Action.after_change]
  exact ⟨fun b part _ => hrest b (put frame part), h⟩

end

section

-- the causes are those of `frame`, whichever frame an action has made of it by then
variable {heap : Heap} {frame after : Frame} {kind : TrapKind}

theorem Cause.of_ne (hcode : kind.isInCode = false) (hkind : kind ≠ .danglingReference) :
    Cause heap frame kind :=
  ⟨hcode, fun h => absurd h hkind⟩

theorem cause_of_ensureRoom {stack : OperandStack} {n : Nat}
    (h : stack.ensureRoom n = .error kind) : Cause heap frame kind := by
  obtain ⟨-, rfl⟩ := OperandStack.ensureRoom_eq_error.1 h
  exact .of_ne rfl (by decide)

theorem cause_of_below {stack : OperandStack} {n : Nat} (h : stack.below n = .error kind) :
    Cause heap frame kind := by
  obtain ⟨-, rfl⟩ := OperandStack.below_eq_error.1 h
  exact .of_ne rfl (by decide)

theorem cause_of_referenceBelow {stack : OperandStack} {n : Nat}
    (h : stack.referenceBelow n = .error kind) : Cause heap frame kind := by
  obtain ⟨-, rfl⟩ | ⟨_, -, -, rfl⟩ := OperandStack.referenceBelow_eq_error.1 h
  · exact .of_ne rfl (by decide)
  · exact .of_ne rfl (by decide)

theorem cause_of_topInteger (h : after.topInteger = .error kind) : Cause heap frame kind := by
  unfold topInteger at h
  split at h
  · rename_i hpeek
    cases h
    exact cause_of_below hpeek
  · split at h
    · cases h
    · cases h
      exact .of_ne rfl (by decide)

theorem cause_of_argument {arguments : Arguments} {slot : Nat}
    (h : arguments.read slot = .error kind) : Cause heap frame kind := by
  obtain ⟨-, rfl⟩ | ⟨-, rfl⟩ := Arguments.read_eq_error.1 h
  · exact .of_ne rfl (by decide)
  · exact .of_ne rfl (by decide)

theorem cause_of_local {locals : Locals} {slot : Nat} (h : locals.read slot = .error kind) :
    Cause heap frame kind := by
  obtain ⟨-, rfl⟩ | ⟨-, rfl⟩ := Locals.read_eq_error.1 h
  · exact .of_ne rfl (by decide)
  · exact .of_ne rfl (by decide)

theorem cause_of_checkWrite {locals : Locals} {slot : Nat} {written : Kind}
    (h : locals.checkWrite slot written = .error kind) : Cause heap frame kind := by
  obtain ⟨-, rfl⟩ | ⟨_, -, -, rfl⟩ := Locals.checkWrite_eq_error.1 h
  · exact .of_ne rfl (by decide)
  · exact .of_ne rfl (by decide)

theorem cause_of_elementIndex {position : Int} (h : elementIndex position = .error kind) :
    Cause heap frame kind := by
  obtain ⟨-, rfl⟩ := OperandStack.guard_eq_error.1 h
  exact .of_ne rfl (by decide)

theorem cause_of_conversion {result : Except ConversionError Value}
    (h : result.mapError ConversionError.trapKind = .error kind) : Cause heap frame kind := by
  cases result with
  | error e =>
    cases h
    cases e
    · exact .of_ne rfl (by simp [ConversionError.trapKind])
    · exact .of_ne rfl (by simp [ConversionError.trapKind])
  | ok value => cases h

/-- The heap has nothing at the address of a reference on the stack, or the object
there is too short. -/
theorem cause_of_fetch {reference : Reference} {index : Nat}
    (hmem : .ref reference ∈ frame.stack.values)
    (h : fetch heap reference.address index = .error kind) : Cause heap frame kind := by
  unfold fetch Heap.deref at h
  cases hobject : heap.object reference.address with
  | error e =>
    obtain ⟨hnone, rfl⟩ := Heap.object_eq_error.1 hobject
    rw [hobject] at h
    cases h
    exact ⟨rfl, fun _ => ⟨reference, hmem, hnone⟩⟩
  | ok object =>
    cases hvalue : object.get? index with
    | none =>
      simp only [hobject, hvalue] at h
      cases h
      exact .of_ne rfl (by simp [HeapError.trapKind])
    | some value =>
      simp only [hobject, hvalue] at h
      cases h

theorem stopsFor_push (value : Value) : StopsFor (Cause heap frame) (push value) after := by
  apply stopsFor_change
  intro kind h
  obtain ⟨-, rfl⟩ := OperandStack.push_eq_error.1 (Action.silent_eq_error.1 h)
  exact .of_ne rfl (by decide)

theorem stopsFor_replaceTop (value : Value) :
    StopsFor (Cause heap frame) (replaceTop value) after := by
  refine stopsFor_change_bind ?_ fun _ _ => trivial
  intro kind h
  obtain ⟨-, rfl⟩ := OperandStack.replaceTop_eq_error.1 h
  exact .of_ne rfl (by decide)

theorem stopsFor_loadArg (slot : Nat) : StopsFor (Cause heap frame) (loadArg slot) frame := by
  refine stopsFor_check_bind (fun _ h => cause_of_ensureRoom h) fun _ _ => ?_
  exact stopsFor_check_bind (fun _ h => cause_of_argument h) fun value _ => stopsFor_push value

theorem stopsFor_popArg (slot : Nat) : StopsFor (Cause heap frame) (popArg slot) frame := by
  refine stopsFor_check_bind (fun _ h => cause_of_ensureRoom h) fun _ _ => ?_
  refine stopsFor_change_bind ?_ fun value _ => stopsFor_push value
  exact fun _ h => cause_of_argument (Arguments.take_eq_error.1 h)

theorem stopsFor_initLocal (kind : Kind) (slot : Nat) :
    StopsFor (Cause heap frame) (initLocal kind slot) frame := by
  apply stopsFor_change
  intro cause h
  obtain ⟨-, rfl⟩ := Locals.init_eq_error.1 (Action.silent_eq_error.1 h)
  exact .of_ne rfl (by decide)

theorem stopsFor_popLocal (slot : Nat) : StopsFor (Cause heap frame) (popLocal slot) frame := by
  refine stopsFor_check_bind (fun _ h => cause_of_below h) fun value _ => ?_
  refine stopsFor_check_bind (fun _ h => cause_of_checkWrite h) fun _ _ => ?_
  refine stopsFor_change_bind ?_ fun _ _ => stopsFor_change ?_
  · intro kind h
    obtain ⟨-, rfl⟩ := OperandStack.pop_eq_error.1 h
    exact .of_ne rfl (by decide)
  · exact fun _ h => cause_of_checkWrite (Locals.write_eq_error.1 (Action.silent_eq_error.1 h))

theorem stopsFor_pushLocal (slot : Nat) : StopsFor (Cause heap frame) (pushLocal slot) frame := by
  refine stopsFor_check_bind (fun _ h => cause_of_ensureRoom h) fun _ _ => ?_
  exact stopsFor_check_bind (fun _ h => cause_of_local h) fun value _ => stopsFor_push value

theorem stopsFor_refSlot (slot : Nat) : StopsFor (Cause heap frame) (refSlot heap slot) frame := by
  refine stopsFor_check_bind (fun _ h => cause_of_referenceBelow h) fun reference href => ?_
  have hmem := OperandStack.mem_of_referenceBelow href
  exact stopsFor_check_bind (fun _ h => cause_of_fetch hmem h) fun value _ =>
    stopsFor_replaceTop value

theorem stopsFor_pushArray : StopsFor (Cause heap frame) (pushArray heap) frame := by
  refine stopsFor_check_bind (fun _ h => cause_of_topInteger h) fun _ _ => ?_
  refine stopsFor_check_bind (fun _ h => cause_of_referenceBelow h) fun reference href => ?_
  have hmem := OperandStack.mem_of_referenceBelow href
  refine stopsFor_check_bind (fun _ h => cause_of_elementIndex h) fun _ _ => ?_
  refine stopsFor_check_bind (fun _ h => cause_of_fetch hmem h) fun value _ => ?_
  refine stopsFor_change_bind ?_ fun _ _ => stopsFor_push value
  intro kind h
  obtain ⟨-, rfl⟩ := OperandStack.popN_eq_error.1 h
  exact .of_ne rfl (by decide)

theorem stopsFor_convert (conversion : Value → Except ConversionError Value) :
    StopsFor (Cause heap frame) (convert conversion) frame := by
  refine stopsFor_check_bind (fun _ h => cause_of_below h) fun top _ => ?_
  exact stopsFor_check_bind (fun _ h => cause_of_conversion h) fun value _ =>
    stopsFor_replaceTop value

end

/-- What the instructions within a frame can stop for. -/
theorem stopsFor_perform (heap : Heap) (instruction : Instruction) (frame : Frame) :
    StopsFor (Cause heap frame) (perform heap instruction) frame := by
  cases instruction with
  | nop | call _ | ret => trivial
  | pushU8 value => exact stopsFor_push _
  | loadArg slot => exact stopsFor_loadArg _
  | popArg slot => exact stopsFor_popArg _
  | initLocal kind slot => exact stopsFor_initLocal _ _
  | popLocal slot => exact stopsFor_popLocal _
  | pushLocal slot => exact stopsFor_pushLocal _
  | refSlot slot => exact stopsFor_refSlot _
  | pushArray => exact stopsFor_pushArray
  | checkedConvert target => exact stopsFor_convert _
  | uncheckedConvert target => exact stopsFor_convert _

/-- An instruction within a frame never finds fault with the code. -/
theorem sparesCode_perform (heap : Heap) (instruction : Instruction) :
    SparesCode (perform heap instruction) :=
  fun frame => (stopsFor_perform heap instruction frame).imp (fun _ _ h => h)
    fun _ _ h => h.isInCode_eq

end Frame

end TypedStack
