import TypedStack.Machine.Transition

/-!
# Actions that leave nothing behind

An action keeps what it has changed when it stops, so whether it leaves a trace
depends on the order of its parts. Checks may be followed by anything; a change
may only be followed by what cannot fail. Each instruction is built that way.
The one that needs to know more than it has looked at is the array read, which
takes two values off and pushes one: this cannot fail on a stack within its
limit, and can on a stack far beyond it.
-/

namespace TypedStack

namespace Action

variable {σ τ α β : Type} {state : σ}

/-- If the action stops, the state is what it was before. -/
def Atomic (action : Action σ α) (state : σ) : Prop :=
  After action state (fun _ _ => True) (fun _ after => after = state)

/-- The action does not stop. -/
def Succeeds (action : Action σ α) (state : σ) : Prop :=
  After action state (fun _ _ => True) (fun _ _ => False)

theorem succeeds_change
    {get : σ → τ} {put : σ → τ → σ} {operation : τ → Except TrapKind (α × τ)}
    (h : ∀ kind, operation (get state) ≠ .error kind) :
    Succeeds (change get put operation) state := by
  unfold Succeeds
  rw [after_change]
  exact ⟨fun _ _ _ => trivial, fun kind hkind => h kind hkind⟩

theorem atomic_pure (a : α) : Atomic (pure a) state :=
  trivial

theorem atomic_change
    (get : σ → τ) (put : σ → τ → σ) (operation : τ → Except TrapKind (α × τ)) :
    Atomic (change get put operation) state := by
  unfold Atomic
  rw [after_change]
  exact ⟨fun _ _ _ => trivial, fun _ _ => rfl⟩

theorem atomic_check_bind
    {test : σ → Except TrapKind β} {rest : β → Action σ α}
    (h : ∀ b, test state = .ok b → Atomic (rest b) state) :
    Atomic (check test >>= rest) state := by
  unfold Atomic
  rw [after_bind, after_check]
  exact ⟨h, fun _ _ => rfl⟩

/-- There is no way back behind a change, so the rest has to succeed. -/
theorem atomic_change_bind
    {get : σ → τ} {put : σ → τ → σ} {operation : τ → Except TrapKind (β × τ)}
    {rest : β → Action σ α}
    (h : ∀ b part, operation (get state) = .ok (b, part) →
      Succeeds (rest b) (put state part)) :
    Atomic (change get put operation >>= rest) state := by
  unfold Atomic
  rw [after_bind, after_change]
  refine ⟨fun b part hpart => ?_, fun _ _ => rfl⟩
  have hrest := h b part hpart
  exact hrest.imp (fun _ _ _ => trivial) fun _ _ hfalse => hfalse.elim

end Action

namespace Frame

open TypedStack.Action

variable {frame : Frame}

theorem succeeds_push
    (value : Value) (hroom : frame.stack.depth < frame.stack.limit) :
    Succeeds (push value) frame := by
  apply succeeds_change
  intro kind hkind
  have hfull := (OperandStack.push_eq_error.1 (silent_eq_error.1 hkind)).1
  omega

theorem succeeds_write
    {slot : Nat} {value : Value}
    (hwrite : frame.locals.checkWrite slot value.kind = .ok ()) :
    Succeeds (onLocals (silent (·.write slot value))) frame := by
  apply succeeds_change
  intro kind hkind
  have hfails := silent_eq_error.1 hkind
  simp [Locals.write, hwrite, Except.map] at hfails

theorem atomic_replaceTop (value : Value) : Atomic (replaceTop value) frame :=
  atomic_change_bind fun _ _ _ => trivial

theorem atomic_convert (conversion : Value → Except ConversionError Value) :
    Atomic (convert conversion) frame := by
  refine atomic_check_bind fun _ _ => atomic_check_bind fun value _ => ?_
  exact atomic_replaceTop value

theorem atomic_popArg (slot : Nat) : Atomic (popArg slot) frame := by
  refine atomic_check_bind fun _ hroom => atomic_change_bind fun value _ _ => ?_
  -- taking the argument has not touched the stack
  exact succeeds_push value (OperandStack.ensureRoom_eq_ok.1 hroom)

theorem atomic_popLocal (slot : Nat) : Atomic (popLocal slot) frame := by
  refine atomic_check_bind fun value _ => atomic_check_bind fun _ hwrite => ?_
  refine atomic_change_bind fun _ _ _ => ?_
  exact succeeds_write hwrite

theorem atomic_pushArray (heap : Heap) (hfits : frame.stack.Fits) :
    Atomic (pushArray heap) frame := by
  refine atomic_check_bind fun _ _ => atomic_check_bind fun _ _ => ?_
  refine atomic_check_bind fun _ _ => atomic_check_bind fun value _ => ?_
  refine atomic_change_bind fun _ stack hpopped => succeeds_push value ?_
  obtain ⟨hdepth, -, rfl⟩ := OperandStack.popN_eq_ok.1 hpopped
  -- two values less than a number within the limit leave room for one
  unfold OperandStack.Fits at hfits
  simp only [OperandStack.depth, List.length_drop] at hdepth hfits ⊢
  omega

/-- On a stack within its limit, no instruction leaves a trace in the frame when
it stops. -/
theorem atomic_perform
    (heap : Heap) (instruction : Instruction) (hfits : frame.stack.Fits) :
    Atomic (perform heap instruction) frame := by
  cases instruction with
  | nop => exact atomic_pure _
  | pushU8 value => exact atomic_change _ _ _
  | loadArg slot =>
    refine atomic_check_bind fun _ _ => atomic_check_bind fun _ _ => ?_
    exact atomic_change _ _ _
  | popArg slot => exact atomic_popArg _
  | initLocal kind slot => exact atomic_change _ _ _
  | popLocal slot => exact atomic_popLocal _
  | pushLocal slot =>
    refine atomic_check_bind fun _ _ => atomic_check_bind fun _ _ => ?_
    exact atomic_change _ _ _
  | refSlot slot =>
    refine atomic_check_bind fun _ _ => atomic_check_bind fun value _ => ?_
    exact atomic_replaceTop value
  | pushArray => exact atomic_pushArray heap hfits
  | checkedConvert target => exact atomic_convert _
  | uncheckedConvert target => exact atomic_convert _
  | call function => exact atomic_pure _
  | ret => exact atomic_pure _

end Frame

namespace Machine

open TypedStack.Action

/-- An instruction that stops leaves the whole machine as it was, provided that
the innermost stack is within its limit. -/
theorem atomic_execute
    {machine : Machine} (hfits : machine.frame.stack.Fits) :
    Atomic execute machine := by
  refine after_execute (fun _ => rfl) (fun _ _ _ => rfl) (fun _ _ _ _ _ => rfl) ?_
  intro function instruction next _
  apply after_dispatch
  · exact fun _ => rfl
  · intro index _
    exact after_call (fun _ => rfl) (fun _ _ _ => rfl) (fun _ _ _ _ => rfl)
      fun _ _ _ _ _ _ => trivial
  · intro _
    exact after_ret (fun _ => rfl) (fun _ _ _ => rfl) (fun _ _ _ _ _ _ _ => rfl)
      (fun _ _ _ _ _ _ _ _ => trivial) fun _ _ _ _ => trivial
  · intro _ _
    have hatomic := Frame.atomic_perform machine.heap instruction hfits
    refine hatomic.imp (fun _ _ _ => trivial) ?_
    rintro _ _ rfl
    rfl

end Machine

end TypedStack
