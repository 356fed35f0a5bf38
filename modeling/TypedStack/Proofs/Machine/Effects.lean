import TypedStack.Machine.Transition

/-!
# What instructions do to a frame apart from its values

How many values an instruction needs on the stack, how many there are afterwards,
and which arguments are consumed by it does not depend on the values. `Uses` says
this of an action, together with what the first number is for: on a stack that
holds as many values, the action does not stop for want of some. The three carry
over from the parts of an action to the whole, so they are found for an
instruction by adding up.
-/

namespace TypedStack

/-- Whether a cause is a wrong number of values on the stack. -/
def TrapKind.isMiscount : TrapKind → Bool
  | stackUnderflow | returnArityMismatch => true
  | stackOverflow | stackTypeMismatch | invalidSlot | slotAlreadyConsumed => false
  | uninitializedRead | danglingReference | indexOutOfRange | conversionOverflow => false
  | invalidInstruction | invalidFunction | codeOverrun => false

namespace Instruction

/-- By how many values the stack is deeper once the instruction has been carried
out. A call counts with the return from it. -/
def effect (program : Program) : Instruction → Int
  | pushU8 _ | loadArg _ | popArg _ | pushLocal _ => 1
  | popLocal _ | pushArray => -1
  | nop | initLocal _ _ | refSlot _ | checkedConvert _ | uncheckedConvert _ | ret => 0
  | call index =>
    match program.function? index with
    | some callee => callee.returns.toNat - callee.arity.toNat
    | none => 0

/-- Which arguments are consumed once the instruction has been carried out. -/
def consume : Instruction → List Bool → List Bool
  | popArg slot => (·.set slot.toNat true)
  | nop | pushU8 _ | loadArg _ | pushLocal _ | popLocal _ | pushArray | initLocal _ _ => id
  | refSlot _ | checkedConvert _ | uncheckedConvert _ | call _ | ret => id

end Instruction

/-- Which arguments are consumed. -/
def Arguments.consumed (arguments : Arguments) : List Bool :=
  arguments.slots.map (·.consumed)

theorem Arguments.consumed_ofValues (values : List Value) :
    (ofValues values).consumed = List.replicate values.length false := by
  simp [ofValues, consumed, Function.comp_def, List.map_const']

namespace Frame

open TypedStack.Action

/-- On a stack with `inputs` values at least, the action does not stop for a wrong
number of values, and if it comes to its end, the stack is deeper by `effect` and
the consumed arguments have changed as given. -/
def Uses {α : Type} (inputs : Nat) (effect : Int) (consume : List Bool → List Bool)
    (action : Action Frame α) : Prop :=
  ∀ frame, inputs ≤ frame.stack.depth →
    After action frame
      (fun _ after => (after.stack.depth : Int) = frame.stack.depth + effect ∧
        after.arguments.consumed = consume frame.arguments.consumed)
      (fun kind _ => kind.isMiscount = false)

section

variable {α β : Type} {inputs : Nat} {effect : Int} {consume : List Bool → List Bool}

theorem uses_pure (a : α) : Uses inputs 0 id (pure a) := by
  intro frame _
  exact ⟨(Int.add_zero _).symm, rfl⟩

theorem uses_check {test : Frame → Except TrapKind α}
    (h : ∀ frame kind, inputs ≤ frame.stack.depth → test frame = .error kind →
      kind.isMiscount = false) :
    Uses inputs 0 id (check test) := by
  intro frame hinputs
  rw [after_check]
  exact ⟨fun _ _ => ⟨(Int.add_zero _).symm, rfl⟩, fun kind hkind => h frame kind hinputs hkind⟩

/-- The second part finds what the first one has left on the stack. -/
theorem uses_bind
    {inputs' : Nat} {effect' : Int} {consume' : List Bool → List Bool}
    {first : Action Frame α} {second : α → Action Frame β}
    (hfirst : Uses inputs effect consume first)
    (hsecond : ∀ a, Uses inputs' effect' consume' (second a))
    (hinputs : (inputs' : Int) ≤ inputs + effect) :
    Uses inputs (effect + effect') (consume' ∘ consume) (first >>= second) := by
  intro frame hframe
  rw [after_bind]
  refine (hfirst frame hframe).imp (fun a middle hmiddle => ?_) fun _ _ hkind => hkind
  obtain ⟨hdepth, hconsumed⟩ := hmiddle
  refine (hsecond a middle (by omega)).imp (fun _ after hafter => ?_) fun _ _ hkind => hkind
  obtain ⟨hdepth', hconsumed'⟩ := hafter
  exact ⟨by omega, by rw [hconsumed', hconsumed, Function.comp_apply]⟩

/-- A check before an action. -/
theorem uses_check_bind {test : Frame → Except TrapKind α} {rest : α → Action Frame β}
    (htest : ∀ frame kind, inputs ≤ frame.stack.depth → test frame = .error kind →
      kind.isMiscount = false)
    (hrest : ∀ a, Uses inputs effect consume (rest a)) :
    Uses inputs effect consume (check test >>= rest) := by
  have hboth := uses_bind (uses_check htest) hrest (by omega)
  rwa [Int.zero_add, Function.comp_id] at hboth

theorem uses_onStack {operation : OperandStack → Except TrapKind (α × OperandStack)}
    (hdone : ∀ stack a after, inputs ≤ stack.depth → operation stack = .ok (a, after) →
      (after.depth : Int) = stack.depth + effect)
    (hstopped : ∀ stack kind, inputs ≤ stack.depth → operation stack = .error kind →
      kind.isMiscount = false) :
    Uses inputs effect id (onStack operation) := by
  intro frame hinputs
  rw [onStack, after_change]
  exact ⟨fun a stack hstack => ⟨hdone _ a stack hinputs hstack, rfl⟩,
    fun kind hkind => hstopped _ kind hinputs hkind⟩

theorem uses_onLocals {operation : Locals → Except TrapKind (α × Locals)}
    (h : ∀ locals kind, operation locals = .error kind → kind.isMiscount = false) :
    Uses inputs 0 id (onLocals operation) := by
  intro frame _
  rw [onLocals, after_change]
  exact ⟨fun _ _ _ => ⟨(Int.add_zero _).symm, rfl⟩, fun kind hkind => h _ kind hkind⟩

end

/-! ## Changes of the stack and the arguments -/

theorem uses_push (value : Value) : Uses 0 1 id (push value) := by
  apply uses_onStack
  · intro stack _ after _ h
    obtain ⟨-, rfl⟩ := OperandStack.push_eq_ok.1 (silent_eq_ok.1 h)
    simp [OperandStack.depth]
  · intro stack kind _ h
    obtain ⟨-, rfl⟩ := OperandStack.push_eq_error.1 (silent_eq_error.1 h)
    rfl

theorem uses_pop : Uses 1 (-1) id (onStack (·.pop)) := by
  apply uses_onStack
  · intro stack top after _ h
    obtain ⟨hvalues, -⟩ := OperandStack.pop_eq_ok.1 h
    simp only [OperandStack.depth, hvalues, List.length_cons]
    omega
  · intro stack kind hdepth h
    obtain ⟨hvalues, -⟩ := OperandStack.pop_eq_error.1 h
    simp [OperandStack.depth, hvalues] at hdepth

theorem uses_popN (n : Nat) : Uses n (-n) id (onStack (·.popN n)) := by
  apply uses_onStack
  · intro stack values after hdepth h
    obtain ⟨-, -, rfl⟩ := OperandStack.popN_eq_ok.1 h
    simp only [OperandStack.depth, List.length_drop] at hdepth ⊢
    omega
  · intro stack kind hdepth h
    have hshort := (OperandStack.popN_eq_error.1 h).1
    omega

theorem uses_replaceTop (value : Value) : Uses 1 0 id (replaceTop value) := by
  have hreplace : Uses 1 0 id (onStack (·.replaceTop value)) := by
    apply uses_onStack
    · intro stack top after _ h
      obtain ⟨rest, hvalues, rfl⟩ := OperandStack.replaceTop_eq_ok.1 h
      simp [OperandStack.depth, hvalues]
    · intro stack kind hdepth h
      obtain ⟨hvalues, -⟩ := OperandStack.replaceTop_eq_error.1 h
      simp [OperandStack.depth, hvalues] at hdepth
  have hdone : Uses 0 0 id (pure () : Action Frame Unit) := uses_pure ()
  exact uses_bind hreplace (fun _ => hdone) (by decide)

theorem miscount_of_argument {arguments : Arguments} {slot : Nat} {kind : TrapKind}
    (h : arguments.read slot = .error kind) : kind.isMiscount = false := by
  obtain ⟨-, rfl⟩ | ⟨-, rfl⟩ := Arguments.read_eq_error.1 h
  · rfl
  · rfl

theorem uses_take (slot : Nat) : Uses 0 0 (·.set slot true) (onArguments (·.take slot)) := by
  intro frame _
  rw [onArguments, after_change]
  constructor
  · intro value arguments h
    obtain ⟨-, rfl⟩ := Arguments.take_eq_ok.1 h
    exact ⟨(Int.add_zero _).symm, by simp [Arguments.consumed, List.map_set]⟩
  · exact fun kind h => miscount_of_argument (Arguments.take_eq_error.1 h)

/-! ## Checks -/

section

variable {kind : TrapKind} {stack : OperandStack} {n : Nat}

theorem miscount_of_ensureRoom (h : stack.ensureRoom n = .error kind) :
    kind.isMiscount = false := by
  obtain ⟨-, rfl⟩ := OperandStack.ensureRoom_eq_error.1 h
  rfl

theorem miscount_of_below (hdepth : n < stack.depth) (h : stack.below n = .error kind) :
    kind.isMiscount = false := by
  have hshort := (OperandStack.below_eq_error.1 h).1
  omega

theorem miscount_of_referenceBelow
    (hdepth : n < stack.depth) (h : stack.referenceBelow n = .error kind) :
    kind.isMiscount = false := by
  obtain ⟨hshort, -⟩ | ⟨_, -, -, rfl⟩ := OperandStack.referenceBelow_eq_error.1 h
  · omega
  · rfl

theorem miscount_of_topInteger
    {frame : Frame} (hdepth : 0 < frame.stack.depth) (h : frame.topInteger = .error kind) :
    kind.isMiscount = false := by
  unfold topInteger at h
  split at h
  · rename_i hpeek
    cases h
    exact miscount_of_below hdepth hpeek
  · split at h
    · cases h
    · cases h
      rfl

theorem miscount_of_elementIndex {position : Int} (h : elementIndex position = .error kind) :
    kind.isMiscount = false := by
  obtain ⟨-, rfl⟩ := OperandStack.guard_eq_error.1 h
  rfl

theorem miscount_of_local {locals : Locals} {slot : Nat} (h : locals.read slot = .error kind) :
    kind.isMiscount = false := by
  obtain ⟨-, rfl⟩ | ⟨-, rfl⟩ := Locals.read_eq_error.1 h
  · rfl
  · rfl

theorem miscount_of_checkWrite {locals : Locals} {slot : Nat} {written : Kind}
    (h : locals.checkWrite slot written = .error kind) : kind.isMiscount = false := by
  obtain ⟨-, rfl⟩ | ⟨_, -, -, rfl⟩ := Locals.checkWrite_eq_error.1 h
  · rfl
  · rfl

theorem miscount_of_fetch {heap : Heap} {address : Address} {index : Nat}
    (h : fetch heap address index = .error kind) : kind.isMiscount = false := by
  unfold fetch at h
  cases hderef : heap.deref address index with
  | ok value =>
    rw [hderef] at h
    cases h
  | error e =>
    rw [hderef] at h
    cases h
    cases e <;> rfl

theorem miscount_of_conversion {result : Except ConversionError Value}
    (h : result.mapError ConversionError.trapKind = .error kind) : kind.isMiscount = false := by
  cases result with
  | ok value => cases h
  | error e =>
    cases h
    cases e <;> rfl

end

/-! ## Instructions -/

theorem uses_loadArg (slot : Nat) : Uses 0 1 id (loadArg slot) := by
  refine uses_check_bind (fun _ _ _ h => miscount_of_ensureRoom h) fun _ => ?_
  exact uses_check_bind (fun _ _ _ h => miscount_of_argument h) fun value => uses_push value

theorem uses_popArg (slot : Nat) : Uses 0 1 (·.set slot true) (popArg slot) := by
  refine uses_check_bind (fun _ _ _ h => miscount_of_ensureRoom h) fun _ => ?_
  exact uses_bind (uses_take slot) (fun value => uses_push value) (by decide)

theorem uses_initLocal (kind : Kind) (slot : Nat) : Uses 0 0 id (initLocal kind slot) := by
  apply uses_onLocals
  intro locals cause h
  obtain ⟨-, rfl⟩ := Locals.init_eq_error.1 (silent_eq_error.1 h)
  rfl

theorem uses_popLocal (slot : Nat) : Uses 1 (-1) id (popLocal slot) := by
  refine uses_check_bind (fun _ _ hdepth h => miscount_of_below hdepth h) fun value => ?_
  refine uses_check_bind (fun _ _ _ h => miscount_of_checkWrite h) fun _ => ?_
  have hwrite : Uses 0 0 id (onLocals (silent (·.write slot value))) :=
    uses_onLocals fun _ _ h =>
      miscount_of_checkWrite (Locals.write_eq_error.1 (silent_eq_error.1 h))
  exact uses_bind uses_pop (fun _ => hwrite) (by decide)

theorem uses_pushLocal (slot : Nat) : Uses 0 1 id (pushLocal slot) := by
  refine uses_check_bind (fun _ _ _ h => miscount_of_ensureRoom h) fun _ => ?_
  exact uses_check_bind (fun _ _ _ h => miscount_of_local h) fun value => uses_push value

theorem uses_refSlot (heap : Heap) (slot : Nat) : Uses 1 0 id (refSlot heap slot) := by
  refine uses_check_bind (fun _ _ hdepth h => miscount_of_referenceBelow hdepth h) fun _ => ?_
  exact uses_check_bind (fun _ _ _ h => miscount_of_fetch h) fun value => uses_replaceTop value

theorem uses_pushArray (heap : Heap) : Uses 2 (-1) id (pushArray heap) := by
  refine uses_check_bind (fun _ _ hdepth h => miscount_of_topInteger (by omega) h) fun _ => ?_
  refine uses_check_bind (fun _ _ hdepth h => miscount_of_referenceBelow hdepth h) fun _ => ?_
  refine uses_check_bind (fun _ _ _ h => miscount_of_elementIndex h) fun _ => ?_
  refine uses_check_bind (fun _ _ _ h => miscount_of_fetch h) fun value => ?_
  exact uses_bind (uses_popN 2) (fun _ => uses_push value) (by decide)

theorem uses_convert (conversion : Value → Except ConversionError Value) :
    Uses 1 0 id (convert conversion) := by
  refine uses_check_bind (fun _ _ hdepth h => miscount_of_below hdepth h) fun _ => ?_
  exact uses_check_bind (fun _ _ _ h => miscount_of_conversion h) fun value =>
    uses_replaceTop value

/-- The inputs that are looked for before an instruction within a frame are those
that it uses. -/
theorem uses_perform
    (program : Program) (heap : Heap) {instruction : Instruction} (hlocal : instruction.isLocal) :
    Uses instruction.stackInputs (instruction.effect program) instruction.consume
      (perform heap instruction) := by
  cases instruction with
  | nop => exact uses_pure _
  | pushU8 value => exact uses_push _
  | loadArg slot => exact uses_loadArg _
  | popArg slot => exact uses_popArg _
  | initLocal kind slot => exact uses_initLocal _ _
  | popLocal slot => exact uses_popLocal _
  | pushLocal slot => exact uses_pushLocal _
  | refSlot slot => exact uses_refSlot heap _
  | pushArray => exact uses_pushArray heap
  | checkedConvert target => exact uses_convert _
  | uncheckedConvert target => exact uses_convert _
  | call index => cases hlocal
  | ret => cases hlocal

end Frame

end TypedStack
