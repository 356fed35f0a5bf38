import TypedStack.Proofs.Heap.Relocation
import TypedStack.Proofs.Machine.References

/-!
# Runs depend on the reachable heap only

No instruction looks at an address except to read from the heap there. So a run
can be moved: if the references that can be reached from an activation are
mirrored in another heap, then the moved activation runs there through the moved
states, and comes to the moved outcome. Objects that cannot be reached do not
matter, and neither do the addresses of those that can.

Moving a frame commutes with each operation on it, hence with each instruction,
with each transition, and with each cause for which there is none.
-/

namespace TypedStack

/-! ## Stacks and slots -/

namespace OperandStack

def relocate (ρ : Address → Address) (stack : OperandStack) : OperandStack :=
  ⟨stack.limit, stack.values.map (Value.relocate ρ)⟩

variable {ρ : Address → Address} {stack : OperandStack} {value : Value}

@[simp] theorem limit_relocate : (stack.relocate ρ).limit = stack.limit :=
  rfl

@[simp] theorem depth_relocate : (stack.relocate ρ).depth = stack.depth := by
  simp [depth, relocate]

@[simp] theorem empty_relocate (limit : Nat) : (empty limit).relocate ρ = empty limit :=
  rfl

@[simp] theorem toList_relocate :
    (stack.relocate ρ).toList = stack.toList.map (Value.relocate ρ) := by
  simp [toList, relocate]

theorem ensureRoom_relocate (n : Nat) : (stack.relocate ρ).ensureRoom n = stack.ensureRoom n := by
  simp [ensureRoom]

theorem push_relocate :
    (stack.relocate ρ).push (value.relocate ρ) = (stack.push value).map (relocate ρ) := by
  rw [push, push, map_guard, depth_relocate, limit_relocate]
  rfl

theorem pop_relocate :
    (stack.relocate ρ).pop = stack.pop.map (Prod.map (Value.relocate ρ) (relocate ρ)) := by
  obtain ⟨limit, values⟩ := stack
  cases values <;> rfl

theorem replaceTop_relocate :
    (stack.relocate ρ).replaceTop (value.relocate ρ) =
      (stack.replaceTop value).map (Prod.map (Value.relocate ρ) (relocate ρ)) := by
  obtain ⟨limit, values⟩ := stack
  cases values <;> rfl

theorem popN_relocate (n : Nat) :
    (stack.relocate ρ).popN n =
      (stack.popN n).map (Prod.map (List.map (Value.relocate ρ)) (relocate ρ)) := by
  rw [popN, popN, map_guard, depth_relocate]
  simp [relocate]

theorem extend_relocate (values : List Value) :
    (stack.relocate ρ).extend (values.map (Value.relocate ρ)) =
      (stack.extend values).map (relocate ρ) := by
  rw [extend, extend, map_guard, depth_relocate, limit_relocate, List.length_map]
  simp [relocate]

theorem below_relocate (n : Nat) :
    (stack.relocate ρ).below n = (stack.below n).map (Value.relocate ρ) := by
  have hvalue : (stack.relocate ρ).values[n]? = stack.values[n]?.map (Value.relocate ρ) := by
    simp [relocate]
  unfold below
  rw [hvalue]
  cases stack.values[n]? <;> rfl

theorem referenceBelow_relocate (n : Nat) :
    (stack.relocate ρ).referenceBelow n =
      (stack.referenceBelow n).map (Reference.relocate ρ) := by
  unfold referenceBelow
  rw [below_relocate]
  cases stack.below n with
  | error kind => rfl
  | ok value => cases value <;> rfl

end OperandStack

namespace Arguments

def relocate (ρ : Address → Address) (arguments : Arguments) : Arguments :=
  ⟨arguments.slots.map fun argument => { argument with value := argument.value.relocate ρ }⟩

variable {ρ : Address → Address} {arguments : Arguments}

theorem ofValues_relocate (values : List Value) :
    ofValues (values.map (Value.relocate ρ)) = (ofValues values).relocate ρ := by
  simp [ofValues, relocate]

theorem read_relocate (index : Nat) :
    (arguments.relocate ρ).read index = (arguments.read index).map (Value.relocate ρ) := by
  have hslot : (arguments.relocate ρ).slots[index]? =
      arguments.slots[index]?.map fun argument =>
        { argument with value := argument.value.relocate ρ } := by
    simp [relocate]
  unfold read
  rw [hslot]
  cases arguments.slots[index]? with
  | none => rfl
  | some argument =>
    by_cases hconsumed : argument.consumed = true
    · simp [hconsumed, Except.map]
    · simp [hconsumed, Except.map]

theorem take_relocate (index : Nat) :
    (arguments.relocate ρ).take index =
      (arguments.take index).map (Prod.map (Value.relocate ρ) (relocate ρ)) := by
  unfold take
  rw [read_relocate]
  cases arguments.read index with
  | error kind => rfl
  | ok value => simp [relocate, Except.map, List.map_set]

end Arguments

def LocalSlot.relocate (ρ : Address → Address) : LocalSlot → LocalSlot
  | uninit => uninit
  | declared kind => declared kind
  | holding value => holding (value.relocate ρ)

@[simp] theorem LocalSlot.relocate_uninit {ρ : Address → Address} :
    uninit.relocate ρ = uninit :=
  rfl

@[simp] theorem LocalSlot.kind?_relocate {ρ : Address → Address} {slot : LocalSlot} :
    (slot.relocate ρ).kind? = slot.kind? := by
  cases slot <;> simp [relocate, kind?]

namespace Locals

def relocate (ρ : Address → Address) (locals : Locals) : Locals :=
  ⟨locals.slots.map (LocalSlot.relocate ρ)⟩

variable {ρ : Address → Address} {locals : Locals} {value : Value}

theorem blank_relocate (count : Nat) : (blank count).relocate ρ = blank count := by
  simp [blank, relocate]

theorem declared_relocate (count : Nat) (kinds : List (Option Kind)) :
    (declared count kinds).relocate ρ = declared count kinds := by
  have hslot (kind : Option Kind) :
      (kind.elim .uninit .declared : LocalSlot).relocate ρ = kind.elim .uninit .declared := by
    cases kind <;> rfl
  simp [declared, relocate, hslot]

theorem slots_relocate (index : Nat) :
    (locals.relocate ρ).slots[index]? = locals.slots[index]?.map (LocalSlot.relocate ρ) := by
  simp [relocate]

theorem init_relocate (index : Nat) (kind : Kind) :
    (locals.relocate ρ).init index kind = (locals.init index kind).map (relocate ρ) := by
  unfold init
  rw [slots_relocate]
  cases locals.slots[index]? with
  | none => rfl
  | some slot => simp [relocate, Except.map, List.map_set, LocalSlot.relocate]

theorem checkWrite_relocate (index : Nat) (kind : Kind) :
    (locals.relocate ρ).checkWrite index kind = locals.checkWrite index kind := by
  unfold checkWrite
  rw [slots_relocate]
  cases locals.slots[index]? with
  | none => rfl
  | some slot => simp

theorem write_relocate (index : Nat) :
    (locals.relocate ρ).write index (value.relocate ρ) =
      (locals.write index value).map (relocate ρ) := by
  unfold write
  rw [Value.kind_relocate, checkWrite_relocate]
  cases locals.checkWrite index value.kind with
  | error kind => rfl
  | ok _ => simp [relocate, Except.map, List.map_set, LocalSlot.relocate]

theorem read_relocate (index : Nat) :
    (locals.relocate ρ).read index = (locals.read index).map (Value.relocate ρ) := by
  unfold read
  rw [slots_relocate]
  cases locals.slots[index]? with
  | none => rfl
  | some slot =>
    cases slot with
    | uninit => rfl
    | holding value => rfl
    | declared kind => cases kind <;> rfl

end Locals

/-! ## Frames -/

namespace Frame

open TypedStack.Action

def relocate (ρ : Address → Address) (frame : Frame) : Frame where
  function := frame.function
  pc := frame.pc
  arguments := frame.arguments.relocate ρ
  locals := frame.locals.relocate ρ
  stack := frame.stack.relocate ρ

@[simp] theorem stack_relocate {ρ : Address → Address} {frame : Frame} :
    (frame.relocate ρ).stack = frame.stack.relocate ρ :=
  rfl

theorem enter_relocate
    {ρ : Address → Address} (function : UInt16) (args : List Value) (locals limit : Nat) :
    (enter function args locals limit).relocate ρ =
      enter function (args.map (Value.relocate ρ)) locals limit := by
  simp [enter, relocate, Arguments.ofValues_relocate, Locals.blank_relocate]

/-- The second action does to the moved frame what the first does to the frame. -/
def Mirrors (ρ : Address → Address) (action action' : Action Frame Unit) (frame : Frame) : Prop :=
  After action frame
    (fun _ after => action' (frame.relocate ρ) = .ok () (after.relocate ρ))
    (fun kind after => action' (frame.relocate ρ) = .error kind (after.relocate ρ))

section

variable {ρ : Address → Address} {frame : Frame} {β τ : Type}

/-- A check whose result is moved along with the frame. -/
theorem mirrors_check_bind
    {test test' : Frame → Except TrapKind β} {rest rest' : β → Action Frame Unit} {move : β → β}
    (htest : test' (frame.relocate ρ) = (test frame).map move)
    (hrest : ∀ b, test frame = .ok b → Mirrors ρ (rest b) (rest' (move b)) frame) :
    Mirrors ρ (check test >>= rest) (check test' >>= rest') frame := by
  unfold Mirrors
  rw [after_bind, after_check]
  constructor
  · intro b hb
    rw [hb] at htest
    have hrun := bind_of_ok (check_of_ok htest) rest'
    exact (hrest b hb).imp (fun _ _ h => hrun.trans h) fun _ _ h => hrun.trans h
  · intro kind hkind
    rw [hkind] at htest
    exact bind_of_error (check_of_error htest) rest'

/-- A check whose result does not depend on addresses. -/
theorem mirrors_check_bind_same
    {test test' : Frame → Except TrapKind β} {rest rest' : β → Action Frame Unit}
    (htest : test' (frame.relocate ρ) = test frame)
    (hrest : ∀ b, test frame = .ok b → Mirrors ρ (rest b) (rest' b) frame) :
    Mirrors ρ (check test >>= rest) (check test' >>= rest') frame := by
  have hmoved : test' (frame.relocate ρ) = (test frame).map id := by
    rw [htest, Except.map_id]
    rfl
  exact mirrors_check_bind hmoved hrest

variable {get : Frame → τ} {put : Frame → τ → Frame} {movePart : τ → τ}

/-- An operation on a part of the frame that is moved along with the frame. -/
theorem mirrors_change_bind
    {operation operation' : τ → Except TrapKind (β × τ)}
    {rest rest' : β → Action Frame Unit} {move : β → β}
    (hget : get (frame.relocate ρ) = movePart (get frame))
    (hput : ∀ part, put (frame.relocate ρ) (movePart part) = (put frame part).relocate ρ)
    (hoperation : operation' (movePart (get frame)) =
      (operation (get frame)).map (Prod.map move movePart))
    (hrest : ∀ b part, operation (get frame) = .ok (b, part) →
      Mirrors ρ (rest b) (rest' (move b)) (put frame part)) :
    Mirrors ρ (change get put operation >>= rest) (change get put operation' >>= rest') frame := by
  rw [← hget] at hoperation
  unfold Mirrors
  rw [after_bind, after_change]
  constructor
  · intro b part hpart
    rw [hpart] at hoperation
    have hchange : change get put operation' (frame.relocate ρ) =
        .ok (move b) ((put frame part).relocate ρ) := by
      rw [← hput]
      exact change_of_ok hoperation
    have hrun := bind_of_ok hchange rest'
    exact (hrest b part hpart).imp (fun _ _ h => hrun.trans h) fun _ _ h => hrun.trans h
  · intro kind hkind
    rw [hkind] at hoperation
    exact bind_of_error (change_of_error hoperation) rest'

theorem mirrors_change
    {operation operation' : τ → Except TrapKind τ}
    (hget : get (frame.relocate ρ) = movePart (get frame))
    (hput : ∀ part, put (frame.relocate ρ) (movePart part) = (put frame part).relocate ρ)
    (hoperation : operation' (movePart (get frame)) = (operation (get frame)).map movePart) :
    Mirrors ρ (change get put (silent operation)) (change get put (silent operation')) frame := by
  rw [← hget] at hoperation
  unfold Mirrors
  rw [after_change]
  constructor
  · intro _ part hpart
    rw [silent_eq_ok.1 hpart] at hoperation
    rw [← hput]
    exact change_of_ok (silent_eq_ok.2 hoperation)
  · intro kind hkind
    rw [silent_eq_error.1 hkind] at hoperation
    exact change_of_error (silent_eq_error.2 hoperation)

/-! ## Instructions -/

variable {heap heap' : Heap} {value : Value}

theorem mirrors_push : Mirrors ρ (push value) (push (value.relocate ρ)) frame :=
  mirrors_change rfl (fun _ => rfl) OperandStack.push_relocate

theorem mirrors_replaceTop :
    Mirrors ρ (replaceTop value) (replaceTop (value.relocate ρ)) frame :=
  mirrors_change_bind rfl (fun _ => rfl) OperandStack.replaceTop_relocate fun _ _ _ => rfl

theorem mirrors_loadArg (slot : Nat) : Mirrors ρ (loadArg slot) (loadArg slot) frame := by
  refine mirrors_check_bind_same (OperandStack.ensureRoom_relocate 1) fun _ _ => ?_
  exact mirrors_check_bind (Arguments.read_relocate slot) fun _ _ => mirrors_push

theorem mirrors_popArg (slot : Nat) : Mirrors ρ (popArg slot) (popArg slot) frame := by
  refine mirrors_check_bind_same (OperandStack.ensureRoom_relocate 1) fun _ _ => ?_
  refine mirrors_change_bind rfl (fun _ => rfl) (Arguments.take_relocate slot) fun _ _ _ => ?_
  exact mirrors_push

theorem mirrors_initLocal (kind : Kind) (slot : Nat) :
    Mirrors ρ (initLocal kind slot) (initLocal kind slot) frame :=
  mirrors_change rfl (fun _ => rfl) (Locals.init_relocate slot kind)

theorem mirrors_popLocal (slot : Nat) : Mirrors ρ (popLocal slot) (popLocal slot) frame := by
  refine mirrors_check_bind (OperandStack.below_relocate 0) fun value _ => ?_
  refine mirrors_check_bind_same ?_ fun _ _ => ?_
  · rw [Value.kind_relocate]
    exact Locals.checkWrite_relocate slot value.kind
  · refine mirrors_change_bind rfl (fun _ => rfl) OperandStack.pop_relocate fun _ _ _ => ?_
    exact mirrors_change rfl (fun _ => rfl) (Locals.write_relocate slot)

theorem mirrors_pushLocal (slot : Nat) : Mirrors ρ (pushLocal slot) (pushLocal slot) frame := by
  refine mirrors_check_bind_same (OperandStack.ensureRoom_relocate 1) fun _ _ => ?_
  exact mirrors_check_bind (Locals.read_relocate slot) fun _ _ => mirrors_push

theorem mirrors_convert
    {conversion : Value → Except ConversionError Value}
    (hconversion : ∀ top, conversion (top.relocate ρ) = (conversion top).map (Value.relocate ρ)) :
    Mirrors ρ (convert conversion) (convert conversion) frame := by
  refine mirrors_check_bind (OperandStack.below_relocate 0) fun top _ => ?_
  refine mirrors_check_bind ?_ fun _ _ => mirrors_replaceTop
  rw [hconversion]
  cases conversion top <;> rfl

theorem topInteger_relocate : (frame.relocate ρ).topInteger = frame.topInteger := by
  unfold topInteger OperandStack.peek
  simp only [relocate, OperandStack.below_relocate]
  cases frame.stack.below 0 with
  | error kind => rfl
  | ok top => simp [Except.map]

/-- An instruction reads from the heap only through references on the stack, so it is
enough that these are mirrored. -/
theorem mirrors_refSlot
    (h : frame.Within (heap.Mirrored heap' ρ)) (slot : Nat) :
    Mirrors ρ (refSlot heap slot) (refSlot heap' slot) frame := by
  refine mirrors_check_bind (OperandStack.referenceBelow_relocate 0) fun reference href => ?_
  have hmirrored : heap.Mirrored heap' ρ reference :=
    h.stack _ (OperandStack.mem_of_referenceBelow href) reference rfl
  exact mirrors_check_bind (hmirrored.deref slot) fun _ _ => mirrors_replaceTop

theorem mirrors_pushArray (h : frame.Within (heap.Mirrored heap' ρ)) :
    Mirrors ρ (pushArray heap) (pushArray heap') frame := by
  refine mirrors_check_bind_same topInteger_relocate fun position _ => ?_
  refine mirrors_check_bind (OperandStack.referenceBelow_relocate 1) fun reference href => ?_
  have hmirrored : heap.Mirrored heap' ρ reference :=
    h.stack _ (OperandStack.mem_of_referenceBelow href) reference rfl
  refine mirrors_check_bind_same rfl fun index _ => ?_
  refine mirrors_check_bind (hmirrored.deref index) fun _ _ => ?_
  refine mirrors_change_bind rfl (fun _ => rfl) (OperandStack.popN_relocate 2) fun _ _ _ => ?_
  exact mirrors_push

theorem mirrors_perform
    (h : frame.Within (heap.Mirrored heap' ρ)) (instruction : Instruction) :
    Mirrors ρ (perform heap instruction) (perform heap' instruction) frame := by
  cases instruction with
  | nop => rfl
  | pushU8 value => exact mirrors_push
  | loadArg slot => exact mirrors_loadArg _
  | popArg slot => exact mirrors_popArg _
  | initLocal kind slot => exact mirrors_initLocal _ _
  | popLocal slot => exact mirrors_popLocal _
  | pushLocal slot => exact mirrors_pushLocal _
  | refSlot slot => exact mirrors_refSlot h _
  | pushArray => exact mirrors_pushArray h
  | checkedConvert target => exact mirrors_convert fun _ => Value.convertChecked_relocate target
  | uncheckedConvert target =>
    exact mirrors_convert fun _ => Value.convertUnchecked_relocate target
  | call function => rfl
  | ret => rfl

end

end Frame

/-! ## Machines -/

def Activation.relocate (ρ : Address → Address) (activation : Activation) : Activation where
  args := activation.args.map (Value.relocate ρ)
  stack := activation.stack.map (Value.relocate ρ)
  locals := activation.locals

/-- An outcome with the values that are returned moved. -/
def Outcome.relocate (ρ : Address → Address) (outcome : Outcome) : Outcome :=
  outcome.map (List.map (Value.relocate ρ))

theorem Activation.relocate_id (activation : Activation) : activation.relocate id = activation := by
  simp [relocate, Value.relocate_id]

theorem Outcome.relocate_id : Outcome.relocate id = id := by
  funext outcome
  cases outcome with
  | error trap => rfl
  | ok values => simp [relocate, Except.map, Value.relocate_id]

namespace Machine

/-- A machine with another heap and all its values moved. -/
def relocate (ρ : Address → Address) (heap : Heap) (machine : Machine) : Machine where
  program := machine.program
  heap := heap
  limits := machine.limits
  frame := machine.frame.relocate ρ
  callers := machine.callers.map (Frame.relocate ρ)
  room := machine.room
  outcome := machine.outcome.map (Outcome.relocate ρ)

def Flow.relocate (ρ : Address → Address) : Flow → Flow
  | .continue => .continue
  | .returned values => .returned (values.map (Value.relocate ρ))

section

variable {ρ : Address → Address} {heap' : Heap} {machine after : Machine}

@[simp] theorem frame_relocate : (machine.relocate ρ heap').frame = machine.frame.relocate ρ :=
  rfl

@[simp] theorem callers_relocate :
    (machine.relocate ρ heap').callers = machine.callers.map (Frame.relocate ρ) :=
  rfl

theorem Fetched.relocate
    {function : Function} {instruction : Instruction} {next : Nat}
    (h : Fetched machine function instruction next) :
    Fetched (machine.relocate ρ heap') function instruction next :=
  ⟨h.function_eq, h.inside, h.decodeAt_eq⟩

theorem Transition.relocate
    {flow : Flow} (h : Transition machine flow after)
    (hframe : machine.frame.Within (machine.heap.Mirrored heap' ρ)) :
    Transition (machine.relocate ρ heap') (flow.relocate ρ) (after.relocate ρ heap') := by
  cases h with
  | @within _ instruction _ _ fetched isLocal inputs performed =>
    have hperformed := (Frame.mirrors_perform hframe instruction).of_ok performed
    exact .within fetched.relocate isLocal (by simpa using inputs) hperformed
  | @enter _ callee next index args stack fetched callee_eq room popped =>
    have hpopped : (machine.relocate ρ heap').frame.stack.popN callee.arity.toNat =
        .ok (args.map (Value.relocate ρ), stack.relocate ρ) := by
      rw [frame_relocate, Frame.stack_relocate, OperandStack.popN_relocate, popped]
      rfl
    have hentered := Transition.enter fetched.relocate callee_eq room hpopped
    simp only [Machine.relocate] at hentered
    rw [← Frame.enter_relocate] at hentered
    exact hentered
  | @leave _ _ caller callers stack fetched returns callers_eq extended =>
    have hcallers : (machine.relocate ρ heap').callers =
        caller.relocate ρ :: callers.map (Frame.relocate ρ) := by
      rw [callers_relocate, callers_eq, List.map_cons]
    have hextended : (caller.relocate ρ).stack.extend
        (machine.relocate ρ heap').frame.stack.toList = .ok (stack.relocate ρ) := by
      rw [frame_relocate, Frame.stack_relocate, Frame.stack_relocate,
        OperandStack.toList_relocate, OperandStack.extend_relocate, extended]
      rfl
    exact .leave fetched.relocate (by simpa using returns) hcallers hextended
  | finish fetched returns callers_eq =>
    have hfinished : Transition (machine.relocate ρ heap') _ _ :=
      .finish fetched.relocate (by simpa using returns) (by simpa using callers_eq)
    rw [frame_relocate, Frame.stack_relocate, OperandStack.toList_relocate] at hfinished
    exact hfinished

theorem Blocked.relocate
    {kind : TrapKind} (h : Blocked machine kind)
    (hframe : machine.frame.Within (machine.heap.Mirrored heap' ρ)) :
    Blocked (machine.relocate ρ heap') kind := by
  cases h with
  | lost function_eq => exact .lost function_eq
  | overrun function_eq outside => exact .overrun function_eq outside
  | undecodable function_eq inside decodeAt_eq => exact .undecodable function_eq inside decodeAt_eq
  | inputs fetched short => exact .inputs fetched.relocate (by simpa using short)
  | @within _ instruction _ _ _ fetched isLocal inputs stopped =>
    have hstopped := (Frame.mirrors_perform hframe instruction).of_error stopped
    exact .within fetched.relocate isLocal (by simpa using inputs) hstopped
  | noCallee fetched callee_eq => exact .noCallee fetched.relocate callee_eq
  | noRoom fetched callee_eq room => exact .noRoom fetched.relocate callee_eq room
  | arguments fetched callee_eq room short =>
    exact .arguments fetched.relocate callee_eq room (by simpa using short)
  | returns fetched returns => exact .returns fetched.relocate (by simpa using returns)
  | @caller _ _ caller callers fetched returns callers_eq full =>
    have hcallers : (machine.relocate ρ heap').callers =
        caller.relocate ρ :: callers.map (Frame.relocate ρ) := by
      rw [callers_relocate, callers_eq, List.map_cons]
    exact .caller fetched.relocate (by simpa using returns) hcallers (by simpa using full)

/-! ## Runs -/

theorem step_relocate
    (hfits : machine.frame.stack.Fits)
    (hframe : machine.frame.Within (machine.heap.Mirrored heap' ρ)) :
    (machine.relocate ρ heap').step = machine.step.relocate ρ heap' := by
  cases houtcome : machine.outcome with
  | some outcome =>
    have hmoved : (machine.relocate ρ heap').outcome = some (outcome.relocate ρ) := by
      rw [Machine.relocate, houtcome]
      rfl
    rw [step_of_outcome houtcome, step_of_outcome hmoved]
  | none =>
    have hmoved : (machine.relocate ρ heap').outcome = none := by
      rw [Machine.relocate, houtcome]
      rfl
    cases hexecute : execute machine with
    | error kind after =>
      -- neither machine is left with a trace of what was tried
      have hafter : after = machine := (atomic_execute hfits).of_error hexecute
      have hfits' : (machine.relocate ρ heap').frame.stack.Fits := by
        simpa [OperandStack.Fits] using hfits
      obtain ⟨after', hexecute'⟩ :=
        execute_of_blocked ((blocked_of_execute hexecute).relocate hframe)
      have hafter' : after' = machine.relocate ρ heap' :=
        (atomic_execute hfits').of_error hexecute'
      rw [step_of_error houtcome hexecute, step_of_error hmoved hexecute', hafter, hafter']
      rfl
    | ok flow after =>
      have hexecute' := execute_of_transition ((transition_of_execute hexecute).relocate hframe)
      cases flow with
      | «continue» =>
        rw [step_of_continue houtcome hexecute, step_of_continue hmoved hexecute']
      | returned values =>
        rw [step_of_returned houtcome hexecute, step_of_returned hmoved hexecute']
        rfl

variable {program : Program} {limits : Limits} {activation : Activation}

theorem start_relocate (heap : Heap) :
    start program heap' limits (activation.relocate ρ) =
      (start program heap limits activation).map (Machine.relocate ρ heap') := by
  unfold start
  cases program.entry with
  | none => rfl
  | some entry =>
    cases hfunction : program.function? entry with
    | none => simp [hfunction, Except.map]
    | some function =>
      simp only [hfunction, Activation.relocate, List.length_map]
      by_cases hargs : activation.args.length ≠ function.arity.toNat
      · rw [if_pos hargs, if_pos hargs]
        rfl
      · rw [if_neg hargs, if_neg hargs]
        by_cases hlocals : function.locals.toNat < activation.locals.length
        · rw [if_pos hlocals, if_pos hlocals]
          rfl
        · rw [if_neg hlocals, if_neg hlocals]
          by_cases hstack : limits.stack < activation.stack.length
          · rw [if_pos hstack, if_pos hstack]
            rfl
          · rw [if_neg hstack, if_neg hstack]
            simp [Except.map, Machine.relocate, Frame.relocate, OperandStack.relocate,
              Arguments.ofValues_relocate, Locals.declared_relocate]

variable {heap : Heap}

theorem Reachable.steps_relocate
    (h : Reachable program heap limits activation machine)
    (hmirrored : ∀ reference, heap.Reaches activation.Refers reference →
      heap.Mirrored heap' ρ reference) (n : Nat) :
    (machine.relocate ρ heap').steps n = (machine.steps n).relocate ρ heap' := by
  induction n with
  | zero => rfl
  | succ n ih =>
    have hreachable := h.steps n
    have hframe : (machine.steps n).frame.Within (heap.Mirrored heap' ρ) :=
      (hreachable.within_reaches.frames _ List.mem_cons_self).imp hmirrored
    rw [← hreachable.sound.heap_eq] at hframe
    rw [steps_succ, steps_succ, ih, step_relocate hreachable.sound.fits hframe]

theorem Reachable.run_relocate
    (h : Reachable program heap limits activation machine)
    (hmirrored : ∀ reference, heap.Reaches activation.Refers reference →
      heap.Mirrored heap' ρ reference) :
    (machine.relocate ρ heap').run = machine.run.relocate ρ := by
  obtain ⟨n, -, outcome, houtcome⟩ := exists_steps_outcome machine
  have hmoved : ((machine.relocate ρ heap').steps n).outcome = some (outcome.relocate ρ) := by
    rw [h.steps_relocate hmirrored, Machine.relocate, houtcome]
    rfl
  rw [run_eq_of_steps hmoved, run_eq_of_steps houtcome]

theorem invoke_relocate
    (hmirrored : ∀ reference, heap.Reaches activation.Refers reference →
      heap.Mirrored heap' ρ reference) :
    invoke program heap' limits (activation.relocate ρ) =
      (invoke program heap limits activation).map (Outcome.relocate ρ) := by
  unfold invoke
  rw [start_relocate heap]
  cases hstart : start program heap limits activation with
  | error e => rfl
  | ok machine => exact congrArg Except.ok ((Reachable.start hstart).run_relocate hmirrored)

/-- An outcome depends on the heap only through what can be reached from the
activation, and not on where that is. Moved to where it is mirrored in another
heap, the activation meets the same setup error or trap, or returns the moved
values. In particular, heaps that agree on what can be reached give the same
outcome. -/
theorem invoke_depends_on_reached
    (program : Program) (limits : Limits) (heap heap' : Heap) (activation : Activation) :
    (∀ ρ : Address → Address,
      (∀ reference, heap.Reaches activation.Refers reference →
        heap.Mirrored heap' ρ reference) →
      invoke program heap' limits (activation.relocate ρ) =
        (invoke program heap limits activation).map (Outcome.relocate ρ)) ∧
    ((∀ reference, heap.Reaches activation.Refers reference →
        heap'.object? reference.address = heap.object? reference.address) →
      invoke program heap' limits activation = invoke program heap limits activation) := by
  refine ⟨fun ρ hmirrored => invoke_relocate hmirrored, fun hagree => ?_⟩
  have hmirrored : ∀ reference, heap.Reaches activation.Refers reference →
      heap.Mirrored heap' id reference :=
    fun reference hreached => Heap.mirrored_id.2 (hagree reference hreached)
  have hmoved : invoke program heap' limits (activation.relocate id) =
      (invoke program heap limits activation).map (Outcome.relocate id) :=
    invoke_relocate hmirrored
  rw [Activation.relocate_id, Outcome.relocate_id, Except.map_id] at hmoved
  exact hmoved

end

/-- Behind an object that cannot be reached, an array and the bytes it refers to are
one place further on. The function that opens the array returns the reference to
where the bytes are now. -/
theorem invoke_depends_on_reached_shifted :
    ∃ heap heap' : Heap,
      heap.object? ⟨0, 0⟩ = some (.ofBytes [7]) ∧ heap'.object? ⟨0, 0⟩ = some (.ofBytes [5]) ∧
      invoke (.single ⟨"open", 1, 0, 1, #[4, 0, 8, 1, 13]⟩) heap ⟨1, 1⟩
        (.ofArgs [.ref ⟨⟨1, 0⟩, .ref⟩]) = .ok (.ok [.ref ⟨⟨0, 0⟩, .integer .u8⟩]) ∧
      invoke (.single ⟨"open", 1, 0, 1, #[4, 0, 8, 1, 13]⟩) heap' ⟨1, 1⟩
        (.ofArgs [.ref ⟨⟨2, 0⟩, .ref⟩]) = .ok (.ok [.ref ⟨⟨1, 0⟩, .integer .u8⟩]) := by
  have hinvoke : invoke (.single ⟨"open", 1, 0, 1, #[4, 0, 8, 1, 13]⟩)
      ⟨.retain, #[⟨0, some (.ofBytes [7])⟩,
        ⟨0, some ⟨.ref, [.ref ⟨⟨0, 0⟩, .integer .u8⟩], by simp [Value.kind]⟩⟩], [], 2⟩
      ⟨1, 1⟩ (.ofArgs [.ref ⟨⟨1, 0⟩, .ref⟩]) = .ok (.ok [.ref ⟨⟨0, 0⟩, .integer .u8⟩]) :=
    congrArg Except.ok (run_eq_of_steps (n := 3) rfl)
  have hmoved := (invoke_depends_on_reached (.single ⟨"open", 1, 0, 1, #[4, 0, 8, 1, 13]⟩) ⟨1, 1⟩
    ⟨.retain, #[⟨0, some (.ofBytes [7])⟩,
      ⟨0, some ⟨.ref, [.ref ⟨⟨0, 0⟩, .integer .u8⟩], by simp [Value.kind]⟩⟩], [], 2⟩
    ⟨.retain, #[⟨0, some (.ofBytes [5])⟩, ⟨0, some (.ofBytes [7])⟩,
      ⟨0, some ⟨.ref, [.ref ⟨⟨1, 0⟩, .integer .u8⟩], by simp [Value.kind]⟩⟩], [], 3⟩
    (.ofArgs [.ref ⟨⟨1, 0⟩, .ref⟩])).1 (fun address => ⟨address.index + 1, address.generation⟩) ?_
  · rw [hinvoke] at hmoved
    exact ⟨_, _, rfl, rfl, hinvoke, hmoved⟩
  · intro reference hreached
    have haddress : reference.address = ⟨1, 0⟩ ∨ reference.address = ⟨0, 0⟩ := by
      induction hreached with
      | root hrefers =>
        rcases hrefers with harg | hstack
        · cases List.mem_singleton.1 harg
          exact .inl rfl
        · cases hstack
      | element _ hobject hmem ih =>
        rcases ih with ih | ih
        · rw [ih] at hobject
          cases hobject
          cases List.mem_singleton.1 hmem
          exact .inr rfl
        · rw [ih] at hobject
          cases hobject
          cases List.mem_singleton.1 hmem
    rcases haddress with haddress | haddress
    · rw [Heap.Mirrored, haddress]
      rfl
    · rw [Heap.Mirrored, haddress]
      rfl

end Machine

end TypedStack
