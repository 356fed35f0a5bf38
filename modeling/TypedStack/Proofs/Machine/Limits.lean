import TypedStack.Proofs.Machine.Termination

/-!
# Raising limits

Limits are only ever compared with what is there, and a comparison that fails stops
the run with an overflow. So a run that does not overflow can be repeated under
higher limits: every comparison that it has passed is passed again, and every other
cause of a trap is found at the same instruction, since no check comes to another
answer.

The machine under higher limits differs in the limits themselves, in the one that
every operand stack carries, and in the room for frames. `raise` makes these
changes, and commutes with every instruction that does not overflow.
-/

namespace TypedStack

/-! ## Stacks -/

namespace OperandStack

/-- The same values under another limit. -/
def raise (limit : Nat) (stack : OperandStack) : OperandStack :=
  { stack with limit }

variable {limit : Nat} {stack : OperandStack}

theorem ensureRoom_raise
    {n : Nat} (hlimit : stack.limit ≤ limit) (h : stack.ensureRoom n ≠ .error .stackOverflow) :
    (stack.raise limit).ensureRoom n = stack.ensureRoom n := by
  rcases Nat.lt_or_ge stack.limit (stack.depth + n) with hfull | hroom
  · exact absurd (ensureRoom_eq_error.2 ⟨hfull, rfl⟩) h
  · rw [ensureRoom_eq_ok.2 hroom]
    exact ensureRoom_eq_ok.2 (Nat.le_trans hroom hlimit)

theorem push_raise
    {value : Value} (hlimit : stack.limit ≤ limit)
    (h : stack.push value ≠ .error .stackOverflow) :
    (stack.raise limit).push value = (stack.push value).map (raise limit) := by
  rcases Nat.lt_or_ge stack.depth stack.limit with hroom | hfull
  · rw [push_eq_ok.2 ⟨hroom, rfl⟩]
    exact push_eq_ok.2 ⟨Nat.lt_of_lt_of_le hroom hlimit, rfl⟩
  · exact absurd (push_eq_error.2 ⟨hfull, rfl⟩) h

theorem extend_raise
    {after : OperandStack} {values : List Value} (hlimit : stack.limit ≤ limit)
    (h : stack.extend values = .ok after) :
    (stack.raise limit).extend values = .ok (after.raise limit) := by
  obtain ⟨hroom, rfl⟩ := extend_eq_ok.1 h
  exact extend_eq_ok.2 ⟨Nat.le_trans hroom hlimit, rfl⟩

theorem pop_raise : (stack.raise limit).pop = stack.pop.map (Prod.map id (raise limit)) := by
  obtain ⟨_, values⟩ := stack
  cases values <;> rfl

theorem replaceTop_raise (value : Value) :
    (stack.raise limit).replaceTop value =
      (stack.replaceTop value).map (Prod.map id (raise limit)) := by
  obtain ⟨_, values⟩ := stack
  cases values <;> rfl

theorem popN_raise (n : Nat) :
    (stack.raise limit).popN n = (stack.popN n).map (Prod.map id (raise limit)) := by
  rw [popN, popN, map_guard]
  rfl

end OperandStack

/-! ## Frames -/

namespace Frame

open TypedStack.Action

def raise (limit : Nat) (frame : Frame) : Frame :=
  { frame with stack := frame.stack.raise limit }

@[simp] theorem stack_raise {limit : Nat} {frame : Frame} :
    (frame.raise limit).stack = frame.stack.raise limit :=
  rfl

/-- The action does the same under another limit, unless it overflows the stack. -/
def Agrees (limit : Nat) (action : Action Frame Unit) (frame : Frame) : Prop :=
  After action frame
    (fun _ after => action (frame.raise limit) = .ok () (after.raise limit))
    (fun kind after => kind ≠ .stackOverflow →
      action (frame.raise limit) = .error kind (after.raise limit))

section

variable {limit : Nat} {frame : Frame} {β τ : Type}

theorem agrees_check_bind
    {test : Frame → Except TrapKind β} {rest : β → Action Frame Unit}
    (htest : test frame ≠ .error .stackOverflow → test (frame.raise limit) = test frame)
    (hrest : ∀ b, test frame = .ok b → Agrees limit (rest b) frame) :
    Agrees limit (check test >>= rest) frame := by
  unfold Agrees
  rw [after_bind, after_check]
  constructor
  · intro b hb
    have hsame : test (frame.raise limit) = .ok b := by
      rw [htest (by simp [hb]), hb]
    have hrun := bind_of_ok (check_of_ok hsame) rest
    exact (hrest b hb).imp (fun _ _ h => hrun.trans h) fun _ _ h hkind => hrun.trans (h hkind)
  · intro kind hkind hother
    have hsame : test (frame.raise limit) = .error kind := by
      rw [htest (by simpa [hkind] using hother), hkind]
    exact bind_of_error (check_of_error hsame) rest

variable {get : Frame → τ} {put : Frame → τ → Frame}

/-- An operation on a part of the frame, with the limit in that part raised if there
is one. -/
theorem agrees_change_bind
    {operation : τ → Except TrapKind (β × τ)} {rest : β → Action Frame Unit}
    (raisePart : τ → τ)
    (hget : get (frame.raise limit) = raisePart (get frame))
    (hput : ∀ part, put (frame.raise limit) (raisePart part) = (put frame part).raise limit)
    (hoperation : operation (get frame) ≠ .error .stackOverflow →
      operation (raisePart (get frame)) = (operation (get frame)).map (Prod.map id raisePart))
    (hrest : ∀ b part, operation (get frame) = .ok (b, part) →
      Agrees limit (rest b) (put frame part)) :
    Agrees limit (change get put operation >>= rest) frame := by
  rw [← hget] at hoperation
  unfold Agrees
  rw [after_bind, after_change]
  constructor
  · intro b part hpart
    rw [hpart] at hoperation
    have hchange : change get put operation (frame.raise limit) =
        .ok b ((put frame part).raise limit) := by
      rw [← hput]
      exact change_of_ok (hoperation (by simp))
    have hrun := bind_of_ok hchange rest
    exact (hrest b part hpart).imp (fun _ _ h => hrun.trans h)
      fun _ _ h hkind => hrun.trans (h hkind)
  · intro kind hkind hother
    rw [hkind] at hoperation
    exact bind_of_error (change_of_error (hoperation (by simpa using hother))) rest

theorem agrees_change
    {operation : τ → Except TrapKind τ} (raisePart : τ → τ)
    (hget : get (frame.raise limit) = raisePart (get frame))
    (hput : ∀ part, put (frame.raise limit) (raisePart part) = (put frame part).raise limit)
    (hoperation : operation (get frame) ≠ .error .stackOverflow →
      operation (raisePart (get frame)) = (operation (get frame)).map raisePart) :
    Agrees limit (change get put (silent operation)) frame := by
  rw [← hget] at hoperation
  unfold Agrees
  rw [after_change]
  constructor
  · intro _ part hpart
    rw [silent_eq_ok.1 hpart] at hoperation
    rw [← hput]
    exact change_of_ok (silent_eq_ok.2 (hoperation (by simp)))
  · intro kind hkind hother
    rw [silent_eq_error.1 hkind] at hoperation
    exact change_of_error (silent_eq_error.2 (hoperation (by simpa using hother)))

/-- Arguments have no limit. -/
theorem agrees_onArguments_bind
    {operation : Arguments → Except TrapKind (β × Arguments)} {rest : β → Action Frame Unit}
    (hrest : ∀ b arguments, operation frame.arguments = .ok (b, arguments) →
      Agrees limit (rest b) { frame with arguments }) :
    Agrees limit (onArguments operation >>= rest) frame := by
  refine agrees_change_bind id rfl (fun _ => rfl) (fun _ => ?_) hrest
  rw [Prod.map_id, Except.map_id]
  rfl

/-- Local slots have no limit. -/
theorem agrees_onLocals (operation : Locals → Except TrapKind Locals) :
    Agrees limit (onLocals (silent operation)) frame := by
  refine agrees_change id rfl (fun _ => rfl) fun _ => ?_
  rw [Except.map_id]
  rfl

/-! ## Instructions -/

variable {value : Value}

theorem agrees_push (hlimit : frame.stack.limit ≤ limit) : Agrees limit (push value) frame :=
  agrees_change (OperandStack.raise limit) rfl (fun _ => rfl) (OperandStack.push_raise hlimit)

theorem agrees_replaceTop : Agrees limit (replaceTop value) frame :=
  agrees_change_bind (OperandStack.raise limit) rfl (fun _ => rfl)
    (fun _ => OperandStack.replaceTop_raise value) fun _ _ _ => rfl

theorem agrees_loadArg (hlimit : frame.stack.limit ≤ limit) (slot : Nat) :
    Agrees limit (loadArg slot) frame := by
  refine agrees_check_bind (OperandStack.ensureRoom_raise hlimit) fun _ _ => ?_
  exact agrees_check_bind (fun _ => rfl) fun _ _ => agrees_push hlimit

theorem agrees_popArg (hlimit : frame.stack.limit ≤ limit) (slot : Nat) :
    Agrees limit (popArg slot) frame := by
  refine agrees_check_bind (OperandStack.ensureRoom_raise hlimit) fun _ _ => ?_
  exact agrees_onArguments_bind fun _ _ _ => agrees_push hlimit

theorem agrees_popLocal (slot : Nat) : Agrees limit (popLocal slot) frame := by
  refine agrees_check_bind (fun _ => rfl) fun value _ => ?_
  refine agrees_check_bind (fun _ => rfl) fun _ _ => ?_
  refine agrees_change_bind (OperandStack.raise limit) rfl (fun _ => rfl)
    (fun _ => OperandStack.pop_raise) fun _ _ _ => ?_
  exact agrees_onLocals _

theorem agrees_pushLocal (hlimit : frame.stack.limit ≤ limit) (slot : Nat) :
    Agrees limit (pushLocal slot) frame := by
  refine agrees_check_bind (OperandStack.ensureRoom_raise hlimit) fun _ _ => ?_
  exact agrees_check_bind (fun _ => rfl) fun _ _ => agrees_push hlimit

theorem agrees_refSlot (heap : Heap) (slot : Nat) : Agrees limit (refSlot heap slot) frame := by
  refine agrees_check_bind (fun _ => rfl) fun _ _ => ?_
  exact agrees_check_bind (fun _ => rfl) fun _ _ => agrees_replaceTop

theorem agrees_pushArray (hlimit : frame.stack.limit ≤ limit) (heap : Heap) :
    Agrees limit (pushArray heap) frame := by
  refine agrees_check_bind (fun _ => rfl) fun _ _ => agrees_check_bind (fun _ => rfl) fun _ _ => ?_
  refine agrees_check_bind (fun _ => rfl) fun _ _ => agrees_check_bind (fun _ => rfl) fun _ _ => ?_
  refine agrees_change_bind (OperandStack.raise limit) rfl (fun _ => rfl)
    (fun _ => OperandStack.popN_raise 2) fun _ stack hpopped => ?_
  obtain ⟨-, -, rfl⟩ := OperandStack.popN_eq_ok.1 hpopped
  exact agrees_push hlimit

theorem agrees_convert (conversion : Value → Except ConversionError Value) :
    Agrees limit (convert conversion) frame := by
  refine agrees_check_bind (fun _ => rfl) fun _ _ => ?_
  exact agrees_check_bind (fun _ => rfl) fun _ _ => agrees_replaceTop

/-- An instruction looks at the limit of the stack only to see whether there is
room. -/
theorem agrees_perform
    (hlimit : frame.stack.limit ≤ limit) (heap : Heap) (instruction : Instruction) :
    Agrees limit (perform heap instruction) frame := by
  cases instruction with
  | nop => rfl
  | pushU8 value => exact agrees_push hlimit
  | loadArg slot => exact agrees_loadArg hlimit _
  | popArg slot => exact agrees_popArg hlimit _
  | initLocal kind slot => exact agrees_onLocals _
  | popLocal slot => exact agrees_popLocal _
  | pushLocal slot => exact agrees_pushLocal hlimit _
  | refSlot slot => exact agrees_refSlot heap _
  | pushArray => exact agrees_pushArray hlimit heap
  | checkedConvert target => exact agrees_convert _
  | uncheckedConvert target => exact agrees_convert _
  | call function => rfl
  | ret => rfl

end

end Frame

/-! ## Machines -/

namespace Machine

/-- The machine under other limits. It may enter as many more frames as the limits
differ by. -/
def raise (limits : Limits) (machine : Machine) : Machine :=
  { machine with
    limits
    frame := machine.frame.raise limits.stack
    callers := machine.callers.map (Frame.raise limits.stack)
    room := machine.room + (limits.frames - 1 - (machine.limits.frames - 1)) }

/-- No stack of a live frame has a limit above that of the other limits. -/
def Below (limits : Limits) (machine : Machine) : Prop :=
  ∀ frame ∈ machine.frames, frame.stack.limit ≤ limits.stack

section

variable {limits : Limits} {machine after : Machine}

@[simp] theorem frame_raise : (machine.raise limits).frame = machine.frame.raise limits.stack :=
  rfl

@[simp] theorem callers_raise :
    (machine.raise limits).callers = machine.callers.map (Frame.raise limits.stack) :=
  rfl

theorem Below.frame_le (h : machine.Below limits) :
    machine.frame.stack.limit ≤ limits.stack :=
  h _ List.mem_cons_self

theorem Below.caller_le
    (h : machine.Below limits) {caller : Frame} {callers : List Frame}
    (hcallers : machine.callers = caller :: callers) : caller.stack.limit ≤ limits.stack := by
  apply h
  rw [frames, hcallers]
  exact List.mem_cons_of_mem _ List.mem_cons_self

theorem Fetched.raise
    {function : Function} {instruction : Instruction} {next : Nat}
    (h : Fetched machine function instruction next) :
    Fetched (machine.raise limits) function instruction next :=
  ⟨h.function_eq, h.inside, h.decodeAt_eq⟩

theorem Transition.raise
    {flow : Flow} (h : Transition machine flow after) (hbelow : machine.Below limits) :
    Transition (machine.raise limits) flow (after.raise limits) := by
  cases h with
  | @within _ instruction _ _ fetched isLocal inputs performed =>
    have hperformed := (Frame.agrees_perform hbelow.frame_le _ instruction).of_ok performed
    exact .within fetched.raise isLocal inputs hperformed
  | @enter _ callee next index args stack fetched callee_eq room popped =>
    have hpopped : (machine.raise limits).frame.stack.popN callee.arity.toNat =
        .ok (args, stack.raise limits.stack) := by
      rw [frame_raise, Frame.stack_raise, OperandStack.popN_raise, popped]
      rfl
    have hroom : 0 < (machine.raise limits).room := Nat.lt_of_lt_of_le room (Nat.le_add_right _ _)
    have hentered := Transition.enter fetched.raise callee_eq hroom hpopped
    simp only [Machine.raise, suspend] at hentered ⊢
    rw [← Nat.sub_add_comm room]
    exact hentered
  | @leave _ _ caller callers stack fetched returns callers_eq extended =>
    have hcallers : (machine.raise limits).callers =
        caller.raise limits.stack :: callers.map (Frame.raise limits.stack) := by
      rw [callers_raise, callers_eq, List.map_cons]
    have hextended := OperandStack.extend_raise (hbelow.caller_le callers_eq) extended
    have hleft := Transition.leave fetched.raise returns hcallers hextended
    simp only [Machine.raise, resume] at hleft ⊢
    rw [Nat.add_right_comm]
    exact hleft
  | finish fetched returns callers_eq =>
    exact .finish fetched.raise returns (by simpa using callers_eq)

theorem Blocked.raise
    {kind : TrapKind} (h : Blocked machine kind) (hbelow : machine.Below limits)
    (hkind : kind ≠ .stackOverflow) : Blocked (machine.raise limits) kind := by
  cases h with
  | lost function_eq => exact .lost function_eq
  | overrun function_eq outside => exact .overrun function_eq outside
  | undecodable function_eq inside decodeAt_eq => exact .undecodable function_eq inside decodeAt_eq
  | inputs fetched short => exact .inputs fetched.raise short
  | @within _ instruction _ _ _ fetched isLocal inputs stopped =>
    have hagrees := Frame.agrees_perform hbelow.frame_le machine.heap instruction
    exact .within fetched.raise isLocal inputs (hagrees.of_error stopped hkind)
  | noCallee fetched callee_eq => exact .noCallee fetched.raise callee_eq
  | noRoom _ _ _ => exact absurd rfl hkind
  | arguments fetched callee_eq room short =>
    exact .arguments fetched.raise callee_eq (Nat.lt_of_lt_of_le room (Nat.le_add_right _ _)) short
  | returns fetched returns => exact .returns fetched.raise returns
  | caller _ _ _ _ => exact absurd rfl hkind

end

/-! ## Runs -/

/-- The outcome is the trap of a stack that would have become too deep, or of a call
without room for another frame. -/
def Overflows (outcome : Outcome) : Prop :=
  ∃ trap, outcome = .error trap ∧ trap.kind = .stackOverflow

section

variable {program : Program} {heap : Heap} {limits limits' : Limits} {activation : Activation}
  {machine : Machine}

theorem step_raise
    (hfits : machine.frame.stack.Fits) (hbelow : machine.Below limits)
    (hsteady : ∀ outcome, machine.step.outcome = some outcome → ¬Overflows outcome) :
    (machine.raise limits).step = machine.step.raise limits := by
  cases houtcome : machine.outcome with
  | some outcome =>
    have hraised : (machine.raise limits).outcome = some outcome := houtcome
    rw [step_of_outcome houtcome, step_of_outcome hraised]
  | none =>
    have hraised : (machine.raise limits).outcome = none := houtcome
    cases hexecute : execute machine with
    | error kind after =>
      have hkind : kind ≠ .stackOverflow := by
        intro hoverflow
        rw [step_of_error houtcome hexecute] at hsteady
        exact hsteady _ rfl ⟨_, rfl, hoverflow⟩
      -- neither machine is left with a trace of what was tried
      have hafter : after = machine := (atomic_execute hfits).of_error hexecute
      have hfits' : (machine.raise limits).frame.stack.Fits :=
        Nat.le_trans hfits hbelow.frame_le
      obtain ⟨after', hexecute'⟩ :=
        execute_of_blocked ((blocked_of_execute hexecute).raise hbelow hkind)
      have hafter' : after' = machine.raise limits := (atomic_execute hfits').of_error hexecute'
      rw [step_of_error houtcome hexecute, step_of_error hraised hexecute', hafter, hafter']
      rfl
    | ok flow after =>
      have hexecute' := execute_of_transition ((transition_of_execute hexecute).raise hbelow)
      cases flow with
      | «continue» => rw [step_of_continue houtcome hexecute, step_of_continue hraised hexecute']
      | returned values =>
        rw [step_of_returned houtcome hexecute, step_of_returned hraised hexecute']
        rfl

theorem Reachable.below_of_le
    (h : Reachable program heap limits activation machine) (hstack : limits.stack ≤ limits'.stack) :
    machine.Below limits' := by
  intro frame hframe
  obtain ⟨function, hshaped⟩ := h.sound.shaped frame hframe
  rw [hshaped.limit_eq]
  exact hstack

/-- A run that has not overflowed goes through the same states under higher limits. -/
theorem Reachable.steps_raise
    (h : Reachable program heap limits activation machine)
    (hstack : limits.stack ≤ limits'.stack) (n : Nat)
    (hsteady : ∀ outcome, (machine.steps n).outcome = some outcome → ¬Overflows outcome) :
    (machine.raise limits').steps n = (machine.steps n).raise limits' := by
  induction n with
  | zero => rfl
  | succ n ih =>
    have hreachable := h.steps n
    rw [steps_succ] at hsteady
    have hbefore : ∀ outcome, (machine.steps n).outcome = some outcome → ¬Overflows outcome := by
      intro outcome houtcome
      rw [step_of_outcome houtcome] at hsteady
      exact hsteady outcome houtcome
    rw [steps_succ, steps_succ, ih hbefore,
      step_raise hreachable.sound.fits (hreachable.below_of_le hstack) hsteady]

theorem Reachable.run_raise
    (h : Reachable program heap limits activation machine)
    (hstack : limits.stack ≤ limits'.stack) (hsteady : ¬Overflows machine.run) :
    (machine.raise limits').run = machine.run := by
  obtain ⟨n, -, outcome, houtcome⟩ := exists_steps_outcome machine
  rw [run_eq_of_steps houtcome] at hsteady ⊢
  apply run_eq_of_steps (n := n)
  rw [h.steps_raise hstack n]
  · exact houtcome
  · intro found hfound
    rw [Option.some.inj (hfound.symm.trans houtcome)]
    exact hsteady

/-- Higher limits start the raised machine, or refuse the activation for the same
reason, unless it was refused for the depth of its stack. -/
theorem start_raise
    (hstack : limits.stack ≤ limits'.stack) (hframes : limits.frames ≤ limits'.frames)
    (hsteady : ∀ depth limit,
      start program heap limits activation ≠ .error (.stackTooDeep depth limit)) :
    start program heap limits' activation =
      (start program heap limits activation).map (raise limits') := by
  unfold start at hsteady ⊢
  cases hentry : program.entry with
  | none => rfl
  | some entry =>
    cases hfunction : program.function? entry with
    | none => simp [hfunction, Except.map]
    | some function =>
      simp only [hentry, hfunction] at hsteady ⊢
      by_cases hargs : activation.args.length ≠ function.arity.toNat
      · rw [if_pos hargs, if_pos hargs]
        rfl
      · rw [if_neg hargs] at hsteady
        rw [if_neg hargs, if_neg hargs]
        by_cases hlocals : function.locals.toNat < activation.locals.length
        · rw [if_pos hlocals, if_pos hlocals]
          rfl
        · rw [if_neg hlocals] at hsteady
          rw [if_neg hlocals, if_neg hlocals]
          by_cases hdeep : limits.stack < activation.stack.length
          · rw [if_pos hdeep] at hsteady
            exact absurd rfl (hsteady _ _)
          · have hroom : limits.frames - 1 + (limits'.frames - 1 - (limits.frames - 1)) =
                limits'.frames - 1 := by
              omega
            rw [if_neg hdeep, if_neg (by omega)]
            simp [Except.map, Machine.raise, Frame.raise, OperandStack.raise, hroom]

end

/-- The invocation was cut short by a limit: the stack that it starts with is too
deep, or it ends in an overflow. -/
def CutShort (result : Except SetupError Outcome) : Prop :=
  (∃ depth limit, result = .error (.stackTooDeep depth limit)) ∨
    ∃ outcome, result = .ok outcome ∧ Overflows outcome

/-- An invocation that is not cut short by its limits ends in the same way under
higher ones: with the same values, the same trap, or the same setup error. -/
theorem invoke_under_higher_limits
    (program : Program) (heap : Heap) (activation : Activation) {limits limits' : Limits}
    (hstack : limits.stack ≤ limits'.stack) (hframes : limits.frames ≤ limits'.frames)
    (hfree : ¬CutShort (invoke program heap limits activation)) :
    invoke program heap limits' activation = invoke program heap limits activation := by
  unfold invoke at hfree ⊢
  cases hstart : start program heap limits activation with
  | error e =>
    rw [hstart] at hfree
    have hsteady : ∀ depth limit,
        start program heap limits activation ≠ .error (.stackTooDeep depth limit) := by
      intro depth limit hdeep
      rw [hstart] at hdeep
      rw [Except.error.inj hdeep] at hfree
      exact hfree (.inl ⟨depth, limit, rfl⟩)
    rw [start_raise hstack hframes hsteady, hstart]
    rfl
  | ok machine =>
    rw [hstart] at hfree
    have hsteady : ¬Overflows machine.run :=
      fun hoverflow => hfree (.inr ⟨machine.run, rfl, hoverflow⟩)
    rw [start_raise hstack hframes (by simp [hstart]), hstart]
    exact congrArg Except.ok ((Reachable.start hstart).run_raise hstack hsteady)

/-- A call that just fits one value on each stack and two frames. With room for one
frame it overflows, and with more room it returns the same value. -/
theorem invoke_under_higher_limits_call :
    invoke ⟨#[⟨"outer", 0, 0, 1, #[12, 1, 0, 13]⟩, ⟨"inner", 0, 0, 1, #[2, 7, 13]⟩], some 0⟩
        (.empty .retain) ⟨1, 1⟩ .empty = .ok (.error ⟨.stackOverflow, 0, 0⟩) ∧
      invoke ⟨#[⟨"outer", 0, 0, 1, #[12, 1, 0, 13]⟩, ⟨"inner", 0, 0, 1, #[2, 7, 13]⟩], some 0⟩
        (.empty .retain) ⟨1, 2⟩ .empty = .ok (.ok [.u8 7]) ∧
      invoke ⟨#[⟨"outer", 0, 0, 1, #[12, 1, 0, 13]⟩, ⟨"inner", 0, 0, 1, #[2, 7, 13]⟩], some 0⟩
        (.empty .retain) .standard .empty = .ok (.ok [.u8 7]) := by
  have hreturned :
      invoke ⟨#[⟨"outer", 0, 0, 1, #[12, 1, 0, 13]⟩, ⟨"inner", 0, 0, 1, #[2, 7, 13]⟩], some 0⟩
        (.empty .retain) ⟨1, 2⟩ .empty = .ok (.ok [.u8 7]) :=
    congrArg Except.ok (run_eq_of_steps (n := 4) rfl)
  refine ⟨congrArg Except.ok (run_eq_of_steps (n := 1) rfl), hreturned, ?_⟩
  rw [← hreturned]
  refine invoke_under_higher_limits _ _ _ (by decide) (by decide) ?_
  rw [hreturned]
  rintro (⟨_, _, hrefused⟩ | ⟨_, hended, _, htrapped, _⟩)
  · cases hrefused
  · cases hended
    cases htrapped

end Machine

end TypedStack
