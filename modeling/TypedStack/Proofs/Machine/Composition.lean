import TypedStack.Proofs.Machine.Termination

/-!
# Calls compose

A call runs its function as if it were the entry of the program: with the
arguments as activation, an empty stack, and the frames that are left as the
limit. The frames that wait below do not show, and the machine of the call can
be read as the machine of that invocation put above them. The one place where
they matter is the last return, where the values go to the caller if they fit.
-/

namespace TypedStack

namespace Machine

/-- The machine put above frames that wait for it, in another program and under
other limits. -/
def above (program : Program) (limits : Limits) (waiting : List Frame) (machine : Machine) :
    Machine :=
  { machine with
    program
    limits
    callers := machine.callers ++ waiting }

section

variable (program : Program) (limits : Limits) (waiting : List Frame) (machine : Machine)

@[simp] theorem outcome_above :
    (machine.above program limits waiting).outcome = machine.outcome :=
  rfl

@[simp] theorem callers_above :
    (machine.above program limits waiting).callers = machine.callers ++ waiting :=
  rfl

end

/-- The program has the same functions as that of the machine, and the limits
give the same stacks. -/
structure Alike (program : Program) (limits : Limits) (machine : Machine) : Prop where
  functions : ∀ index, program.function? index = machine.program.function? index
  stack : limits.stack = machine.limits.stack

section

variable {program : Program} {limits : Limits} {machine after : Machine}

theorem Alike.of_transition
    {flow : Flow} (h : Alike program limits machine)
    (htransition : Transition machine flow after) : Alike program limits after := by
  constructor
  · rw [htransition.program_eq]
    exact h.functions
  · rw [htransition.limits_eq]
    exact h.stack

theorem Fetched.above
    {function : Function} {instruction : Instruction} {next : Nat}
    (h : Fetched machine function instruction next)
    (halike : Alike program limits machine) (waiting : List Frame) :
    Fetched (machine.above program limits waiting) function instruction next :=
  ⟨(halike.functions _).trans h.function_eq, h.inside, h.decodeAt_eq⟩

/-- As long as it goes on, the machine does above other frames what it does
without them. -/
theorem Transition.above
    (h : Transition machine .continue after) (halike : Alike program limits machine)
    (waiting : List Frame) :
    Transition (machine.above program limits waiting) .continue
      (after.above program limits waiting) := by
  cases h with
  | within fetched isLocal inputs performed =>
    exact .within (fetched.above halike waiting) isLocal inputs performed
  | enter fetched callee_eq room popped =>
    have hcallee := (halike.functions _).trans callee_eq
    have henter := Transition.enter (fetched.above halike waiting) hcallee room popped
    rw [Machine.above, halike.stack] at henter
    exact henter
  | leave fetched returns callers_eq extended =>
    refine .leave (fetched.above halike waiting) returns ?_ extended
    rw [callers_above, callers_eq]
    rfl

/-- Where the machine is blocked, it is so above other frames. -/
theorem Blocked.above
    {kind : TrapKind} (h : Blocked machine kind) (halike : Alike program limits machine)
    (waiting : List Frame) :
    Blocked (machine.above program limits waiting) kind := by
  cases h with
  | lost function_eq => exact .lost ((halike.functions _).trans function_eq)
  | overrun function_eq outside =>
    exact .overrun ((halike.functions _).trans function_eq) outside
  | undecodable function_eq inside decodeAt_eq =>
    exact .undecodable ((halike.functions _).trans function_eq) inside decodeAt_eq
  | inputs fetched short => exact .inputs (fetched.above halike waiting) short
  | within fetched isLocal inputs stopped =>
    exact .within (fetched.above halike waiting) isLocal inputs stopped
  | noCallee fetched callee_eq =>
    exact .noCallee (fetched.above halike waiting) ((halike.functions _).trans callee_eq)
  | noRoom fetched callee_eq room =>
    exact .noRoom (fetched.above halike waiting) ((halike.functions _).trans callee_eq) room
  | arguments fetched callee_eq room short =>
    have hcallee := (halike.functions _).trans callee_eq
    exact .arguments (fetched.above halike waiting) hcallee room short
  | returns fetched returns => exact .returns (fetched.above halike waiting) returns
  | @caller _ _ caller callers fetched returns callers_eq full =>
    have hcallers : (machine.above program limits waiting).callers =
        caller :: (callers ++ waiting) := by
      rw [callers_above, callers_eq, List.cons_append]
    exact .caller (fetched.above halike waiting) returns hcallers full

/-! ## Runs above other frames -/

theorem step_above
    (halike : Alike program limits machine) (waiting : List Frame)
    (h : machine.step.outcome = none) :
    (machine.above program limits waiting).step =
      machine.step.above program limits waiting := by
  have hrunning := running_of_step h
  have htransition := (transition_of_running h).above halike waiting
  exact step_of_continue hrunning (execute_of_transition htransition)

theorem steps_above
    (halike : Alike program limits machine) (waiting : List Frame) {n : Nat}
    (h : (machine.steps n).outcome = none) :
    (machine.above program limits waiting).steps n =
        (machine.steps n).above program limits waiting ∧
      Alike program limits (machine.steps n) := by
  induction n with
  | zero => exact ⟨rfl, halike⟩
  | succ n ih =>
    obtain ⟨hsteps, halike⟩ := ih (running_of_le (Nat.le_succ n) h)
    rw [steps_succ] at h
    rw [steps_succ, steps_succ, hsteps]
    exact ⟨step_above halike waiting h, halike.of_transition (transition_of_running h)⟩

theorem trap_above
    (halike : Alike program limits machine) (waiting : List Frame)
    (hrunning : machine.outcome = none) {trap : Trap}
    (h : machine.step.outcome = some (.error trap)) :
    (machine.above program limits waiting).step.outcome = some (.error trap) := by
  rcases step_outcome_cases hrunning with
    ⟨kind, after, hexecute, houtcome⟩ | ⟨-, houtcome⟩ | ⟨values, after, -, houtcome⟩
  · have hblocked := (blocked_of_execute hexecute).above halike waiting
    obtain ⟨after', hexecute'⟩ := execute_of_blocked hblocked
    rw [step_of_error ((outcome_above ..).trans hrunning) hexecute', ← h, houtcome]
    rfl
  · simp [houtcome] at h
  · simp [houtcome] at h

/-- The step that ends a run with values is a return from the outermost frame. -/
theorem finish_of_returned
    (hrunning : machine.outcome = none) {values : List Value}
    (h : machine.step.outcome = some (.ok values)) :
    ∃ function next, Fetched machine function .ret next ∧
      machine.frame.stack.depth = function.returns.toNat ∧ machine.callers = [] ∧
      values = machine.frame.stack.toList := by
  rcases step_outcome_cases hrunning with
    ⟨kind, after, -, houtcome⟩ | ⟨-, houtcome⟩ | ⟨found, after, hexecute, houtcome⟩
  · simp [houtcome] at h
  · simp [houtcome] at h
  · have hfound : found = values := by
      simpa [houtcome] using h
    rw [← hfound]
    cases transition_of_execute hexecute with
    | finish fetched returns callers_eq => exact ⟨_, _, fetched, returns, callers_eq, rfl⟩

/-- Above a frame with room, the last return goes on in that frame. -/
theorem step_above_of_returned
    (halike : Alike program limits machine) (hrunning : machine.outcome = none)
    {values : List Value} (h : machine.step.outcome = some (.ok values))
    {caller : Frame} {callers : List Frame}
    (hroom : caller.stack.depth + values.length ≤ caller.stack.limit) :
    (machine.above program limits (caller :: callers)).step =
      resume
        { caller with
          stack := ⟨caller.stack.limit, values.reverse ++ caller.stack.values⟩ }
        callers (machine.above program limits (caller :: callers)) := by
  obtain ⟨function, next, hfetched, hreturns, hcallers, rfl⟩ := finish_of_returned hrunning h
  have hcallers' : (machine.above program limits (caller :: callers)).callers =
      caller :: callers := by
    rw [callers_above, hcallers, List.nil_append]
  have hextended := OperandStack.extend_eq_ok.2 ⟨hroom, rfl⟩
  have htransition := Transition.leave (hfetched.above halike _) hreturns hcallers' hextended
  exact step_of_continue hrunning (execute_of_transition htransition)

/-- Above a frame without room, the last return traps. -/
theorem overflow_above_of_returned
    (halike : Alike program limits machine) (hrunning : machine.outcome = none)
    {values : List Value} (h : machine.step.outcome = some (.ok values))
    {caller : Frame} {callers : List Frame}
    (hfull : caller.stack.limit < caller.stack.depth + values.length) :
    (machine.above program limits (caller :: callers)).step.outcome =
      some (.error ⟨.stackOverflow, machine.frame.function, machine.frame.pc⟩) := by
  obtain ⟨function, next, hfetched, hreturns, hcallers, rfl⟩ := finish_of_returned hrunning h
  have hcallers' : (machine.above program limits (caller :: callers)).callers =
      caller :: callers := by
    rw [callers_above, hcallers, List.nil_append]
  rw [OperandStack.length_toList] at hfull
  have hblocked := Blocked.caller (hfetched.above halike _) hreturns hcallers' hfull
  obtain ⟨after, hexecute⟩ := execute_of_blocked hblocked
  rw [step_of_error ((outcome_above ..).trans hrunning) hexecute]
  rfl

/-! ## Calls -/

/-- The step of a call that succeeds. -/
theorem step_of_call
    {function callee : Function} {index : UInt16} {next : Nat} {rest args : List Value}
    (hfetched : Fetched machine function (.call index) next)
    (hsucceeds : machine.step.outcome = none)
    (hcallee : machine.program.function? index = some callee)
    (hstack : machine.frame.stack.toList = rest ++ args)
    (hargs : args.length = callee.arity.toNat) :
    0 < machine.room ∧
      machine.step =
        suspend (.enter index args callee.locals.toNat machine.limits.stack)
          { machine with
            frame := {
              machine.frame with
              pc := next
              stack := ⟨machine.frame.stack.limit, rest.reverse⟩ } } := by
  have hvalues : machine.frame.stack.values = args.reverse ++ rest.reverse := by
    rw [← List.reverse_append, ← hstack, OperandStack.toList, List.reverse_reverse]
  have htransition := transition_of_running hsucceeds
  generalize machine.step = after at htransition
  cases htransition with
  | within fetched isLocal _ _ =>
    obtain ⟨-, rfl, -⟩ := hfetched.unique fetched
    simp [Instruction.isLocal] at isLocal
  | leave fetched _ _ _ =>
    obtain ⟨-, hsame, -⟩ := hfetched.unique fetched
    simp at hsame
  | enter fetched callee_eq room popped =>
    obtain ⟨-, hsame, rfl⟩ := hfetched.unique fetched
    obtain rfl := Instruction.call.inj hsame
    obtain rfl := Option.some.inj (hcallee.symm.trans callee_eq)
    obtain ⟨-, rfl, rfl⟩ := OperandStack.popN_eq_ok.1 popped
    refine ⟨room, ?_⟩
    simp [hvalues, ← hargs]

/-- The machine that starts with a function as the entry and arguments only. -/
theorem start_withEntry
    {callee : Function} {index : UInt16} {args : List Value} (heap : Heap) (limits : Limits)
    (hcallee : program.function? index = some callee)
    (hargs : args.length = callee.arity.toNat) :
    start (program.withEntry index) heap limits (.ofArgs args) =
      .ok {
        program := program.withEntry index
        heap
        limits
        frame := .enter index args callee.locals.toNat limits.stack
        callers := []
        room := limits.frames - 1
        outcome := none } := by
  have hentry : (program.withEntry index).entry = some index := rfl
  have hfunction : (program.withEntry index).function? index = some callee := hcallee
  simp [start, hentry, hfunction, Activation.ofArgs, hargs, Frame.enter, Locals.declared,
    Locals.blank, OperandStack.empty]

/-- After a call, the machine is that of an invocation of the function, put above
the caller and the frames that waited before. -/
theorem step_of_call_eq_above
    {heap : Heap} {function callee : Function} {index : UInt16} {next : Nat}
    {rest args : List Value} {first : Machine}
    (hsound : Sound program heap limits machine)
    (hfetched : Fetched machine function (.call index) next)
    (hsucceeds : machine.step.outcome = none)
    (hcallee : program.function? index = some callee)
    (hstack : machine.frame.stack.toList = rest ++ args)
    (hargs : args.length = callee.arity.toNat)
    (hstart : start (program.withEntry index) heap
      ⟨limits.stack, limits.frames - (machine.callers.length + 1)⟩ (.ofArgs args) = .ok first) :
    machine.step =
      first.above program limits
        ({ machine.frame with pc := next, stack := ⟨limits.stack, rest.reverse⟩ } ::
          machine.callers) := by
  obtain ⟨rfl, rfl, rfl, hshaped, hroomEq⟩ := hsound
  obtain ⟨_, hframe⟩ := hshaped machine.frame (by simp [frames])
  obtain ⟨hroom, hstep⟩ := step_of_call hfetched hsucceeds hcallee hstack hargs
  have hrunning := running_of_step hsucceeds
  rw [start_withEntry _ _ hcallee hargs] at hstart
  rw [hstep, ← Except.ok.inj hstart, hframe.limit_eq]
  simp only [suspend, above, hrunning, List.nil_append, Machine.mk.injEq, true_and, and_true]
  omega

theorem alike_of_withEntry
    {heap : Heap} {activation : Activation} {index : UInt16} {frames : Nat}
    (h : Reachable (program.withEntry index) heap ⟨limits.stack, frames⟩ activation machine) :
    Alike program limits machine := by
  constructor
  · rw [h.sound.program_eq]
    exact fun _ => rfl
  · rw [h.sound.limits_eq]

/-- Once the invocation is back in its outermost frame, resuming the caller gives
the machine that made the call, with only its innermost frame changed. -/
theorem resume_above_eq
    {heap : Heap} {index : UInt16} {last : Machine} {caller : Frame}
    (hsound : Sound program heap limits machine)
    (hlast : Sound (program.withEntry index) heap
      ⟨limits.stack, limits.frames - (machine.callers.length + 1)⟩ last)
    (hroom : 0 < machine.room) (hcallers : last.callers = [])
    (hrunning : machine.outcome = none) (hlastRunning : last.outcome = none)
    (frame : Frame) :
    resume frame machine.callers (last.above program limits (caller :: machine.callers)) =
      { machine with frame } := by
  have hleft : last.room + 1 = machine.room := by
    have hmachine := hsound.room_eq
    have hinvocation := hlast.room_eq
    simp only [hcallers, List.length_nil] at hinvocation
    omega
  simp [resume, above, hsound.program_eq, hsound.limits_eq, hsound.heap_eq, hlast.heap_eq,
    hrunning, hlastRunning, hleft]

/-- The run returns `values` through the return at `offset` in the outermost
frame. -/
def ReturnsAt (machine : Machine) (offset : Nat) (values : List Value) : Prop :=
  ∃ n function next, (machine.steps n).outcome = none ∧
    Fetched (machine.steps n) function .ret next ∧ (machine.steps n).callers = [] ∧
    (machine.steps n).frame.pc = offset ∧
    (machine.steps (n + 1)).outcome = some (.ok values)

/-- A call that succeeds does what an invocation of its function with the same
arguments does, on the same heap and with the frames that are left. A trap of the
invocation is the trap of the machine. Values that fit go to the caller, which
goes on behind the call and is otherwise unchanged; values that do not fit make
the return of the function trap. -/
theorem call_composes
    {heap : Heap} {activation : Activation} {function callee : Function} {index : UInt16}
    {next : Nat} {rest args : List Value}
    (h : Reachable program heap limits activation machine)
    (hfetched : Fetched machine function (.call index) next)
    (hsucceeds : machine.step.outcome = none)
    (hcallee : program.function? index = some callee)
    (hstack : machine.frame.stack.toList = rest ++ args)
    (hargs : args.length = callee.arity.toNat) :
    ∃ first outcome,
      start (program.withEntry index) heap
        ⟨limits.stack, limits.frames - (machine.callers.length + 1)⟩ (.ofArgs args) = .ok first ∧
      invoke (program.withEntry index) heap
        ⟨limits.stack, limits.frames - (machine.callers.length + 1)⟩ (.ofArgs args) =
          .ok outcome ∧
      (∀ trap, outcome = .error trap →
        ∃ n, (machine.steps n).outcome = some (.error trap)) ∧
      (∀ values, outcome = .ok values → rest.length + values.length ≤ limits.stack →
        ∃ n, machine.steps n =
          { machine with
            frame := {
              machine.frame with
              pc := next
              stack := ⟨limits.stack, (rest ++ values).reverse⟩ } }) ∧
      ∀ values, outcome = .ok values → limits.stack < rest.length + values.length →
        ∃ offset, first.ReturnsAt offset values ∧
          ∃ n, (machine.steps n).outcome = some (.error ⟨.stackOverflow, index, offset⟩) := by
  have hsound := h.sound
  obtain ⟨first, hstart⟩ : ∃ first, start (program.withEntry index) heap
      ⟨limits.stack, limits.frames - (machine.callers.length + 1)⟩ (.ofArgs args) = .ok first :=
    ⟨_, start_withEntry _ _ hcallee hargs⟩
  have habove :=
    step_of_call_eq_above hsound hfetched hsucceeds hcallee hstack hargs hstart
  generalize hcaller : ({ machine.frame with
    pc := next, stack := ⟨limits.stack, rest.reverse⟩ } : Frame) = caller at habove
  have hfirst : first.outcome = none := by
    have houtcome := congrArg Machine.outcome habove
    exact houtcome.symm.trans hsucceeds
  -- the last state of the invocation, above the frames that wait
  obtain ⟨n, outcome, hrunning, hended⟩ := exists_last_step hfirst
  have hreachable := (Reachable.start hstart).steps n
  have halike := alike_of_withEntry hreachable
  have hlast : machine.steps (n + 2) =
      ((first.steps n).above program limits (caller :: machine.callers)).step := by
    have hsteps := (steps_above (alike_of_withEntry (.start hstart))
      (caller :: machine.callers) hrunning).1
    rw [← hsteps, ← habove]
    exact steps_succ machine (n + 1)
  have hended' := hended
  rw [steps_succ] at hended'
  refine ⟨first, outcome, hstart, ?_, ?_, ?_, ?_⟩
  · rw [invoke, hstart, ← run_eq_of_steps hended]
    rfl
  · rintro trap rfl
    refine ⟨n + 2, ?_⟩
    rw [hlast]
    exact trap_above halike _ hrunning hended'
  · rintro values rfl hfits
    obtain ⟨_, _, -, -, hcallers, -⟩ := finish_of_returned hrunning hended'
    have hroom : caller.stack.depth + values.length ≤ caller.stack.limit := by
      simpa [← hcaller, OperandStack.depth] using hfits
    have hcalled :=
      (step_of_call hfetched hsucceeds (hsound.program_eq ▸ hcallee) hstack hargs).1
    refine ⟨n + 2, ?_⟩
    rw [hlast, step_above_of_returned halike hrunning hended' hroom,
      resume_above_eq hsound hreachable.sound hcalled hcallers (running_of_step hsucceeds)
        hrunning, ← hcaller, List.reverse_append]
  · rintro values rfl hfull
    obtain ⟨returning, behind, hret, -, hcallers, -⟩ := finish_of_returned hrunning hended'
    refine ⟨(first.steps n).frame.pc, ?_, n + 2, ?_⟩
    · exact ⟨n, returning, behind, hrunning, hret, hcallers, rfl, hended⟩
    · have hroom : caller.stack.limit < caller.stack.depth + values.length := by
        simpa [← hcaller, OperandStack.depth] using hfull
      have hindex : (first.steps n).frame.function = index := by
        simpa [frames, hcallers, Program.withEntry] using hreachable.bottom_eq
      rw [hlast, overflow_above_of_returned halike hrunning hended' hroom, hindex]

end

/-- A function that pushes two values and calls another with the upper one finds
what that returns above the lower one. -/
theorem call_composes_above_value :
    ∃ machine : Machine,
      Reachable
        ⟨#[⟨"outer", 0, 0, 2, #[2, 1, 2, 2, 12, 1, 0, 13]⟩,
          ⟨"inner", 1, 0, 1, #[4, 0, 13]⟩], some 0⟩
        (.empty .retain) ⟨2, 2⟩ .empty machine ∧
      (∃ function, Fetched machine function (.call 1) 7) ∧ machine.step.outcome = none ∧
      machine.frame.stack.toList = [.u8 1] ++ [.u8 2] ∧
      ∃ n, machine.steps n =
        { machine with
          frame := { machine.frame with pc := 7, stack := ⟨2, [.u8 2, .u8 1]⟩ } } := by
  have hreachable := (Reachable.start (rfl : start
    ⟨#[⟨"outer", 0, 0, 2, #[2, 1, 2, 2, 12, 1, 0, 13]⟩,
      ⟨"inner", 1, 0, 1, #[4, 0, 13]⟩], some 0⟩ (.empty .retain) ⟨2, 2⟩ .empty = _)).step.step
  refine ⟨_, hreachable, ⟨_, rfl, by decide, rfl⟩, rfl, rfl, ?_⟩
  obtain ⟨_, outcome, _, hinvoke, -, hvalues, -⟩ :=
    call_composes hreachable ⟨rfl, by decide, rfl⟩ rfl
      (rfl : _ = some (⟨"inner", 1, 0, 1, #[4, 0, 13]⟩ : Function))
      (rfl : _ = [Value.u8 1] ++ [Value.u8 2]) rfl
  have hinner := hinvoke.symm.trans (congrArg Except.ok (run_eq_of_steps (n := 2) rfl))
  exact hvalues [.u8 2] (Except.ok.inj hinner) (by decide)

end Machine

end TypedStack
