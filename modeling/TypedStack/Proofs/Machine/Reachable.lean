import TypedStack.Machine.Run
import TypedStack.Proofs.Machine.Atomicity

/-!
# Reachable states

The states of a run, and what holds in all of them: the program, the heap and the
limits are those of the start, every live frame has the shape that its function
gives it, and live frames and room for more add up to the limit. The shape bounds
every stack by its limit, so that instructions are atomic in reachable states.
This settles what a step from such a state can do, and `Reachable.induct` is the
induction over runs that follows.
-/

namespace TypedStack

/-- The shape that its function and the stack limit give a frame. -/
structure Frame.Shaped
    (program : Program) (limit : Nat) (frame : Frame) (function : Function) : Prop where
  function_eq : program.function? frame.function = some function
  arguments : frame.arguments.length = function.arity.toNat
  locals : frame.locals.length = function.locals.toNat
  limit_eq : frame.stack.limit = limit
  depth_le : frame.stack.depth ≤ limit

theorem Frame.Shaped.fits
    {program : Program} {limit : Nat} {frame : Frame} {function : Function}
    (h : frame.Shaped program limit function) : frame.stack.Fits := by
  have hdepth := h.depth_le
  rw [← h.limit_eq] at hdepth
  exact hdepth

theorem Frame.Shaped.of_kept
    {program : Program} {limit : Nat} {before after : Frame} {function : Function}
    (h : before.Shaped program limit function) (hkept : Frame.Kept before after) :
    after.Shaped program limit function where
  function_eq := hkept.function ▸ h.function_eq
  arguments := hkept.arguments.trans h.arguments
  locals := hkept.locals.trans h.locals
  limit_eq := hkept.limit.trans h.limit_eq
  depth_le := by
    have hfits := hkept.fits h.fits
    unfold OperandStack.Fits at hfits
    rw [hkept.limit, h.limit_eq] at hfits
    exact hfits

theorem Frame.shaped_enter
    {program : Program} {index : UInt16} {function : Function} {args : List Value}
    (limit : Nat) (hfunction : program.function? index = some function)
    (hargs : args.length = function.arity.toNat) :
    (Frame.enter index args function.locals.toNat limit).Shaped program limit function where
  function_eq := hfunction
  arguments := by simpa [enter, Arguments.ofValues, Arguments.length] using hargs
  locals := by simp [enter, Locals.blank, Locals.length]
  limit_eq := rfl
  depth_le := Nat.zero_le _

namespace Machine

/-- The live frames, the innermost first. -/
def frames (machine : Machine) : List Frame :=
  machine.frame :: machine.callers

/-! ## What transitions keep -/

section

variable {machine after : Machine} {flow : Flow}

theorem Transition.program_eq (h : Transition machine flow after) :
    after.program = machine.program := by
  cases h <;> rfl

theorem Transition.heap_eq (h : Transition machine flow after) :
    after.heap = machine.heap := by
  cases h <;> rfl

theorem Transition.limits_eq (h : Transition machine flow after) :
    after.limits = machine.limits := by
  cases h <;> rfl

/-- A frame that is live after a transition was so before, or it has just been
entered. -/
theorem Transition.kept_or_entered
    (h : Transition machine flow after) {frame : Frame} (hframe : frame ∈ after.frames) :
    (∃ before ∈ machine.frames, Frame.Kept before frame) ∨
      ∃ index callee args, machine.program.function? index = some callee ∧
        args.length = callee.arity.toNat ∧
        frame = .enter index args callee.locals.toNat machine.limits.stack := by
  cases h with
  | @within _ _ _ performedFrame _ _ _ performed =>
    have hkept := (Frame.keeps_perform _ _ _).of_ok performed
    rcases List.mem_cons.1 hframe with rfl | hcaller
    · refine .inl ⟨machine.frame, by simp [frames], ?_⟩
      exact ⟨hkept.function, hkept.arguments, hkept.locals, hkept.limit, hkept.fits⟩
    · exact .inl ⟨frame, List.mem_cons_of_mem _ hcaller, .refl frame⟩
  | @enter _ callee _ index args stack _ callee_eq _ popped =>
    obtain ⟨hdepth, hargs, hstack⟩ := OperandStack.popN_eq_ok.1 popped
    rcases List.mem_cons.1 hframe with rfl | hcaller
    · refine .inr ⟨index, callee, args, callee_eq, ?_, rfl⟩
      simp only [hargs, List.length_reverse, List.length_take]
      exact Nat.min_eq_left hdepth
    · rcases List.mem_cons.1 hcaller with rfl | hcaller
      · refine .inl ⟨machine.frame, by simp [frames], rfl, rfl, rfl, ?_, ?_⟩
        · simp [hstack]
        · exact fun hfits => hfits.popN popped
      · exact .inl ⟨frame, List.mem_cons_of_mem _ hcaller, .refl frame⟩
  | @leave _ _ caller callers stack _ _ callers_eq extended =>
    obtain ⟨-, hstack⟩ := OperandStack.extend_eq_ok.1 extended
    rcases List.mem_cons.1 hframe with rfl | hcaller
    · refine .inl ⟨caller, by simp [frames, callers_eq], rfl, rfl, rfl, ?_, ?_⟩
      · simp [resume, hstack]
      · exact fun _ => OperandStack.fits_extend extended
    · refine .inl ⟨frame, ?_, .refl frame⟩
      rw [frames, callers_eq]
      exact List.mem_cons_of_mem _ (List.mem_cons_of_mem _ hcaller)
  | finish _ _ _ =>
    rcases List.mem_cons.1 hframe with rfl | hcaller
    · refine .inl ⟨machine.frame, by simp [frames], rfl, rfl, rfl, rfl, fun _ => ?_⟩
      exact Nat.zero_le _
    · exact .inl ⟨frame, List.mem_cons_of_mem _ hcaller, .refl frame⟩

/-- The function of the outermost frame does not change. -/
theorem Transition.bottom_eq (h : Transition machine flow after) :
    after.frames.getLast?.map (·.function) = machine.frames.getLast?.map (·.function) := by
  cases h with
  | within _ _ _ performed =>
    have hkept := (Frame.keeps_perform _ _ _).of_ok performed
    cases hcallers : machine.callers <;> simp [frames, hcallers, hkept.function]
  | enter _ _ _ _ =>
    cases hcallers : machine.callers <;> simp [frames, suspend, hcallers]
  | @leave _ _ _ callers _ _ _ callers_eq _ =>
    cases callers <;> simp [frames, resume, callers_eq]
  | finish _ _ callers_eq => simp [frames, callers_eq]

theorem Transition.room_add_callers
    (h : Transition machine flow after) :
    after.room + after.callers.length = machine.room + machine.callers.length := by
  cases h with
  | within _ _ _ _ => rfl
  | enter _ _ room _ =>
    simp only [suspend, List.length_cons]
    omega
  | leave _ _ callers_eq _ =>
    simp only [resume, callers_eq, List.length_cons]
    omega
  | finish _ _ _ => rfl

end

/-! ## Reachable states -/

/-- The states of a run of the entry function of a program. -/
inductive Reachable
    (program : Program) (heap : Heap) (limits : Limits) (activation : Activation) :
    Machine → Prop where
  | start {machine : Machine} (h : start program heap limits activation = .ok machine) :
      Reachable program heap limits activation machine
  | step {machine : Machine} (h : Reachable program heap limits activation machine) :
      Reachable program heap limits activation machine.step

/-- A machine starts for an entry that exists, with as many arguments as it
takes, no more declared locals than it has, and a stack within the limit. -/
theorem start_eq_ok
    {program : Program} {heap : Heap} {limits : Limits} {activation : Activation}
    {machine : Machine} (h : start program heap limits activation = .ok machine) :
    ∃ entry function, program.entry = some entry ∧
      program.function? entry = some function ∧
      activation.args.length = function.arity.toNat ∧
      activation.locals.length ≤ function.locals.toNat ∧
      activation.stack.length ≤ limits.stack ∧
      machine =
        { program, heap, limits
          frame := {
            function := entry
            pc := 0
            arguments := .ofValues activation.args
            locals := .declared function.locals.toNat activation.locals
            stack := ⟨limits.stack, activation.stack.reverse⟩ }
          callers := []
          room := limits.frames - 1
          outcome := none } := by
  unfold start at h
  split at h
  · simp at h
  · rename_i entry hentry
    split at h
    · simp at h
    · rename_i function hfunction
      split at h
      · simp at h
      · rename_i hargs
        split at h
        · simp at h
        · rename_i hlocals
          split at h
          · simp at h
          · rename_i hstack
            refine ⟨entry, function, hentry, hfunction, Decidable.of_not_not hargs,
              Nat.le_of_not_lt hlocals, Nat.le_of_not_lt hstack, ?_⟩
            exact (Except.ok.inj h).symm

/-- What holds in every state of a run. -/
structure Sound
    (program : Program) (heap : Heap) (limits : Limits) (machine : Machine) : Prop where
  program_eq : machine.program = program
  heap_eq : machine.heap = heap
  limits_eq : machine.limits = limits
  shaped : ∀ frame ∈ machine.frames, ∃ function, frame.Shaped program limits.stack function
  room_eq : machine.room + machine.callers.length = limits.frames - 1

/-- The steps that end a run: a trap, which leaves the machine where it is, and the
return from the entry function. -/
inductive LastStep (before : Machine) : Machine → Prop where
  | trap {kind : TrapKind} (stopped : execute before = .error kind before) :
      LastStep before
        { before with
          outcome := some (.error ⟨kind, before.frame.function, before.frame.pc⟩) }
  | finish {values : List Value} {after : Machine}
      (transition : Transition before (.returned values) after) :
      LastStep before { after with outcome := some (.ok values) }

section

variable {program : Program} {heap : Heap} {limits : Limits} {machine after : Machine}

theorem Sound.fits (h : Sound program heap limits machine) : machine.frame.stack.Fits := by
  obtain ⟨function, hshaped⟩ := h.shaped machine.frame (by simp [frames])
  exact hshaped.fits

theorem Sound.of_start
    {activation : Activation} (h : start program heap limits activation = .ok machine) :
    Sound program heap limits machine := by
  obtain ⟨entry, function, -, hfunction, hargs, hlocals, hstack, rfl⟩ := start_eq_ok h
  refine ⟨rfl, rfl, rfl, ?_, rfl⟩
  intro frame hframe
  obtain rfl := List.mem_singleton.1 hframe
  refine ⟨function, hfunction, ?_, ?_, rfl, ?_⟩
  · simpa [Arguments.ofValues, Arguments.length] using hargs
  · simp only [Locals.declared, Locals.length, List.length_append, List.length_map,
      List.length_replicate]
    omega
  · simpa [OperandStack.depth] using hstack

theorem Sound.of_transition
    {flow : Flow} (h : Sound program heap limits machine)
    (htransition : Transition machine flow after) : Sound program heap limits after where
  program_eq := htransition.program_eq.trans h.program_eq
  heap_eq := htransition.heap_eq.trans h.heap_eq
  limits_eq := htransition.limits_eq.trans h.limits_eq
  shaped := by
    intro frame hframe
    rcases htransition.kept_or_entered hframe with
      ⟨before, hbefore, hkept⟩ | ⟨index, callee, args, hcallee, hargs, rfl⟩
    · obtain ⟨function, hshaped⟩ := h.shaped before hbefore
      exact ⟨function, hshaped.of_kept hkept⟩
    · rw [h.program_eq] at hcallee
      rw [h.limits_eq]
      exact ⟨callee, Frame.shaped_enter limits.stack hcallee hargs⟩
  room_eq := htransition.room_add_callers.trans h.room_eq

theorem Sound.with_outcome
    (h : Sound program heap limits machine) (outcome : Option Outcome) :
    Sound program heap limits { machine with outcome } :=
  ⟨h.program_eq, h.heap_eq, h.limits_eq, h.shaped, h.room_eq⟩

/-- What a step of a run that goes on can do: it carries out a transition, or it
ends the run. -/
theorem Sound.step_cases
    (h : Sound program heap limits machine) (hrunning : machine.outcome = none) :
    Transition machine .continue machine.step ∨ LastStep machine machine.step := by
  cases hexecute : execute machine with
  | error kind after =>
    have hafter : after = machine := (atomic_execute h.fits).of_error hexecute
    rw [hafter] at hexecute
    rw [step_of_error hrunning hexecute]
    exact .inr (.trap hexecute)
  | ok flow after =>
    have htransition := transition_of_execute hexecute
    cases flow with
    | «continue» =>
      rw [step_of_continue hrunning hexecute]
      exact .inl htransition
    | returned values =>
      rw [step_of_returned hrunning hexecute]
      exact .inr (.finish htransition)

theorem Sound.of_lastStep
    (h : Sound program heap limits machine) (hlast : LastStep machine after) :
    Sound program heap limits after := by
  cases hlast with
  | trap _ => exact h.with_outcome _
  | finish transition => exact (h.of_transition transition).with_outcome _

theorem Sound.step (h : Sound program heap limits machine) :
    Sound program heap limits machine.step := by
  cases houtcome : machine.outcome with
  | some outcome =>
    rw [step_of_outcome houtcome]
    exact h
  | none =>
    rcases h.step_cases houtcome with htransition | hlast
    · exact h.of_transition htransition
    · exact h.of_lastStep hlast

variable {activation : Activation}

theorem Reachable.sound (h : Reachable program heap limits activation machine) :
    Sound program heap limits machine := by
  induction h with
  | start hstart => exact .of_start hstart
  | step _ ih => exact ih.step

theorem Reachable.steps
    (h : Reachable program heap limits activation machine) (n : Nat) :
    Reachable program heap limits activation (machine.steps n) := by
  induction n generalizing machine with
  | zero => exact h
  | succ n ih => exact ih h.step

/-- Induction over the states of a run: the start, a trap that changes nothing
but the outcome, a transition, and the return that ends the run. -/
theorem Reachable.induct
    {motive : Machine → Prop}
    (hstart : ∀ machine, Machine.start program heap limits activation = .ok machine →
      motive machine)
    (htrap : ∀ machine kind, Reachable program heap limits activation machine →
      machine.outcome = none → execute machine = .error kind machine → motive machine →
      motive { machine with
        outcome := some (.error ⟨kind, machine.frame.function, machine.frame.pc⟩) })
    (hcontinue : ∀ machine after, Reachable program heap limits activation machine →
      machine.outcome = none → Transition machine .continue after → motive machine →
      motive after)
    (hfinish : ∀ machine values after, Reachable program heap limits activation machine →
      machine.outcome = none → Transition machine (.returned values) after →
      motive machine → motive { after with outcome := some (.ok values) })
    (h : Reachable program heap limits activation machine) : motive machine := by
  induction h with
  | start h => exact hstart _ h
  | @step machine h ih =>
    cases houtcome : machine.outcome with
    | some outcome =>
      rw [step_of_outcome houtcome]
      exact ih
    | none =>
      rcases h.sound.step_cases houtcome with htransition | hlast
      · exact hcontinue machine _ h houtcome htransition ih
      · generalize machine.step = after at hlast
        cases hlast with
        | trap stopped => exact htrap machine _ h houtcome stopped ih
        | finish transition => exact hfinish machine _ _ h houtcome transition ih

/-- The outermost frame runs the entry function. -/
theorem Reachable.bottom_eq (h : Reachable program heap limits activation machine) :
    machine.frames.getLast?.map (·.function) = program.entry := by
  refine h.induct (motive := fun machine =>
    machine.frames.getLast?.map (·.function) = program.entry) ?_ ?_ ?_ ?_
  · intro machine hstart
    obtain ⟨entry, _, hentry, -, -, -, -, rfl⟩ := start_eq_ok hstart
    simp [frames, hentry]
  · exact fun _ _ _ _ _ ih => ih
  · exact fun _ _ _ _ htransition ih => htransition.bottom_eq.trans ih
  · exact fun _ _ _ _ _ htransition ih => htransition.bottom_eq.trans ih

/-- A run that has ended did so with a step from a reachable state that was still
running. -/
theorem Reachable.exists_lastStep
    (h : Reachable program heap limits activation machine) {outcome : Outcome}
    (houtcome : machine.outcome = some outcome) :
    ∃ before, Reachable program heap limits activation before ∧ before.outcome = none ∧
      LastStep before machine := by
  refine h.induct (motive := fun machine => ∀ outcome, machine.outcome = some outcome →
    ∃ before, Reachable program heap limits activation before ∧ before.outcome = none ∧
      LastStep before machine) ?_ ?_ ?_ ?_ outcome houtcome
  · intro machine hstart outcome houtcome
    obtain ⟨_, _, -, -, -, -, -, rfl⟩ := start_eq_ok hstart
    simp at houtcome
  · intro machine kind hreachable hrunning hexecute _ _ _
    exact ⟨machine, hreachable, hrunning, .trap hexecute⟩
  · intro machine after _ hrunning htransition _ outcome houtcome
    rw [htransition.outcome_eq, hrunning] at houtcome
    simp at houtcome
  · intro machine values after hreachable hrunning htransition _ _ _
    exact ⟨machine, hreachable, hrunning, .finish htransition⟩

/-! ## Traps -/

/-- A machine that has trapped is still at the instruction that the trap names. -/
theorem Reachable.trap_eq
    (h : Reachable program heap limits activation machine) {trap : Trap}
    (htrap : machine.outcome = some (.error trap)) :
    trap = ⟨trap.kind, machine.frame.function, machine.frame.pc⟩ := by
  obtain ⟨before, -, -, hlast⟩ := h.exists_lastStep htrap
  cases hlast with
  | trap _ =>
    simp only [Option.some.injEq, Except.error.injEq] at htrap
    rw [← htrap]
  | finish _ => simp at htrap

theorem status_eq_trapped :
    machine.status = .trapped ↔ ∃ trap, machine.outcome = some (.error trap) := by
  unfold status
  split <;> simp_all

/-- A step that ends in a trap changes nothing but the outcome: the innermost
frame, the frames that wait and the heap are what they were, and the trap names
the instruction that the innermost frame was and still is at. -/
theorem trap_changes_outcome_only
    (h : Reachable program heap limits activation machine)
    (htrapped : machine.step.status = .trapped) :
    ∃ kind, machine.step =
      { machine with
        outcome := some (.error ⟨kind, machine.frame.function, machine.frame.pc⟩) } := by
  obtain ⟨trap, htrap⟩ := status_eq_trapped.1 htrapped
  cases houtcome : machine.outcome with
  | some outcome =>
    rw [step_of_outcome houtcome] at htrap ⊢
    refine ⟨trap.kind, ?_⟩
    rw [← h.trap_eq htrap, ← htrap]
  | none =>
    rcases h.sound.step_cases houtcome with htransition | hlast
    · rw [htransition.outcome_eq, houtcome] at htrap
      simp at htrap
    · generalize machine.step = after at hlast htrap
      cases hlast with
      | trap _ => exact ⟨_, rfl⟩
      | finish _ => simp at htrap

end

/-- Moving an argument onto a full stack traps and leaves the argument where it
is. -/
theorem trap_changes_outcome_only_full_stack :
    ∃ machine : Machine,
      Reachable (.single ⟨"first", 1, 0, 1, #[4, 0]⟩) (.empty .retain) ⟨0, 1⟩
        (.ofArgs [.u8 7]) machine ∧
      machine.step.status = .trapped ∧ machine.frame.arguments = .ofValues [.u8 7] ∧
      ∃ kind, machine.step =
        { machine with
          outcome := some (.error ⟨kind, machine.frame.function, machine.frame.pc⟩) } := by
  refine ⟨_, .start rfl, rfl, rfl, ?_⟩
  exact trap_changes_outcome_only
    (.start (rfl : Machine.start (.single ⟨"first", 1, 0, 1, #[4, 0]⟩) (.empty .retain)
      ⟨0, 1⟩ (.ofArgs [.u8 7]) = _)) rfl

end Machine

end TypedStack
