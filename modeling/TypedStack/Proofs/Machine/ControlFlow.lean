import TypedStack.Proofs.Machine.Effects
import TypedStack.Proofs.Machine.Termination

/-!
# Control flow does not depend on data

A machine without its values is a skeleton: the status and, frame by frame, the
function, the program counter, the depth of the stack and which arguments are
consumed. Skeletons have steps of their own, for which the program is all that is
needed, and as long as a run does not trap, its steps are steps of its skeleton. So
values, the heap and declared locals decide about nothing but traps.
-/

namespace TypedStack

/-- A frame without values. -/
structure Frame.Outline where
  function : UInt16
  pc : Nat
  depth : Nat
  consumed : List Bool
  deriving DecidableEq, Repr

/-- What is left of a frame without its values. -/
def Frame.outline (frame : Frame) : Frame.Outline :=
  ⟨frame.function, frame.pc, frame.stack.depth, frame.arguments.consumed⟩

/-- A machine without values. The innermost frame is the first. -/
structure Skeleton where
  status : Status
  frames : List Frame.Outline
  deriving DecidableEq, Repr

/-- What is left of a machine without its values. -/
def Machine.skeleton (machine : Machine) : Skeleton :=
  ⟨machine.status, machine.frames.map Frame.outline⟩

/-! ## Steps of a skeleton -/

/-- Where a run goes on after an instruction. -/
inductive Control where
  | next
  | enter (index : UInt16)
  | leave
  deriving DecidableEq, Repr

/-- Where a run goes on after an instruction. -/
def Instruction.control : Instruction → Control
  | call index => .enter index
  | ret => .leave
  | nop | pushU8 _ | loadArg _ | popArg _ | initLocal _ _ | popLocal _ | pushLocal _ => .next
  | refSlot _ | pushArray | checkedConvert _ | uncheckedConvert _ => .next

theorem Instruction.control_of_isLocal {instruction : Instruction} (h : instruction.isLocal) :
    instruction.control = .next := by
  cases instruction with
  | call index => cases h
  | ret => cases h
  | _ => rfl

namespace Skeleton

/-- The skeleton after the innermost frame has carried out an instruction, behind
which the next one is at offset `next`. -/
def carryOut (program : Program) (instruction : Instruction) (next : Nat)
    (frame : Frame.Outline) (callers : List Frame.Outline) : Skeleton :=
  match instruction.control with
  | .next =>
    let depth := (frame.depth + instruction.effect program).toNat
    ⟨.running, { frame with pc := next, depth, consumed := instruction.consume frame.consumed } ::
      callers⟩
  | .enter index =>
    match program.function? index with
    | none => ⟨.trapped, frame :: callers⟩
    | some callee =>
      let entered := ⟨index, 0, 0, List.replicate callee.arity.toNat false⟩
      ⟨.running, entered ::
        { frame with pc := next, depth := frame.depth - callee.arity.toNat } :: callers⟩
  | .leave =>
    match callers with
    | [] => ⟨.returned, [{ frame with depth := 0 }]⟩
    | caller :: callers =>
      ⟨.running, { caller with depth := caller.depth + frame.depth } :: callers⟩

/-- A step of a skeleton, as far as it does not depend on values. -/
def step (program : Program) (skeleton : Skeleton) : Skeleton :=
  match skeleton with
  | ⟨.running, frame :: callers⟩ =>
    match program.function? frame.function with
    | none => ⟨.trapped, frame :: callers⟩
    | some function =>
      match Instruction.decodeAt function.code.toList frame.pc with
      | .error _ => ⟨.trapped, frame :: callers⟩
      | .ok (instruction, next) => carryOut program instruction next frame callers
  | ⟨.running, []⟩ => ⟨.running, []⟩
  | ⟨.returned, frames⟩ => ⟨.returned, frames⟩
  | ⟨.trapped, frames⟩ => ⟨.trapped, frames⟩

end Skeleton

namespace Machine

section

variable {machine after : Machine}

theorem skeleton_of_running (h : machine.outcome = none) :
    machine.skeleton =
      ⟨.running, machine.frame.outline :: machine.callers.map Frame.outline⟩ := by
  simp only [skeleton, status, h, frames, List.map_cons]

theorem skeleton_of_returned {values : List Value} (h : machine.outcome = some (.ok values)) :
    machine.skeleton = ⟨.returned, machine.frames.map Frame.outline⟩ := by
  simp only [skeleton, status, h]

theorem Fetched.skeleton_step
    {function : Function} {instruction : Instruction} {next : Nat}
    (h : Fetched machine function instruction next) (hrunning : machine.outcome = none) :
    machine.skeleton.step machine.program =
      .carryOut machine.program instruction next machine.frame.outline
        (machine.callers.map Frame.outline) := by
  have hfunction : machine.program.function? machine.frame.outline.function = some function :=
    h.function_eq
  have hdecode : Instruction.decodeAt function.code.toList machine.frame.outline.pc =
      .ok (instruction, next) := h.decodeAt_eq
  rw [skeleton_of_running hrunning]
  simp only [Skeleton.step, hfunction, hdecode]

/-- A transition that leaves the run going is a step of the skeleton. -/
theorem Transition.skeleton_continue
    (h : Transition machine .continue after) (hrunning : machine.outcome = none) :
    after.skeleton = machine.skeleton.step machine.program := by
  rw [skeleton_of_running (h.outcome_eq.trans hrunning)]
  cases h with
  | within fetched isLocal inputs performed =>
    have hkept := (Frame.keeps_perform _ _ _).of_ok performed
    obtain ⟨hdepth, hconsumed⟩ :=
      (Frame.uses_perform machine.program machine.heap isLocal machine.frame inputs).of_ok
        performed
    rw [fetched.skeleton_step hrunning]
    simp only [Skeleton.carryOut, Instruction.control_of_isLocal isLocal, Frame.outline,
      hkept.function, hconsumed, ← hdepth, Int.toNat_natCast]
  | @enter _ callee next index args stack fetched callee_eq room popped =>
    obtain ⟨hdepth, rfl, rfl⟩ := OperandStack.popN_eq_ok.1 popped
    have hargs : (machine.frame.stack.values.take callee.arity.toNat).length =
        callee.arity.toNat := by
      rw [List.length_take]
      exact Nat.min_eq_left hdepth
    rw [fetched.skeleton_step hrunning]
    simp only [Skeleton.carryOut, Instruction.control, callee_eq, suspend, Frame.enter,
      Frame.outline, Arguments.consumed_ofValues, List.length_reverse, hargs,
      OperandStack.depth, OperandStack.empty, List.length_nil, List.length_drop, List.map_cons]
  | leave fetched returns callers_eq extended =>
    obtain ⟨-, rfl⟩ := OperandStack.extend_eq_ok.1 extended
    rw [fetched.skeleton_step hrunning, callers_eq]
    simp only [Skeleton.carryOut, Instruction.control, List.map_cons, resume, Frame.outline,
      OperandStack.depth, OperandStack.toList, List.length_append, List.length_reverse,
      Nat.add_comm]

/-- So is the return that ends the run. -/
theorem Transition.skeleton_returned
    {values : List Value} (h : Transition machine (.returned values) after)
    (hrunning : machine.outcome = none) :
    skeleton { after with outcome := some (.ok values) } =
      machine.skeleton.step machine.program := by
  cases h with
  | finish fetched returns callers_eq =>
    rw [fetched.skeleton_step hrunning, skeleton_of_returned rfl]
    simp only [Skeleton.carryOut, Instruction.control, frames, callers_eq, List.map_cons,
      List.map_nil, Frame.outline, OperandStack.depth, OperandStack.empty, List.length_nil]

/-- A step that does not end in a trap is a step of the skeleton. -/
theorem skeleton_step (h : machine.step.status ≠ .trapped) :
    machine.step.skeleton = machine.skeleton.step machine.program := by
  cases houtcome : machine.outcome with
  | some outcome =>
    rw [step_of_outcome houtcome] at h ⊢
    cases outcome with
    | ok values =>
      rw [skeleton_of_returned houtcome]
      rfl
    | error trap => exact absurd (status_eq_trapped.2 ⟨trap, houtcome⟩) h
  | none =>
    cases hexecute : execute machine with
    | error kind after =>
      rw [step_of_error houtcome hexecute] at h
      exact absurd rfl h
    | ok flow after =>
      have htransition := transition_of_execute hexecute
      cases flow with
      | «continue» =>
        rw [step_of_continue houtcome hexecute]
        exact htransition.skeleton_continue houtcome
      | returned values =>
        rw [step_of_returned houtcome hexecute]
        exact htransition.skeleton_returned houtcome

theorem status_eq_running : machine.status = .running ↔ machine.outcome = none := by
  unfold status
  split <;> simp_all

theorem status_eq_returned :
    machine.status = .returned ↔ ∃ values, machine.outcome = some (.ok values) := by
  unfold status
  split <;> simp_all

/-! ## Two runs -/

/-- A trap is not recovered from. -/
theorem not_trapped_of_le
    {m n : Nat} (hmn : m ≤ n) (h : (machine.steps n).status ≠ .trapped) :
    (machine.steps m).status ≠ .trapped := by
  intro htrapped
  obtain ⟨trap, htrap⟩ := status_eq_trapped.1 htrapped
  obtain ⟨k, rfl⟩ := Nat.exists_eq_add_of_le hmn
  rw [steps_add, steps_of_outcome htrap] at h
  exact h htrapped

theorem not_trapped_of_run
    {values : List Value} (h : machine.run = .ok values) (n : Nat) :
    (machine.steps n).status ≠ .trapped := by
  intro htrapped
  obtain ⟨trap, htrap⟩ := status_eq_trapped.1 htrapped
  rw [run_eq_of_steps htrap] at h
  cases h

variable {program : Program} {limits : Limits} {heap heap' : Heap}
  {activation activation' : Activation} {machine' : Machine}

theorem skeleton_start
    (h : start program heap limits activation = .ok machine)
    (h' : start program heap' limits activation' = .ok machine')
    (hstack : activation.stack.length = activation'.stack.length) :
    machine.skeleton = machine'.skeleton := by
  obtain ⟨entry, function, hentry, hfunction, hargs, -, -, rfl⟩ := start_eq_ok h
  obtain ⟨entry', function', hentry', hfunction', hargs', -, -, rfl⟩ := start_eq_ok h'
  obtain rfl := Option.some.inj (hentry.symm.trans hentry')
  obtain rfl := Option.some.inj (hfunction.symm.trans hfunction')
  rw [skeleton_of_running rfl, skeleton_of_running rfl]
  simp only [Frame.outline, Arguments.consumed_ofValues, OperandStack.depth,
    List.length_reverse, hargs, hargs', hstack]

/-- Runs that start with the same skeleton keep to the same skeleton until one of
them traps. -/
theorem Reachable.skeleton_steps
    (h : Reachable program heap limits activation machine)
    (h' : Reachable program heap' limits activation' machine')
    (hskeleton : machine.skeleton = machine'.skeleton) {n : Nat}
    (hn : (machine.steps n).status ≠ .trapped) (hn' : (machine'.steps n).status ≠ .trapped) :
    (machine.steps n).skeleton = (machine'.steps n).skeleton := by
  induction n with
  | zero => exact hskeleton
  | succ n ih =>
    have hbefore :=
      ih (not_trapped_of_le (Nat.le_succ n) hn) (not_trapped_of_le (Nat.le_succ n) hn')
    rw [steps_succ] at hn hn' ⊢
    rw [steps_succ, Machine.skeleton_step hn, Machine.skeleton_step hn', hbefore,
      (h.steps n).sound.program_eq, (h'.steps n).sound.program_eq]

/-- A run that returns goes on up to the step that brings the values. -/
theorem exists_returning_step
    {values : List Value} (hrunning : machine.outcome = none) (h : machine.run = .ok values) :
    ∃ n, (∀ k < n, (machine.steps k).outcome = none) ∧
      (machine.steps n).outcome = some (.ok values) := by
  obtain ⟨n, outcome, hlast, hended⟩ := exists_last_step hrunning
  refine ⟨n + 1, fun k hk => running_of_le (Nat.le_of_lt_succ hk) hlast, ?_⟩
  rw [hended, ← run_eq_of_steps hended, h]

/-- Two runs of a program that start with stacks of the same depth are alike, apart
from values, as long as neither has trapped. If both return, they do so after the
same number of steps. -/
theorem control_flow_independent_of_data
    (hstart : start program heap limits activation = .ok machine)
    (hstart' : start program heap' limits activation' = .ok machine')
    (hstack : activation.stack.length = activation'.stack.length) :
    (∀ n, (machine.steps n).status ≠ .trapped → (machine'.steps n).status ≠ .trapped →
      (machine.steps n).status = (machine'.steps n).status ∧
      (machine.steps n).depth = (machine'.steps n).depth ∧
      (machine.steps n).frames.map Frame.outline =
        (machine'.steps n).frames.map Frame.outline) ∧
    ∀ values values', machine.run = .ok values → machine'.run = .ok values' →
      ∃ n, (∀ k < n, (machine.steps k).outcome = none ∧ (machine'.steps k).outcome = none) ∧
        (machine.steps n).outcome = some (.ok values) ∧
        (machine'.steps n).outcome = some (.ok values') := by
  have halike {n : Nat} := (Reachable.start hstart).skeleton_steps (.start hstart')
    (skeleton_start hstart hstart' hstack) (n := n)
  refine ⟨fun n hn hn' => ?_, fun values values' hrun hrun' => ?_⟩
  · obtain ⟨hstatus, hframes⟩ := Skeleton.mk.inj (halike hn hn')
    refine ⟨hstatus, ?_, hframes⟩
    have hlength := congrArg List.length hframes
    rwa [List.length_map, List.length_map, length_frames, length_frames] at hlength
  · have hrunning : machine.outcome = none := by
      obtain ⟨_, _, -, -, -, -, -, rfl⟩ := start_eq_ok hstart
      rfl
    have hstatus (n : Nat) : (machine.steps n).status = (machine'.steps n).status :=
      (Skeleton.mk.inj (halike (not_trapped_of_run hrun n) (not_trapped_of_run hrun' n))).1
    obtain ⟨n, hbefore, hended⟩ := exists_returning_step hrunning hrun
    refine ⟨n, fun k hk => ⟨hbefore k hk, ?_⟩, hended, ?_⟩
    · rw [← status_eq_running, ← hstatus]
      exact status_eq_running.2 (hbefore k hk)
    · obtain ⟨found, hfound⟩ := status_eq_returned.1
        ((hstatus n).symm.trans (status_eq_returned.2 ⟨values, hended⟩))
      rw [hfound, ← run_eq_of_steps hfound, hrun']

/-- A function that looks up an element in a called one, run on two heaps. -/
theorem control_flow_independent_of_lookup :
    ∃ machine machine' : Machine,
      start
        ⟨#[⟨"outer", 1, 0, 1, #[4, 0, 12, 1, 0, 13]⟩, ⟨"inner", 1, 0, 1, #[3, 0, 8, 1, 13]⟩],
          some 0⟩
        ⟨.retain, #[⟨0, some (.ofBytes [5])⟩], [], 1⟩ ⟨1, 2⟩
        (.ofArgs [.ref ⟨⟨0, 0⟩, .integer .u8⟩]) = .ok machine ∧
      start
        ⟨#[⟨"outer", 1, 0, 1, #[4, 0, 12, 1, 0, 13]⟩, ⟨"inner", 1, 0, 1, #[3, 0, 8, 1, 13]⟩],
          some 0⟩
        ⟨.recycle, #[⟨0, none⟩, ⟨7, some (.ofBytes [9, 8])⟩], [0], 1⟩ ⟨1, 2⟩
        (.ofArgs [.ref ⟨⟨1, 7⟩, .integer .u8⟩]) = .ok machine' ∧
      (machine.steps 3).frames.map Frame.outline = (machine'.steps 3).frames.map Frame.outline ∧
      ∃ n, (machine.steps n).outcome = some (.ok [.u8 5]) ∧
        (machine'.steps n).outcome = some (.ok [.u8 9]) := by
  have hstart := (rfl : start
    ⟨#[⟨"outer", 1, 0, 1, #[4, 0, 12, 1, 0, 13]⟩, ⟨"inner", 1, 0, 1, #[3, 0, 8, 1, 13]⟩], some 0⟩
    ⟨.retain, #[⟨0, some (.ofBytes [5])⟩], [], 1⟩ ⟨1, 2⟩
    (.ofArgs [.ref ⟨⟨0, 0⟩, .integer .u8⟩]) = _)
  have hstart' := (rfl : start
    ⟨#[⟨"outer", 1, 0, 1, #[4, 0, 12, 1, 0, 13]⟩, ⟨"inner", 1, 0, 1, #[3, 0, 8, 1, 13]⟩], some 0⟩
    ⟨.recycle, #[⟨0, none⟩, ⟨7, some (.ofBytes [9, 8])⟩], [0], 1⟩ ⟨1, 2⟩
    (.ofArgs [.ref ⟨⟨1, 7⟩, .integer .u8⟩]) = _)
  obtain ⟨halike, hreturn⟩ := control_flow_independent_of_data hstart hstart' rfl
  obtain ⟨n, -, hended, hended'⟩ := hreturn [.u8 5] [.u8 9]
    (run_eq_of_steps (n := 6) rfl) (run_eq_of_steps (n := 6) rfl)
  refine ⟨_, _, hstart, hstart', ?_, n, hended, hended'⟩
  exact (halike 3 (by decide) (by decide)).2.2

end

end Machine

end TypedStack
