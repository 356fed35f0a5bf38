import TypedStack.Machine.Transition
import TypedStack.Heap.Shared

/-!
# Runs

A run ends for every program. Within a frame the program counter only moves
forward, and a call, which starts a function from its beginning, uses up one of
the frames that are allowed. So the code left in each live frame, weighed by a
power that falls with the depth of the frame, falls with every step, and `run`
is defined by recursion on that weight.
-/

namespace TypedStack

namespace Program

/-- The length of the longest code of a function. -/
def longestCode (program : Program) : Nat :=
  (program.functions.toList.map (·.code.size)).foldr max 0

theorem le_foldr_max {n : Nat} {lengths : List Nat} (h : n ∈ lengths) :
    n ≤ lengths.foldr max 0 := by
  induction lengths with
  | nil => simp at h
  | cons first rest ih =>
    simp only [List.foldr_cons]
    rcases List.mem_cons.1 h with rfl | hrest
    · exact Nat.le_max_left _ _
    · exact Nat.le_trans (ih hrest) (Nat.le_max_right _ _)

theorem code_size_le_longestCode {program : Program} {index : UInt16} {function : Function}
    (h : program.function? index = some function) :
    function.code.size ≤ program.longestCode := by
  apply le_foldr_max
  rw [List.mem_map]
  exact ⟨function, Array.mem_toList_iff.2 (Array.mem_of_getElem? h), rfl⟩

end Program

namespace Machine

/-- How many bytes of code a frame has before it. -/
def codeLeft (program : Program) (frame : Frame) : Nat :=
  match program.function? frame.function with
  | none => 0
  | some function => function.code.size - frame.pc

/-- The weight of live frames, the innermost first, with room for more. A byte of
code left in a frame counts more than all the code of all the functions that can
be entered from it. -/
def frameWeight (program : Program) (room : Nat) : List Frame → Nat
  | [] => 0
  | frame :: callers =>
    codeLeft program frame * Nat.pow (program.longestCode + 1) room +
      frameWeight program (room + 1) callers

/-- What falls with every step of a run, and is zero once it has ended. -/
def weight (machine : Machine) : Nat :=
  if machine.outcome.isNone then
    frameWeight machine.program machine.room (machine.frame :: machine.callers) + 1
  else 0

theorem codeLeft_le_longestCode (program : Program) (frame : Frame) :
    codeLeft program frame ≤ program.longestCode := by
  unfold codeLeft
  split
  · exact Nat.zero_le _
  · rename_i function h
    exact Nat.le_trans (Nat.sub_le _ _) (Program.code_size_le_longestCode h)

theorem power_pos (program : Program) (n : Nat) : 0 < Nat.pow (program.longestCode + 1) n :=
  Nat.pow_pos (Nat.succ_pos _)

/-- Moving forward in the innermost frame makes the weight fall. -/
theorem frameWeight_lt_of_codeLeft_lt {program : Program} {room : Nat} {frame after : Frame}
    {callers : List Frame} (h : codeLeft program after < codeLeft program frame) :
    frameWeight program room (after :: callers) < frameWeight program room (frame :: callers) := by
  have hpow := power_pos program room
  have := Nat.mul_lt_mul_of_pos_right h hpow
  simp only [frameWeight]
  omega

/-- Entering a function from a frame that has moved forward makes the weight
fall. -/
theorem frameWeight_call_lt {program : Program} {room : Nat} {frame after callee : Frame}
    {callers : List Frame} (h : codeLeft program after < codeLeft program frame) :
    frameWeight program room (callee :: after :: callers) <
      frameWeight program (room + 1) (frame :: callers) := by
  have hcallee := codeLeft_le_longestCode program callee
  have hpow := power_pos program room
  have hcall : codeLeft program callee * Nat.pow (program.longestCode + 1) room <
      Nat.pow (program.longestCode + 1) (room + 1) := by
    rw [Nat.mul_comm]
    exact Nat.mul_lt_mul_of_pos_left (Nat.lt_succ_of_le hcallee) hpow
  have hafter : (codeLeft program after + 1) * Nat.pow (program.longestCode + 1) (room + 1) ≤
      codeLeft program frame * Nat.pow (program.longestCode + 1) (room + 1) :=
    Nat.mul_le_mul_right _ h
  rw [Nat.add_mul, Nat.one_mul] at hafter
  simp only [frameWeight]
  omega

/-- Leaving a frame with code left makes the weight fall. -/
theorem frameWeight_ret_lt {program : Program} {room : Nat} {frame caller after : Frame}
    {callers : List Frame} (hcode : 0 < codeLeft program frame)
    (hafter : codeLeft program after = codeLeft program caller) :
    frameWeight program (room + 1) (after :: callers) <
      frameWeight program room (frame :: caller :: callers) := by
  have hpow := power_pos program room
  have := Nat.mul_pos hcode hpow
  simp only [frameWeight, hafter]
  omega

section

variable {machine after : Machine} {function : Function} {instruction : Instruction} {next : Nat}

theorem Fetched.codeLeft_pos (h : Fetched machine function instruction next) :
    0 < codeLeft machine.program machine.frame := by
  have := h.inside
  simp only [codeLeft, h.function_eq]
  omega

theorem Fetched.codeLeft_lt (h : Fetched machine function instruction next) {frame : Frame}
    (hfunction : frame.function = machine.frame.function) (hpc : frame.pc = next) :
    codeLeft machine.program frame < codeLeft machine.program machine.frame := by
  have := h.inside
  have := h.pc_lt
  simp only [codeLeft, hfunction, h.function_eq, hpc]
  omega

/-- An instruction that leaves the run going makes the weight fall. -/
theorem Transition.frameWeight_lt (h : Transition machine .continue after) :
    frameWeight after.program after.room (after.frame :: after.callers) <
      frameWeight machine.program machine.room (machine.frame :: machine.callers) := by
  cases h with
  | within fetched _ _ performed =>
    have hkept := (Frame.keeps_perform _ _ _).of_ok performed
    exact frameWeight_lt_of_codeLeft_lt (fetched.codeLeft_lt hkept.function rfl)
  | enter fetched _ room _ =>
    obtain ⟨left, hroom⟩ := Nat.exists_eq_add_one.2 room
    simp only [suspend, hroom, Nat.add_sub_cancel]
    exact frameWeight_call_lt (fetched.codeLeft_lt rfl rfl)
  | leave fetched _ callers_eq _ =>
    rw [callers_eq]
    exact frameWeight_ret_lt fetched.codeLeft_pos rfl

theorem Transition.outcome_eq {flow : Flow} (h : Transition machine flow after) :
    after.outcome = machine.outcome := by
  cases h <;> rfl

end

/-! ## Steps -/

section

variable {machine after : Machine}

@[simp] theorem step_of_outcome {outcome : Outcome} (h : machine.outcome = some outcome) :
    machine.step = machine := by
  simp [step, h]

theorem step_of_error {kind : TrapKind} (h : machine.outcome = none)
    (hexecute : execute machine = .error kind after) :
    machine.step =
      { after with
        outcome := some (.error ⟨kind, machine.frame.function, machine.frame.pc⟩) } := by
  simp [step, h, hexecute]

theorem step_of_continue (h : machine.outcome = none)
    (hexecute : execute machine = .ok .continue after) : machine.step = after := by
  simp [step, h, hexecute]

theorem step_of_returned {values : List Value} (h : machine.outcome = none)
    (hexecute : execute machine = .ok (.returned values) after) :
    machine.step = { after with outcome := some (.ok values) } := by
  simp [step, h, hexecute]

/-- What a step of a run that goes on brings: a trap, no outcome yet, or values. -/
theorem step_outcome_cases (h : machine.outcome = none) :
    (∃ kind after, execute machine = .error kind after ∧
      machine.step.outcome =
        some (.error ⟨kind, machine.frame.function, machine.frame.pc⟩)) ∨
    (execute machine = .ok .continue machine.step ∧ machine.step.outcome = none) ∨
    ∃ values after, execute machine = .ok (.returned values) after ∧
      machine.step.outcome = some (.ok values) := by
  cases hexecute : execute machine with
  | error kind after =>
    refine .inl ⟨kind, after, rfl, ?_⟩
    rw [step_of_error h hexecute]
  | ok flow after =>
    cases flow with
    | «continue» =>
      rw [step_of_continue h hexecute]
      exact .inr (.inl ⟨rfl, (transition_of_execute hexecute).outcome_eq.trans h⟩)
    | returned values =>
      refine .inr (.inr ⟨values, after, rfl, ?_⟩)
      rw [step_of_returned h hexecute]

/-- A step of a run that has not ended makes the weight fall. -/
theorem weight_step_lt (h : machine.outcome = none) : machine.step.weight < machine.weight := by
  rcases step_outcome_cases h with
    ⟨kind, after, -, houtcome⟩ | ⟨hexecute, houtcome⟩ | ⟨values, after, -, houtcome⟩
  · simp [weight, h, houtcome]
  · have hlt := (transition_of_execute hexecute).frameWeight_lt
    simpa [weight, h, houtcome] using hlt
  · simp [weight, h, houtcome]

end

/-- The outcome of running on until there is one. -/
def run (machine : Machine) : Outcome :=
  match h : machine.outcome with
  | some outcome => outcome
  | none =>
    have := weight_step_lt h
    machine.step.run
termination_by machine.weight

/-- The outcome of running the entry function of a program. -/
def invoke (program : Program) (heap : Heap) (limits : Limits) (activation : Activation) :
    Except SetupError Outcome :=
  (start program heap limits activation).map run

end Machine

end TypedStack
