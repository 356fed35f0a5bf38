import Mathlib.Algebra.Ring.Int.Defs
import TypedStack.Proofs.Machine.Effects
import TypedStack.Proofs.Machine.Termination
import TypedStack.Proofs.Machine.WellFormed

/-!
# Stack depths are static

How many values are on the stack of a frame is known from where the frame stands:
it is what the frame has started with and the sum of the effects of the lines
before it. A frame that waits for a call is short of the arguments of the call. So
it can be read off the code which instructions find too few values and which
returns find a wrong number of them.
-/

namespace TypedStack

/-! ## Effects along a listing -/

namespace Listing

open Instruction

/-- By how much the lines before an offset make the stack deeper. -/
def effectBefore (program : Program) (listing : Listing) (offset : Nat) : Int :=
  ((listing.lines.filter (·.offset < offset)).map (·.instruction.effect program)).sum

section

variable {program : Program} {code bytes : Bytes} {offset : Nat} {line : Line}

theorem effectBefore_cons (rest : Listing) :
    effectBefore program ⟨line :: rest.lines, rest.error⟩ offset =
      (if line.offset < offset then line.instruction.effect program else 0) +
        rest.effectBefore program offset := by
  by_cases hbefore : line.offset < offset <;> simp [effectBefore, hbefore]

theorem effectBefore_eq_zero
    {listing : Listing} (h : ∀ line ∈ listing.lines, offset ≤ line.offset) :
    listing.effectBefore program offset = 0 := by
  have hnone : listing.lines.filter (·.offset < offset) = [] := by
    rw [List.filter_eq_nil_iff]
    intro line hline
    simpa using h line hline
  rw [effectBefore, hnone]
  rfl

theorem le_offset_of_ofSuffix (h : line ∈ (ofSuffix offset bytes).lines) :
    offset ≤ line.offset := by
  induction offset, bytes using ofSuffix.induct with
  | case1 offset =>
    rw [ofSuffix_nil] at h
    simp at h
  | case2 offset bytes hnil e hread =>
    rw [ofSuffix_of_error hnil hread] at h
    simp at h
  | case3 offset bytes hnil instruction size hread _ ih =>
    rw [ofSuffix_of_ok hnil hread] at h
    rcases List.mem_cons.1 h with rfl | hrest
    · exact Nat.le_refl _
    · exact Nat.le_trans (Nat.le_add_right _ _) (ih hrest)

/-- A line adds its effect to that of the lines before it. -/
theorem effectBefore_behind_line (h : line ∈ (ofSuffix offset bytes).lines) :
    (ofSuffix offset bytes).effectBefore program (line.offset + line.bytes.length) =
      (ofSuffix offset bytes).effectBefore program line.offset +
        line.instruction.effect program := by
  induction offset, bytes using ofSuffix.induct with
  | case1 offset =>
    rw [ofSuffix_nil] at h
    simp at h
  | case2 offset bytes hnil e hread =>
    rw [ofSuffix_of_error hnil hread] at h
    simp at h
  | case3 offset bytes hnil instruction size hread _ ih =>
    have hpos := read_size_pos hread
    have hrest_eq_zero {limit : Nat} (hlimit : limit ≤ offset + size) :
        (ofSuffix (offset + size) (bytes.drop size)).effectBefore program limit = 0 :=
      effectBefore_eq_zero fun _ hline =>
        Nat.le_trans hlimit (le_offset_of_ofSuffix hline)
    rw [ofSuffix_of_ok hnil hread] at h ⊢
    rw [effectBefore_cons, effectBefore_cons]
    rcases List.mem_cons.1 h with rfl | hrest
    · have hlength : (bytes.take size).length = size := by
        rw [List.length_take, Nat.min_eq_left (read_size_le hread)]
      simp only [hlength]
      rw [hrest_eq_zero (Nat.le_refl _), hrest_eq_zero (Nat.le_add_right _ _),
        if_pos (by omega), if_neg (Nat.lt_irrefl _)]
      omega
    · have hbehind := le_offset_of_ofSuffix hrest
      rw [if_pos (show offset < _ by omega), if_pos (show offset < _ by omega), ih hrest]
      omega

theorem effectBefore_zero (code : Bytes) : (ofCode code).effectBefore program 0 = 0 :=
  effectBefore_eq_zero fun _ _ => Nat.zero_le _

end

end Listing

/-- By how much the lines of a function before an offset make the stack deeper. -/
def Program.effectBefore (program : Program) (index : UInt16) (offset : Nat) : Int :=
  match program.function? index with
  | some function => function.listing.effectBefore program offset
  | none => 0

namespace Machine

section

variable {program : Program} {index : UInt16} {function : Function}

theorem effectBefore_of_function (hfunction : program.function? index = some function)
    (offset : Nat) :
    program.effectBefore index offset = function.listing.effectBefore program offset := by
  simp only [Program.effectBefore, hfunction]

theorem effectBefore_entry (hfunction : program.function? index = some function) :
    program.effectBefore index 0 = 0 := by
  rw [effectBefore_of_function hfunction]
  exact Listing.effectBefore_zero _

theorem effectBefore_next
    {line : Listing.Line} (hfunction : program.function? index = some function)
    (hline : line ∈ function.listing.lines) :
    program.effectBefore index (line.offset + line.bytes.length) =
      program.effectBefore index line.offset + line.instruction.effect program := by
  rw [effectBefore_of_function hfunction, effectBefore_of_function hfunction]
  exact Listing.effectBefore_behind_line hline

end

/-! ## Levels of frames -/

/-- How many values a frame starts with, if `callers` wait below it: those given to
the run, or none. -/
def base (initial : Nat) (callers : List Frame) : Nat :=
  if callers.isEmpty then initial else 0

/-- How many values a frame of a function has on its stack when it comes to an
offset, if `callers` wait below it. -/
def level (program : Program) (initial : Nat) (callers : List Frame) (index : UInt16)
    (offset : Nat) : Int :=
  base initial callers + program.effectBefore index offset

/-- A frame directly behind a call of a function, without the arguments of the
call. -/
def Suspended (program : Program) (initial : Nat) (callers : List Frame) (waiting : Frame)
    (called : UInt16) : Prop :=
  ∃ function callee line, program.function? waiting.function = some function ∧
    program.function? called = some callee ∧
    line ∈ function.listing.lines ∧ line.instruction = .call called ∧
    waiting.pc = line.offset + line.bytes.length ∧
    (waiting.stack.depth : Int) =
      level program initial callers waiting.function line.offset - callee.arity.toNat

/-- Live frames, the innermost first, each of which is suspended at a call of the
function of the frame above it. -/
def Nested (program : Program) (initial : Nat) (frames : List Frame) : Prop :=
  ∀ above waiting callers, above :: waiting :: callers <:+ frames →
    Suspended program initial callers waiting above.function

/-- A machine all of whose stacks have the depth that the code gives. Once the run
has returned, the values are off the stack, but there were as many of them. -/
structure Leveled (program : Program) (initial : Nat) (machine : Machine) : Prop where
  innermost : machine.status ≠ .returned →
    (machine.frame.stack.depth : Int) =
      level program initial machine.callers machine.frame.function machine.frame.pc
  returned : ∀ values, machine.outcome = some (.ok values) →
    machine.frame.stack.depth = 0 ∧
      (values.length : Int) =
        level program initial machine.callers machine.frame.function machine.frame.pc
  waiting : Nested program initial machine.frames

section

variable {program : Program} {initial : Nat} {frame waiting : Frame} {callers : List Frame}

theorem nested_singleton (frame : Frame) : Nested program initial [frame] := by
  intro above waiting callers hsuffix
  have hlength := hsuffix.length_le
  simp at hlength

theorem Nested.tail (h : Nested program initial (frame :: callers)) :
    Nested program initial callers := by
  intro above waiting callers' hsuffix
  exact h above waiting callers' (hsuffix.trans (List.suffix_cons _ _))

theorem Nested.cons
    (h : Nested program initial (waiting :: callers))
    (hsuspended : Suspended program initial callers waiting frame.function) :
    Nested program initial (frame :: waiting :: callers) := by
  intro above waiting' callers' hsuffix
  rcases List.suffix_cons_iff.1 hsuffix with heq | htail
  · simp only [List.cons.injEq] at heq
    obtain ⟨rfl, rfl, rfl⟩ := heq
    exact hsuspended
  · exact h above waiting' callers' htail

/-- Of the innermost frame only the function matters to those that wait. -/
theorem Nested.replace
    {frame' : Frame} (h : Nested program initial (frame :: callers))
    (hfunction : frame'.function = frame.function) :
    Nested program initial (frame' :: callers) := by
  intro above waiting callers' hsuffix
  rcases List.suffix_cons_iff.1 hsuffix with heq | htail
  · obtain ⟨rfl, rfl⟩ := List.cons.inj heq
    rw [hfunction]
    exact h frame waiting callers' (List.suffix_refl _)
  · exact h.tail above waiting callers' htail

/-- A frame that waits is at the level of the code behind the call once it has the
values that the called function returns. -/
theorem Suspended.level_resumed
    {called : UInt16} {callee : Function} {values : List Value} {stack : OperandStack}
    (h : Suspended program initial callers waiting called)
    (hcallee : program.function? called = some callee)
    (hvalues : values.length = callee.returns.toNat)
    (hextended : waiting.stack.extend values = .ok stack) :
    (stack.depth : Int) = level program initial callers waiting.function waiting.pc := by
  obtain ⟨function, callee', line, hfunction, hcallee', hline, hcall, hpc, hdepth⟩ := h
  obtain rfl := Option.some.inj (hcallee.symm.trans hcallee')
  obtain ⟨-, rfl⟩ := OperandStack.extend_eq_ok.1 hextended
  have heffect := effectBefore_next hfunction hline
  rw [hcall, ← hpc] at heffect
  simp only [Instruction.effect, hcallee] at heffect
  rw [level] at hdepth ⊢
  simp only [OperandStack.depth, List.length_append, List.length_reverse, hvalues] at hdepth ⊢
  omega

end

section

variable {machine after : Machine} {function : Function} {initial next : Nat}
  {callers : List Frame}

theorem status_of_running (h : machine.outcome = none) : machine.status ≠ .returned := by
  simp [status, h]

/-- The instruction about to be carried out adds its effect to the level. -/
theorem Fetched.level_next
    {instruction : Instruction} (h : Fetched machine function instruction next)
    (hboundary : AtBoundary machine.program machine.frame) :
    level machine.program initial callers machine.frame.function next =
      level machine.program initial callers machine.frame.function machine.frame.pc +
        instruction.effect machine.program := by
  obtain ⟨line, hline, hoffset, hinstruction, hnext⟩ :=
    (h.isBoundary hboundary).exists_line h.decodeAt_eq
  have heffect := effectBefore_next h.function_eq hline
  rw [hnext, hoffset, hinstruction] at heffect
  rw [level, level, heffect, Int.add_assoc]

/-- The frame that calls is left without the arguments. -/
theorem Fetched.suspended
    {callee : Function} {index : UInt16} {args : List Value} {stack : OperandStack}
    (h : Fetched machine function (.call index) next)
    (hboundary : AtBoundary machine.program machine.frame)
    (hcallee : machine.program.function? index = some callee)
    (hpopped : machine.frame.stack.popN callee.arity.toNat = .ok (args, stack))
    (hlevel : (machine.frame.stack.depth : Int) =
      level machine.program initial callers machine.frame.function machine.frame.pc) :
    Suspended machine.program initial callers { machine.frame with pc := next, stack } index := by
  obtain ⟨line, hline, hoffset, hinstruction, hnext⟩ :=
    (h.isBoundary hboundary).exists_line h.decodeAt_eq
  refine ⟨function, callee, line, h.function_eq, hcallee, hline, hinstruction, hnext.symm, ?_⟩
  obtain ⟨hdepth, -, rfl⟩ := OperandStack.popN_eq_ok.1 hpopped
  rw [hoffset, ← hlevel]
  simp only [OperandStack.depth, List.length_drop] at hdepth ⊢
  omega

/-! ## Levels along a run -/

theorem leveled_start
    {program : Program} {heap : Heap} {limits : Limits} {activation : Activation}
    (h : start program heap limits activation = .ok machine) :
    Leveled program activation.stack.length machine := by
  obtain ⟨entry, function, -, hfunction, -, -, -, rfl⟩ := start_eq_ok h
  refine ⟨fun _ => ?_, by simp, nested_singleton _⟩
  rw [level, effectBefore_entry hfunction]
  simp [base, OperandStack.depth]

/-- A trap leaves every stack as it is. -/
theorem Leveled.trapped
    {program : Program} (h : Leveled program initial machine) (hrunning : machine.outcome = none)
    (trap : Trap) : Leveled program initial { machine with outcome := some (.error trap) } where
  innermost := fun _ => h.innermost (status_of_running hrunning)
  returned := by simp
  waiting := h.waiting

theorem Leveled.innermost_of_transition
    (h : Leveled machine.program initial machine)
    (hplaced : Placed machine.program machine.frames) (hrunning : machine.outcome = none)
    (htransition : Transition machine .continue after) :
    (after.frame.stack.depth : Int) =
      level machine.program initial after.callers after.frame.function after.frame.pc := by
  have hinnermost := h.innermost (status_of_running hrunning)
  have hboundary := hplaced.boundary machine.frame List.mem_cons_self
  cases htransition with
  | within fetched isLocal inputs performed =>
    have hkept := (Frame.keeps_perform _ _ _).of_ok performed
    obtain ⟨hdepth, -⟩ :=
      (Frame.uses_perform machine.program machine.heap isLocal machine.frame inputs).of_ok
        performed
    simp only
    rw [hkept.function, fetched.level_next hboundary, hdepth, hinnermost]
  | enter fetched callee_eq room popped =>
    simp only [suspend, Frame.enter]
    rw [level, effectBefore_entry callee_eq]
    simp [base, OperandStack.depth, OperandStack.empty]
  | @leave _ _ caller callers stack fetched returns callers_eq extended =>
    have hnested := h.waiting
    rw [frames, callers_eq] at hnested
    have hsuspended := hnested machine.frame caller callers (List.suffix_refl _)
    have hvalues : machine.frame.stack.toList.length = _ :=
      OperandStack.length_toList.trans returns
    exact hsuspended.level_resumed fetched.function_eq hvalues extended

theorem Leveled.nested_of_transition
    (h : Leveled machine.program initial machine)
    (hplaced : Placed machine.program machine.frames) (hrunning : machine.outcome = none)
    (htransition : Transition machine .continue after) :
    Nested machine.program initial after.frames := by
  have hinnermost := h.innermost (status_of_running hrunning)
  have hboundary := hplaced.boundary machine.frame List.mem_cons_self
  have hnested : Nested machine.program initial (machine.frame :: machine.callers) := h.waiting
  cases htransition with
  | within fetched isLocal inputs performed =>
    have hkept := (Frame.keeps_perform _ _ _).of_ok performed
    exact hnested.replace hkept.function
  | @enter _ _ next _ _ stack fetched callee_eq room popped =>
    have hcaller : Nested machine.program initial
        ({ machine.frame with pc := next, stack } :: machine.callers) :=
      hnested.replace rfl
    exact hcaller.cons (fetched.suspended hboundary callee_eq popped hinnermost)
  | leave fetched returns callers_eq extended =>
    rw [callers_eq] at hnested
    exact hnested.tail.replace rfl

theorem Leveled.of_transition
    (h : Leveled machine.program initial machine)
    (hplaced : Placed machine.program machine.frames) (hrunning : machine.outcome = none)
    (htransition : Transition machine .continue after) :
    Leveled machine.program initial after where
  innermost := fun _ => h.innermost_of_transition hplaced hrunning htransition
  returned := by simp [htransition.outcome_eq, hrunning]
  waiting := h.nested_of_transition hplaced hrunning htransition

/-- The last return takes off as many values as the level of the entry function
says. -/
theorem Leveled.of_finish
    {values : List Value} (h : Leveled machine.program initial machine)
    (hrunning : machine.outcome = none)
    (htransition : Transition machine (.returned values) after) :
    Leveled machine.program initial { after with outcome := some (.ok values) } := by
  have hinnermost := h.innermost (status_of_running hrunning)
  have hnested : Nested machine.program initial (machine.frame :: machine.callers) := h.waiting
  cases htransition with
  | finish fetched returns callers_eq =>
    refine ⟨by simp [status], ?_, hnested.replace rfl⟩
    intro found hfound
    obtain rfl := Except.ok.inj (Option.some.inj hfound)
    refine ⟨rfl, ?_⟩
    rw [OperandStack.length_toList]
    exact hinnermost

end

section

variable {program : Program} {machine : Machine}
variable {heap : Heap} {limits : Limits} {activation : Activation}

theorem Reachable.leveled (h : Reachable program heap limits activation machine) :
    Leveled program activation.stack.length machine := by
  refine h.induct (motive := Leveled program activation.stack.length) ?_ ?_ ?_ ?_
  · exact fun _ => leveled_start
  · exact fun _ _ _ hrunning _ ih => ih.trapped hrunning _
  · intro machine after hreachable hrunning htransition ih
    have hplaced := hreachable.placed
    rw [← hreachable.sound.program_eq] at ih hplaced ⊢
    exact ih.of_transition hplaced hrunning htransition
  · intro machine values after hreachable hrunning htransition ih
    rw [← hreachable.sound.program_eq] at ih ⊢
    exact ih.of_finish hrunning htransition

end

/-! ## Traps for a wrong number of values -/

/-- The function that an instruction enters: that of a call, if it exists and there
is room for a frame. -/
def entered? (machine : Machine) : Instruction → Option Function
  | .call index =>
    if machine.depth < machine.limits.frames then machine.program.function? index else none
  | .nop | .pushU8 _ | .loadArg _ | .popArg _ | .initLocal _ _ | .popLocal _ => none
  | .pushLocal _ | .refSlot _ | .pushArray | .checkedConvert _ | .uncheckedConvert _ => none
  | .ret => none

/-- How many values an instruction takes from the stack or looks at. A call takes
the arguments of the function that it enters. -/
def inputs (machine : Machine) (instruction : Instruction) : Nat :=
  match machine.entered? instruction with
  | some callee => callee.arity.toNat
  | none => instruction.stackInputs

section

variable {machine : Machine} {instruction : Instruction}

theorem entered?_of_isLocal (h : instruction.isLocal) : machine.entered? instruction = none := by
  cases instruction with
  | call index => cases h
  | _ => rfl

theorem entered?_eq_some {callee : Function} :
    machine.entered? instruction = some callee ↔
      ∃ index, instruction = .call index ∧ machine.depth < machine.limits.frames ∧
        machine.program.function? index = some callee := by
  rcases instruction.call_or_ret_or_isLocal with ⟨index, rfl⟩ | rfl | hlocal
  · simp only [entered?, Instruction.call.injEq]
    split
    · rename_i hroom
      exact ⟨fun h => ⟨index, rfl, hroom, h⟩, fun ⟨_, heq, _, h⟩ => heq ▸ h⟩
    · rename_i hroom
      exact ⟨by simp, fun ⟨_, _, h, _⟩ => absurd h hroom⟩
  · simp [entered?]
  · rw [entered?_of_isLocal hlocal]
    refine ⟨by simp, ?_⟩
    rintro ⟨index, rfl, -⟩
    cases hlocal

theorem inputs_of_entered? {callee : Function} (h : machine.entered? instruction = some callee) :
    machine.inputs instruction = callee.arity.toNat := by
  simp only [inputs, h]

theorem inputs_of_not_entered (h : machine.entered? instruction = none) :
    machine.inputs instruction = instruction.stackInputs := by
  simp only [inputs, h]

/-- A step of a run that goes on ends in a trap just where the machine is blocked. -/
theorem step_trap?_eq_some {kind : TrapKind} (hrunning : machine.outcome = none) :
    machine.step.trap? = some ⟨kind, machine.frame.function, machine.frame.pc⟩ ↔
      Blocked machine kind := by
  constructor
  · intro htrap
    rcases step_outcome_cases hrunning with
      ⟨found, after, hexecute, houtcome⟩ | ⟨-, houtcome⟩ | ⟨values, after, -, houtcome⟩
    · simp only [trap?, houtcome, Option.some.injEq, Trap.mk.injEq, and_true] at htrap
      exact htrap ▸ blocked_of_execute hexecute
    · simp [trap?, houtcome] at htrap
    · simp [trap?, houtcome] at htrap
  · intro hblocked
    obtain ⟨after, hexecute⟩ := execute_of_blocked hblocked
    simp only [trap?, step_of_error hrunning hexecute]

theorem blocked_stackUnderflow
    {program : Program} {heap : Heap} {limits : Limits} (h : Sound program heap limits machine) :
    Blocked machine .stackUnderflow ↔ ∃ function instruction next,
      Fetched machine function instruction next ∧
        machine.frame.stack.depth < machine.inputs instruction := by
  have hroom := h.room_eq
  rw [← h.limits_eq] at hroom
  constructor
  · intro hblocked
    cases hblocked with
    | @inputs function instruction next fetched short =>
      refine ⟨function, instruction, next, fetched, ?_⟩
      cases hentered : machine.entered? instruction with
      | none => rwa [inputs_of_not_entered hentered]
      | some callee =>
        obtain ⟨index, rfl, -, -⟩ := entered?_eq_some.1 hentered
        exact absurd short (Nat.not_lt_zero _)
    | within fetched isLocal inputs stopped =>
      have hspared :=
        (Frame.uses_perform machine.program machine.heap isLocal machine.frame inputs).of_error
          stopped
      cases hspared
    | @arguments function callee next index fetched callee_eq room short =>
      have hentered : machine.entered? (.call index) = some callee :=
        entered?_eq_some.2 ⟨index, rfl, by rw [depth]; omega, callee_eq⟩
      refine ⟨function, .call index, next, fetched, ?_⟩
      rwa [inputs_of_entered? hentered]
  · rintro ⟨function, instruction, next, hfetched, hshort⟩
    cases hentered : machine.entered? instruction with
    | none =>
      rw [inputs_of_not_entered hentered] at hshort
      exact .inputs hfetched hshort
    | some callee =>
      rw [inputs_of_entered? hentered] at hshort
      obtain ⟨index, rfl, hdepth, hcallee⟩ := entered?_eq_some.1 hentered
      rw [depth] at hdepth
      exact .arguments hfetched hcallee (by omega) hshort

theorem blocked_returnArityMismatch :
    Blocked machine .returnArityMismatch ↔ ∃ function next,
      Fetched machine function .ret next ∧
        machine.frame.stack.depth ≠ function.returns.toNat := by
  constructor
  · intro hblocked
    cases hblocked with
    | within fetched isLocal inputs stopped =>
      have hspared :=
        (Frame.uses_perform machine.program machine.heap isLocal machine.frame inputs).of_error
          stopped
      cases hspared
    | @returns function next fetched returns => exact ⟨function, next, fetched, returns⟩
  · rintro ⟨function, next, hfetched, hreturns⟩
    exact .returns hfetched hreturns

end

/-! ## Depths and traps of a run -/

/-- Once the run has returned the stack is not at the level of the frame: the values
are off it, but the frame is still at the return behind the line that made them. -/
theorem depth_not_static_once_returned :
    ∃ machine : Machine,
      Reachable ⟨#[⟨"main", 0, 0, 1, #[2, 7, 13]⟩], some 0⟩ (.empty .retain) ⟨1, 1⟩ .empty
        machine ∧
      machine.outcome = some (.ok [.u8 7]) ∧ machine.frame.pc = 2 ∧
      machine.frame.stack.depth = 0 ∧
      level ⟨#[⟨"main", 0, 0, 1, #[2, 7, 13]⟩], some 0⟩ 0 machine.callers machine.frame.function
        machine.frame.pc = 1 := by
  have hreachable := (Reachable.start (rfl : start
    ⟨#[⟨"main", 0, 0, 1, #[2, 7, 13]⟩], some 0⟩ (.empty .retain) ⟨1, 1⟩ .empty = _)).step.step
  refine ⟨_, hreachable, rfl, rfl, rfl, ?_⟩
  exact (hreachable.leveled.returned _ rfl).2.symm

/-- In every state of a run all stacks have the depth that the code gives. So an
instruction finds too few values on the stack just where the level is below what it
takes, and a return finds a wrong number of values just where the level is not what
the function returns. -/
theorem stack_depth_is_static
    {program : Program} {heap : Heap} {limits : Limits} {activation : Activation}
    {machine : Machine} (h : Reachable program heap limits activation machine) :
    Leveled program activation.stack.length machine ∧
    (machine.outcome = none →
      (machine.step.trap? = some ⟨.stackUnderflow, machine.frame.function, machine.frame.pc⟩ ↔
        ∃ function instruction next, Fetched machine function instruction next ∧
          level program activation.stack.length machine.callers machine.frame.function
            machine.frame.pc < machine.inputs instruction) ∧
      (machine.step.trap? =
          some ⟨.returnArityMismatch, machine.frame.function, machine.frame.pc⟩ ↔
        ∃ function next, Fetched machine function .ret next ∧
          level program activation.stack.length machine.callers machine.frame.function
            machine.frame.pc ≠ function.returns.toNat)) := by
  refine ⟨h.leveled, fun hrunning => ?_⟩
  rw [← h.leveled.innermost (status_of_running hrunning)]
  constructor
  · rw [step_trap?_eq_some hrunning, blocked_stackUnderflow h.sound]
    simp only [Int.ofNat_lt]
  · rw [step_trap?_eq_some hrunning, blocked_returnArityMismatch]
    simp only [ne_eq, Int.ofNat_inj]

/-- A call with an argument from the stack given to the run, seen from the called
function, which takes a value that it does not have. -/
theorem stack_depth_is_static_in_callee :
    ∃ machine : Machine,
      Reachable
        ⟨#[⟨"outer", 0, 0, 0, #[2, 7, 12, 1, 0]⟩, ⟨"inner", 2, 1, 0, #[6, 0]⟩], some 0⟩
        (.empty .retain) ⟨3, 2⟩ ⟨[], [.u8 1, .u8 2], []⟩ machine ∧
      machine.frames.map (·.stack.depth) = [0, 1] ∧
      Leveled ⟨#[⟨"outer", 0, 0, 0, #[2, 7, 12, 1, 0]⟩, ⟨"inner", 2, 1, 0, #[6, 0]⟩], some 0⟩ 2
        machine ∧
      machine.step.trap? = some ⟨.stackUnderflow, 1, 0⟩ := by
  have hreachable := (Reachable.start (rfl : start
    ⟨#[⟨"outer", 0, 0, 0, #[2, 7, 12, 1, 0]⟩, ⟨"inner", 2, 1, 0, #[6, 0]⟩], some 0⟩
    (.empty .retain) ⟨3, 2⟩ ⟨[], [.u8 1, .u8 2], []⟩ = _)).step.step
  have hstatic := stack_depth_is_static hreachable
  refine ⟨_, hreachable, rfl, hstatic.1, (hstatic.2 rfl).1.2 ?_⟩
  rw [← hstatic.1.innermost (by decide)]
  exact ⟨_, .popLocal 0, 2, ⟨rfl, by decide, rfl⟩, by decide⟩

end Machine

end TypedStack
