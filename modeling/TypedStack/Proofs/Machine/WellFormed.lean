import Mathlib.Data.List.Chain
import TypedStack.Proofs.Listing
import TypedStack.Proofs.Machine.Causes
import TypedStack.Proofs.Machine.Reachable

/-!
# Well-formed states

Where the frames of a run stand in their code. A frame is always at a boundary of
the listing of its function, and one that waits is directly behind a call of the
function of the frame above it. With the shape of frames this settles where the
traps that find fault with the code can arise: instructions within a frame do not
raise them, so they come from decoding at a boundary or from a call.
-/

namespace TypedStack

/-- The listing of the code of a function. -/
def Function.listing (function : Function) : Listing :=
  .ofCode function.code.toList

namespace Machine

/-! ## Places in the code -/

/-- A frame at a boundary of the code that it runs. -/
def AtBoundary (program : Program) (frame : Frame) : Prop :=
  ∃ function, program.function? frame.function = some function ∧
    function.listing.IsBoundary frame.pc

/-- A frame directly behind a call of the function of the frame above it. -/
def WaitsFor (program : Program) (above waiting : Frame) : Prop :=
  ∃ function, program.function? waiting.function = some function ∧
    ∃ line ∈ function.listing.lines, line.instruction = .call above.function ∧
      waiting.pc = line.offset + line.bytes.length

section

variable {program : Program} {machine after : Machine} {function : Function}
  {instruction : Instruction} {next : Nat}

theorem Fetched.isBoundary
    (h : Fetched machine function instruction next)
    (hboundary : AtBoundary machine.program machine.frame) :
    function.listing.IsBoundary machine.frame.pc := by
  obtain ⟨found, hfound, hpc⟩ := hboundary
  rw [h.function_eq] at hfound
  rw [Option.some.inj hfound]
  exact hpc

theorem Fetched.atBoundary_next
    (h : Fetched machine function instruction next)
    (hboundary : AtBoundary machine.program machine.frame) {frame : Frame}
    (hfunction : frame.function = machine.frame.function) (hpc : frame.pc = next) :
    AtBoundary machine.program frame := by
  refine ⟨function, hfunction ▸ h.function_eq, ?_⟩
  rw [hpc]
  exact (h.isBoundary hboundary).of_decodeAt h.decodeAt_eq

theorem Fetched.waitsFor
    {index : UInt16} (h : Fetched machine function (.call index) next)
    (hboundary : AtBoundary machine.program machine.frame) {above waiting : Frame}
    (habove : above.function = index) (hfunction : waiting.function = machine.frame.function)
    (hpc : waiting.pc = next) :
    WaitsFor machine.program above waiting := by
  obtain ⟨line, hline, -, hcall, hnext⟩ :=
    (h.isBoundary hboundary).exists_line h.decodeAt_eq
  refine ⟨function, hfunction ▸ h.function_eq, line, hline, ?_, ?_⟩
  · rw [habove, hcall]
  · rw [hpc, hnext]

/-- Which function is waited for is all that matters of the frame above. -/
theorem waitsFor_of_function_eq
    {frame frame' waiting : Frame} (hfunction : frame'.function = frame.function)
    (h : WaitsFor program frame waiting) : WaitsFor program frame' waiting := by
  obtain ⟨function, hwaiting, line, hline, hcall, hpc⟩ := h
  exact ⟨function, hwaiting, line, hline, hfunction ▸ hcall, hpc⟩

/-- Live frames that stand where calls and decoding from the start can have left
them. -/
structure Placed (program : Program) (frames : List Frame) : Prop where
  boundary : ∀ frame ∈ frames, AtBoundary program frame
  waits : frames.IsChain (WaitsFor program)

theorem placed_singleton
    {frame : Frame} (hfunction : program.function? frame.function = some function)
    (hpc : frame.pc = 0) : Placed program [frame] where
  boundary := by
    intro found hfound
    obtain rfl := List.mem_singleton.1 hfound
    refine ⟨function, hfunction, ?_⟩
    rw [hpc]
    exact Listing.isBoundary_zero _
  waits := .singleton _

/-- The innermost frame may go on at another boundary of the same function. -/
theorem Placed.replace
    {frame frame' : Frame} {callers : List Frame} (h : Placed program (frame :: callers))
    (hfunction : frame'.function = frame.function) (hboundary : AtBoundary program frame') :
    Placed program (frame' :: callers) where
  boundary := by
    intro found hfound
    rcases List.mem_cons.1 hfound with rfl | hcaller
    · exact hboundary
    · exact h.boundary found (List.mem_cons_of_mem _ hcaller)
  waits := h.waits.cons_of_imp fun _ => waitsFor_of_function_eq hfunction

theorem Placed.tail
    {frame : Frame} {callers : List Frame} (h : Placed program (frame :: callers)) :
    Placed program callers where
  boundary := fun found hfound => h.boundary found (List.mem_cons_of_mem _ hfound)
  waits := h.waits.of_cons

theorem Placed.of_transition
    {flow : Flow} (h : Placed machine.program machine.frames)
    (htransition : Transition machine flow after) :
    Placed machine.program after.frames := by
  have hinnermost := h.boundary machine.frame List.mem_cons_self
  cases htransition with
  | within fetched _ _ performed =>
    have hkept := (Frame.keeps_perform _ _ _).of_ok performed
    exact h.replace hkept.function (fetched.atBoundary_next hinnermost hkept.function rfl)
  | @enter _ callee next index args stack fetched callee_eq _ _ =>
    have hcaller : Placed machine.program
        ({ machine.frame with pc := next, stack } :: machine.callers) :=
      h.replace rfl (fetched.atBoundary_next hinnermost rfl rfl)
    refine ⟨?_, ?_⟩
    · intro found hfound
      rcases List.mem_cons.1 hfound with rfl | hfound
      · exact ⟨callee, callee_eq, Listing.isBoundary_zero _⟩
      · exact hcaller.boundary found hfound
    · exact List.isChain_cons_cons.2 ⟨fetched.waitsFor hinnermost rfl rfl rfl, hcaller.waits⟩
  | @leave _ _ caller callers stack _ _ callers_eq _ =>
    rw [frames, callers_eq] at h
    have hcaller : AtBoundary machine.program { caller with stack } :=
      h.tail.boundary caller List.mem_cons_self
    exact h.tail.replace rfl hcaller
  | finish _ _ _ => exact h.replace rfl hinnermost

variable {heap : Heap} {limits : Limits} {activation : Activation}

theorem Reachable.placed (h : Reachable program heap limits activation machine) :
    Placed program machine.frames := by
  refine h.induct (motive := fun machine => Placed program machine.frames) ?_ ?_ ?_ ?_
  · intro machine hstart
    obtain ⟨entry, function, -, hfunction, -, -, -, rfl⟩ := start_eq_ok hstart
    exact placed_singleton hfunction rfl
  · exact fun _ _ _ _ _ ih => ih
  · intro machine after hreachable _ htransition ih
    rw [← hreachable.sound.program_eq] at ih ⊢
    exact ih.of_transition htransition
  · intro machine values after hreachable _ htransition ih
    rw [← hreachable.sound.program_eq] at ih ⊢
    have hplaced : Placed machine.program after.frames := ih.of_transition htransition
    exact hplaced

/-! ## Outcomes -/

/-- What a trap that finds fault with the code says about the function that it
names. -/
structure Located (program : Program) (trap : Trap) (function : Function) : Prop where
  function_eq : program.function? trap.function = some function
  codeOverrun : trap.kind = .codeOverrun → trap.offset = function.code.size
  invalidInstruction : trap.kind = .invalidInstruction →
    trap.offset = function.listing.stop ∧
      ∃ e, function.listing.error = some e ∧
        Instruction.decodeAt function.code.toList trap.offset = .error e
  invalidFunction : trap.kind = .invalidFunction →
    ∃ line ∈ function.listing.lines, line.offset = trap.offset ∧
      ∃ index, line.instruction = .call index ∧ program.functions.size ≤ index.toNat

/-- A cause outside the code says nothing about it. -/
theorem located_of_isInCode
    {trap : Trap} (hfunction : program.function? trap.function = some function)
    (hkind : trap.kind.isInCode = false) : Located program trap function := by
  refine ⟨hfunction, ?_, ?_, ?_⟩
  all_goals
    intro hcause
    rw [hcause] at hkind
    simp [TrapKind.isInCode] at hkind

/-- A machine that is blocked at a boundary traps for a fault of the code only
where the listing shows one. -/
theorem Blocked.located
    {kind : TrapKind} (h : Blocked machine kind)
    (hfunction : machine.program.function? machine.frame.function = some function)
    (hboundary : function.listing.IsBoundary machine.frame.pc) :
    Located machine.program ⟨kind, machine.frame.function, machine.frame.pc⟩ function := by
  cases h with
  | lost function_eq =>
    rw [hfunction] at function_eq
    simp at function_eq
  | overrun function_eq outside =>
    obtain rfl := Option.some.inj (hfunction.symm.trans function_eq)
    refine ⟨hfunction, fun _ => ?_, by simp, by simp⟩
    have hpc := hboundary.le_length
    rw [Array.length_toList] at hpc
    exact Nat.le_antisymm hpc outside
  | @undecodable _ e function_eq inside decodeAt_eq =>
    obtain rfl := Option.some.inj (hfunction.symm.trans function_eq)
    refine ⟨hfunction, by simp, fun _ => ?_, by simp⟩
    obtain ⟨hstop, herror⟩ :=
      hboundary.eq_stop (by rwa [Array.length_toList]) decodeAt_eq
    exact ⟨hstop, e, herror, decodeAt_eq⟩
  | @noCallee _ _ index fetched callee_eq =>
    obtain rfl := Option.some.inj (hfunction.symm.trans fetched.function_eq)
    refine ⟨hfunction, by simp, by simp, fun _ => ?_⟩
    obtain ⟨line, hline, hoffset, hcall, -⟩ := hboundary.exists_line fetched.decodeAt_eq
    exact ⟨line, hline, hoffset, index, hcall, Array.getElem?_eq_none_iff.1 callee_eq⟩
  | within _ _ _ stopped =>
    exact located_of_isInCode hfunction ((Frame.sparesCode_perform _ _ _).of_error stopped)
  | inputs _ _ => exact located_of_isInCode hfunction rfl
  | noRoom _ _ _ => exact located_of_isInCode hfunction rfl
  | arguments _ _ _ _ => exact located_of_isInCode hfunction rfl
  | returns _ _ => exact located_of_isInCode hfunction rfl
  | caller _ _ _ _ => exact located_of_isInCode hfunction rfl

theorem Reachable.located
    (h : Reachable program heap limits activation machine) {trap : Trap}
    (htrap : machine.outcome = some (.error trap)) :
    ∃ function, Located program trap function := by
  obtain ⟨before, hbefore, -, hlast⟩ := h.exists_lastStep htrap
  cases hlast with
  | trap stopped =>
    simp only [Option.some.injEq, Except.error.injEq] at htrap
    obtain ⟨function, hfunction, hpc⟩ :=
      hbefore.placed.boundary before.frame List.mem_cons_self
    rw [← hbefore.sound.program_eq] at hfunction ⊢
    rw [← htrap]
    exact ⟨function, (blocked_of_execute stopped).located hfunction hpc⟩
  | finish _ => simp at htrap

/-- A run that returns has as many values as the entry function returns. -/
theorem Reachable.length_values
    (h : Reachable program heap limits activation machine) {values : List Value}
    (hvalues : machine.outcome = some (.ok values)) :
    ∃ entry function, program.entry = some entry ∧
      program.function? entry = some function ∧ values.length = function.returns.toNat := by
  obtain ⟨before, hbefore, -, hlast⟩ := h.exists_lastStep hvalues
  cases hlast with
  | trap _ => simp at hvalues
  | finish transition =>
    simp only [Option.some.injEq, Except.ok.injEq] at hvalues
    cases transition with
    | @finish function _ fetched returns callers_eq =>
      -- the only frame left is the outermost one
      have hbottom := hbefore.bottom_eq
      rw [frames, callers_eq] at hbottom
      refine ⟨before.frame.function, function, hbottom.symm, ?_, ?_⟩
      · rw [← hbefore.sound.program_eq]
        exact fetched.function_eq
      · rw [← hvalues, OperandStack.length_toList]
        exact returns

theorem Sound.depth_le (h : Sound program heap limits machine) :
    machine.depth ≤ max 1 limits.frames := by
  have hroom := h.room_eq
  unfold depth
  omega

/-! ## Well-formed states of a run -/

/-- What the frames and the outcome of a run are like. Frames have the shape of
their functions and stand at boundaries, there are no more of them than allowed,
the outermost one runs the entry function, and each that waits is directly behind
the call of the one above it. -/
structure WellFormed (program : Program) (limits : Limits) (machine : Machine) : Prop where
  frame : ∀ frame ∈ machine.frames, ∃ function,
    frame.Shaped program limits.stack function ∧ function.listing.IsBoundary frame.pc
  depth : machine.depth ≤ max 1 limits.frames
  outermost : ∃ frame, machine.frames.getLast? = some frame ∧
    program.entry = some frame.function
  waits : machine.frames.IsChain (WaitsFor program)
  trap : ∀ trap, machine.outcome = some (.error trap) →
    ∃ function, Located program trap function
  values : ∀ values, machine.outcome = some (.ok values) →
    ∃ entry function, program.entry = some entry ∧
      program.function? entry = some function ∧ values.length = function.returns.toNat

/-- Every state of a run is well-formed. -/
theorem reachable_wellFormed
    (h : Reachable program heap limits activation machine) :
    WellFormed program limits machine := by
  have hsound := h.sound
  have hplaced := h.placed
  refine ⟨?_, hsound.depth_le, ?_, hplaced.waits, fun _ => h.located, fun _ => h.length_values⟩
  · intro frame hframe
    obtain ⟨function, hshaped⟩ := hsound.shaped frame hframe
    obtain ⟨found, hfound, hpc⟩ := hplaced.boundary frame hframe
    rw [hshaped.function_eq] at hfound
    obtain rfl := Option.some.inj hfound
    exact ⟨function, hshaped, hpc⟩
  · have hlast := List.getLast?_eq_some_getLast (List.cons_ne_nil machine.frame machine.callers)
    have hbottom := h.bottom_eq
    rw [frames, hlast] at hbottom
    exact ⟨_, hlast, hbottom.symm⟩

end

/-- A run that traps in a called function, behind the last line of its listing. -/
theorem reachable_wellFormed_invalid_callee :
    ∃ machine : Machine,
      Reachable ⟨#[⟨"outer", 0, 0, 0, #[12, 1, 0]⟩, ⟨"inner", 0, 0, 0, #[1, 255]⟩], some 0⟩
        (.empty .retain) ⟨0, 2⟩ .empty machine ∧
      machine.depth = 2 ∧ machine.outcome = some (.error ⟨.invalidInstruction, 1, 1⟩) ∧
      WellFormed
        ⟨#[⟨"outer", 0, 0, 0, #[12, 1, 0]⟩, ⟨"inner", 0, 0, 0, #[1, 255]⟩], some 0⟩
        ⟨0, 2⟩ machine := by
  have hreachable := (Reachable.start (rfl : start
    ⟨#[⟨"outer", 0, 0, 0, #[12, 1, 0]⟩, ⟨"inner", 0, 0, 0, #[1, 255]⟩], some 0⟩
    (.empty .retain) ⟨0, 2⟩ .empty = _)).step.step.step
  exact ⟨_, hreachable, rfl, rfl, reachable_wellFormed hreachable⟩

end Machine

end TypedStack
