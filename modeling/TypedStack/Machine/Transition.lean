import TypedStack.Machine.Basic

/-!
# Transitions

What carrying out one instruction can do to a machine, said once. There are four
transitions: an instruction within the innermost frame, a call, a return to a
caller, and the return that ends the run. In every other state the machine is
blocked, and `Blocked` lists the causes with the checks that find them. Both are
exact: `execute` comes to its end just with a transition, and stops just where
the machine is blocked.
-/

namespace TypedStack

/-- Whether an instruction works on the innermost frame only. -/
def Instruction.isLocal : Instruction → Bool
  | nop | pushU8 _ | loadArg _ | popArg _ | initLocal _ _ | popLocal _ | pushLocal _ => true
  | refSlot _ | pushArray | checkedConvert _ | uncheckedConvert _ => true
  | call _ | ret => false

theorem Instruction.call_or_ret_or_isLocal (instruction : Instruction) :
    (∃ index, instruction = .call index) ∨ instruction = .ret ∨ instruction.isLocal := by
  cases instruction with
  | call index => exact .inl ⟨index, rfl⟩
  | ret => exact .inr (.inl rfl)
  | _ => exact .inr (.inr rfl)

namespace Machine

open TypedStack.Action

/-- The instruction that a machine is about to carry out, its function, and the
offset behind it. -/
structure Fetched (machine : Machine) (function : Function) (instruction : Instruction)
    (next : Nat) : Prop where
  function_eq : machine.program.function? machine.frame.function = some function
  inside : machine.frame.pc < function.code.size
  decodeAt_eq :
    Instruction.decodeAt function.code.toList machine.frame.pc = .ok (instruction, next)

theorem Fetched.pc_lt {machine : Machine} {function : Function} {instruction : Instruction}
    {next : Nat} (h : Fetched machine function instruction next) : machine.frame.pc < next :=
  Instruction.lt_of_decodeAt h.decodeAt_eq

theorem Fetched.unique {machine : Machine} {function function' : Function}
    {instruction instruction' : Instruction} {next next' : Nat}
    (h : Fetched machine function instruction next)
    (h' : Fetched machine function' instruction' next') :
    function = function' ∧ instruction = instruction' ∧ next = next' := by
  obtain rfl := Option.some.inj (h.function_eq.symm.trans h'.function_eq)
  have hdecoded := Except.ok.inj (h.decodeAt_eq.symm.trans h'.decodeAt_eq)
  obtain ⟨rfl, rfl⟩ := Prod.mk.inj hdecoded
  exact ⟨rfl, rfl, rfl⟩

/-! ## Parts of an instruction -/

section Parts

variable {machine : Machine}

theorem onFrame_of_ok {α : Type} {action : Action Frame α} {a : α} {frame : Frame}
    (h : action machine.frame = .ok a frame) :
    onFrame action machine = .ok a { machine with frame } := by
  simp only [onFrame, h]

theorem onFrame_of_error {α : Type} {action : Action Frame α} {kind : TrapKind} {frame : Frame}
    (h : action machine.frame = .error kind frame) :
    onFrame action machine = .error kind { machine with frame } := by
  simp only [onFrame, h]

theorem extend_of_ok {values : List Value} {stack : OperandStack}
    (h : machine.frame.stack.extend values = .ok stack) :
    onFrame (Frame.extend values) machine =
      .ok () { machine with frame := { machine.frame with stack } } := by
  apply onFrame_of_ok
  simp only [Frame.extend, Frame.onStack, change, silent, h, Except.map]

theorem popN_of_ok {n : Nat} {values : List Value} {stack : OperandStack}
    (h : machine.frame.stack.popN n = .ok (values, stack)) :
    onFrame (Frame.onStack (·.popN n)) machine =
      .ok values { machine with frame := { machine.frame with stack } } :=
  onFrame_of_ok (change_of_ok h)

theorem popN_of_error {n : Nat} (h : machine.frame.stack.depth < n) :
    onFrame (Frame.onStack (·.popN n)) machine = .error .stackUnderflow machine :=
  onFrame_of_error (change_of_error (OperandStack.popN_eq_error.2 ⟨h, rfl⟩))

theorem roomInCaller_nil (n : Nat) (h : machine.callers = []) :
    roomInCaller n machine = .ok () := by
  simp only [roomInCaller, h]

theorem roomInCaller_cons {caller : Frame} {callers : List Frame} (n : Nat)
    (h : machine.callers = caller :: callers) :
    roomInCaller n machine = caller.stack.ensureRoom n := by
  simp only [roomInCaller, h]

section

variable {instruction : Instruction} {next : Nat}

theorem dispatch_call (index : UInt16) : dispatch (.call index) next machine =
    call index next machine :=
  rfl

theorem dispatch_ret : dispatch .ret next machine = ret machine :=
  rfl

theorem dispatch_local (hlocal : instruction.isLocal)
    (hinputs : instruction.stackInputs ≤ machine.frame.stack.depth) :
    dispatch instruction next machine =
      (do
        onFrame (Frame.perform machine.heap instruction)
        onFrame (Frame.jump next)
        return .continue : Action Machine Flow) machine := by
  have hcheck : check (fun machine : Machine =>
      machine.frame.stack.require instruction.stackInputs) machine = .ok () machine :=
    check_of_ok (OperandStack.require_eq_ok.2 hinputs)
  unfold dispatch
  rw [get_bind, bind_of_ok hcheck]
  cases instruction with
  | call _ => simp [Instruction.isLocal] at hlocal
  | ret => simp [Instruction.isLocal] at hlocal
  | _ => rfl

theorem dispatch_short (hshort : machine.frame.stack.depth < instruction.stackInputs) :
    dispatch instruction next machine = .error .stackUnderflow machine := by
  have hcheck : check (fun machine : Machine =>
      machine.frame.stack.require instruction.stackInputs) machine =
        .error .stackUnderflow machine :=
    check_of_error (OperandStack.require_eq_error.2 ⟨hshort, rfl⟩)
  rw [dispatch, get_bind]
  exact bind_of_error hcheck _

end

end Parts

/-! ## Rules -/

section Rules

variable {machine : Machine} {trapped : TrapKind → Machine → Prop}

theorem after_onFrame {α : Type} {action : Action Frame α} {done : α → Machine → Prop} :
    After (onFrame action) machine done trapped ↔
      After action machine.frame (fun a frame => done a { machine with frame })
        (fun kind frame => trapped kind { machine with frame }) := by
  unfold After onFrame
  cases action machine.frame <;> rfl

variable {done : Flow → Machine → Prop}

/-- A function is entered if it exists, there is room for a frame, and its
arguments are on the stack. -/
theorem after_call {index : UInt16} {next : Nat}
    (hmissing : machine.program.function? index = none → trapped .invalidFunction machine)
    (hfull : ∀ callee, machine.program.function? index = some callee →
      machine.room = 0 → trapped .stackOverflow machine)
    (hshort : ∀ callee, machine.program.function? index = some callee →
      0 < machine.room → machine.frame.stack.depth < callee.arity.toNat →
      trapped .stackUnderflow machine)
    (henter : ∀ callee args stack, machine.program.function? index = some callee →
      0 < machine.room → machine.frame.stack.popN callee.arity.toNat = .ok (args, stack) →
      done .continue
        (suspend (.enter index args callee.locals.toNat machine.limits.stack)
          { machine with frame := { machine.frame with pc := next, stack } })) :
    After (call index next) machine done trapped := by
  unfold call
  rw [after_bind, after_get]
  split
  · rename_i hfunction
    exact hmissing hfunction
  · rename_i callee hfunction
    split
    · rename_i hroom
      exact hfull callee hfunction hroom
    · rename_i hroom
      have hroom := Nat.pos_of_ne_zero hroom
      rw [after_bind, after_onFrame, Frame.onStack, after_change]
      refine ⟨fun args stack hargs => ?_, fun kind hkind => ?_⟩
      · exact henter callee args stack hfunction hroom hargs
      · obtain ⟨hdepth, rfl⟩ := OperandStack.popN_eq_error.1 hkind
        exact hshort callee hfunction hroom hdepth

/-- A function is left if its stack holds as many values as it returns and these
fit onto the stack of the caller, if there is one. -/
theorem after_ret
    (hmissing : machine.program.function? machine.frame.function = none →
      trapped .invalidFunction machine)
    (hdepth : ∀ function, machine.program.function? machine.frame.function = some function →
      machine.frame.stack.depth ≠ function.returns.toNat →
      trapped .returnArityMismatch machine)
    (hfull : ∀ function caller callers,
      machine.program.function? machine.frame.function = some function →
      machine.frame.stack.depth = function.returns.toNat →
      machine.callers = caller :: callers →
      caller.stack.limit < caller.stack.depth + machine.frame.stack.depth →
      trapped .stackOverflow machine)
    (hleave : ∀ function caller callers stack,
      machine.program.function? machine.frame.function = some function →
      machine.frame.stack.depth = function.returns.toNat →
      machine.callers = caller :: callers →
      caller.stack.extend machine.frame.stack.toList = .ok stack →
      done .continue (resume { caller with stack } callers machine))
    (hfinish : ∀ function,
      machine.program.function? machine.frame.function = some function →
      machine.frame.stack.depth = function.returns.toNat → machine.callers = [] →
      done (.returned machine.frame.stack.toList)
        { machine with
          frame := { machine.frame with stack := .empty machine.frame.stack.limit } }) :
    After ret machine done trapped := by
  unfold ret
  rw [after_bind, after_get]
  split
  · rename_i hfunction
    exact hmissing hfunction
  · rename_i function hfunction
    split
    · rename_i hreturns
      exact hdepth function hfunction hreturns
    · rename_i hreturns
      have hreturns : machine.frame.stack.depth = function.returns.toNat :=
        Decidable.of_not_not hreturns
      rw [after_bind, after_check, ← hreturns]
      refine ⟨fun _ hroom => ?_, fun kind hkind => ?_⟩
      · rw [after_bind, after_onFrame, Frame.onStack, after_change]
        refine ⟨fun values stack hvalues => ?_, fun kind hkind => ?_⟩
        · rw [OperandStack.popN_depth] at hvalues
          obtain ⟨rfl, rfl⟩ := Prod.mk.inj (Except.ok.inj hvalues)
          split
          · rename_i hcallers
            exact hfinish function hfunction hreturns hcallers
          · -- the room found before the values were taken off is what `extend` asks for
            rename_i caller callers hcallers
            have hfits : caller.stack.depth + machine.frame.stack.toList.length ≤
                caller.stack.limit := by
              rw [roomInCaller_cons _ hcallers] at hroom
              simpa using OperandStack.ensureRoom_eq_ok.1 hroom
            rw [after_bind, after_modify, after_bind, after_onFrame, Frame.extend,
              Frame.onStack, after_change]
            refine ⟨fun _ stack hstack => ?_, fun kind hkind => ?_⟩
            · exact hleave function caller callers stack hfunction hreturns hcallers
                (silent_eq_ok.1 hstack)
            · have hover := (OperandStack.extend_eq_error.1 (silent_eq_error.1 hkind)).1
              exact absurd hfits (Nat.not_le_of_lt hover)
        · rw [OperandStack.popN_depth] at hkind
          simp at hkind
      · cases hcallers : machine.callers with
        | nil =>
          rw [roomInCaller_nil _ hcallers] at hkind
          simp at hkind
        | cons caller callers =>
          rw [roomInCaller_cons _ hcallers] at hkind
          obtain ⟨hover, rfl⟩ := OperandStack.ensureRoom_eq_error.1 hkind
          exact hfull function caller callers hfunction hreturns hcallers hover

theorem after_dispatch {instruction : Instruction} {next : Nat}
    (hshort : machine.frame.stack.depth < instruction.stackInputs →
      trapped .stackUnderflow machine)
    (hcall : ∀ index, instruction = .call index → After (call index next) machine done trapped)
    (hret : instruction = .ret → After ret machine done trapped)
    (hlocal : instruction.isLocal → instruction.stackInputs ≤ machine.frame.stack.depth →
      After (Frame.perform machine.heap instruction) machine.frame
        (fun _ frame => done .continue { machine with frame := { frame with pc := next } })
        (fun kind frame => trapped kind { machine with frame })) :
    After (dispatch instruction next) machine done trapped := by
  by_cases hinputs : instruction.stackInputs ≤ machine.frame.stack.depth
  · rcases instruction.call_or_ret_or_isLocal with ⟨index, rfl⟩ | rfl | hisLocal
    · rw [after_congr (dispatch_call index)]
      exact hcall index rfl
    · rw [after_congr dispatch_ret]
      exact hret rfl
    · rw [after_congr (dispatch_local hisLocal hinputs), after_bind, after_onFrame]
      exact hlocal hisLocal hinputs
  · have hinputs := Nat.lt_of_not_le hinputs
    have hthrow : dispatch instruction next machine =
        (throw .stackUnderflow : Action Machine Flow) machine :=
      dispatch_short hinputs
    rw [after_congr hthrow]
    exact hshort hinputs

theorem after_execute
    (hmissing : machine.program.function? machine.frame.function = none →
      trapped .invalidFunction machine)
    (hoverrun : ∀ function, machine.program.function? machine.frame.function = some function →
      function.code.size ≤ machine.frame.pc → trapped .codeOverrun machine)
    (hinvalid : ∀ function e,
      machine.program.function? machine.frame.function = some function →
      machine.frame.pc < function.code.size →
      Instruction.decodeAt function.code.toList machine.frame.pc = .error e →
      trapped .invalidInstruction machine)
    (hdispatch : ∀ function instruction next, Fetched machine function instruction next →
      After (dispatch instruction next) machine done trapped) :
    After execute machine done trapped := by
  unfold execute
  rw [after_bind, after_get]
  split
  · rename_i hfunction
    exact hmissing hfunction
  · rename_i function hfunction
    split
    · rename_i hcode
      exact hoverrun function hfunction hcode
    · rename_i hcode
      have hinside := Nat.lt_of_not_le hcode
      split <;> rename_i hfetch <;> rw [Instruction.fetch_eq_decodeAt] at hfetch
      · exact hinvalid function _ hfunction hinside hfetch
      · exact hdispatch function _ _ ⟨hfunction, hinside, hfetch⟩

end Rules

/-! ## Transitions of a run -/

/-- The ways in which a run can go on from a machine or end with values. -/
inductive Transition (machine : Machine) : Flow → Machine → Prop where
  | within {function : Function} {instruction : Instruction} {next : Nat} {frame : Frame}
      (fetched : Fetched machine function instruction next)
      (isLocal : instruction.isLocal)
      (inputs : instruction.stackInputs ≤ machine.frame.stack.depth)
      (performed : Frame.perform machine.heap instruction machine.frame = .ok () frame) :
      Transition machine .continue { machine with frame := { frame with pc := next } }
  | enter {function callee : Function} {next : Nat} {index : UInt16} {args : List Value}
      {stack : OperandStack}
      (fetched : Fetched machine function (.call index) next)
      (callee_eq : machine.program.function? index = some callee)
      (room : 0 < machine.room)
      (popped : machine.frame.stack.popN callee.arity.toNat = .ok (args, stack)) :
      Transition machine .continue
        (suspend (.enter index args callee.locals.toNat machine.limits.stack)
          { machine with frame := { machine.frame with pc := next, stack } })
  | leave {function : Function} {next : Nat} {caller : Frame} {callers : List Frame}
      {stack : OperandStack}
      (fetched : Fetched machine function .ret next)
      (returns : machine.frame.stack.depth = function.returns.toNat)
      (callers_eq : machine.callers = caller :: callers)
      (extended : caller.stack.extend machine.frame.stack.toList = .ok stack) :
      Transition machine .continue (resume { caller with stack } callers machine)
  | finish {function : Function} {next : Nat}
      (fetched : Fetched machine function .ret next)
      (returns : machine.frame.stack.depth = function.returns.toNat)
      (callers_eq : machine.callers = []) :
      Transition machine (.returned machine.frame.stack.toList)
        { machine with
          frame := { machine.frame with stack := .empty machine.frame.stack.limit } }

/-- The causes for which an instruction cannot be carried out. -/
inductive Blocked (machine : Machine) : TrapKind → Prop where
  | lost (function_eq : machine.program.function? machine.frame.function = none) :
      Blocked machine .invalidFunction
  | overrun {function : Function}
      (function_eq : machine.program.function? machine.frame.function = some function)
      (outside : function.code.size ≤ machine.frame.pc) :
      Blocked machine .codeOverrun
  | undecodable {function : Function} {e : DecodeError}
      (function_eq : machine.program.function? machine.frame.function = some function)
      (inside : machine.frame.pc < function.code.size)
      (decodeAt_eq :
        Instruction.decodeAt function.code.toList machine.frame.pc = .error e) :
      Blocked machine .invalidInstruction
  | inputs {function : Function} {instruction : Instruction} {next : Nat}
      (fetched : Fetched machine function instruction next)
      (short : machine.frame.stack.depth < instruction.stackInputs) :
      Blocked machine .stackUnderflow
  | within {function : Function} {instruction : Instruction} {next : Nat} {frame : Frame}
      {kind : TrapKind}
      (fetched : Fetched machine function instruction next)
      (isLocal : instruction.isLocal)
      (inputs : instruction.stackInputs ≤ machine.frame.stack.depth)
      (stopped : Frame.perform machine.heap instruction machine.frame = .error kind frame) :
      Blocked machine kind
  | noCallee {function : Function} {next : Nat} {index : UInt16}
      (fetched : Fetched machine function (.call index) next)
      (callee_eq : machine.program.function? index = none) :
      Blocked machine .invalidFunction
  | noRoom {function callee : Function} {next : Nat} {index : UInt16}
      (fetched : Fetched machine function (.call index) next)
      (callee_eq : machine.program.function? index = some callee)
      (room : machine.room = 0) :
      Blocked machine .stackOverflow
  | arguments {function callee : Function} {next : Nat} {index : UInt16}
      (fetched : Fetched machine function (.call index) next)
      (callee_eq : machine.program.function? index = some callee)
      (room : 0 < machine.room)
      (short : machine.frame.stack.depth < callee.arity.toNat) :
      Blocked machine .stackUnderflow
  | returns {function : Function} {next : Nat}
      (fetched : Fetched machine function .ret next)
      (returns : machine.frame.stack.depth ≠ function.returns.toNat) :
      Blocked machine .returnArityMismatch
  | caller {function : Function} {next : Nat} {caller : Frame} {callers : List Frame}
      (fetched : Fetched machine function .ret next)
      (returns : machine.frame.stack.depth = function.returns.toNat)
      (callers_eq : machine.callers = caller :: callers)
      (full : caller.stack.limit < caller.stack.depth + machine.frame.stack.depth) :
      Blocked machine .stackOverflow

/-! ## Carrying out an instruction -/

/-- An instruction is carried out by a transition, or the machine is blocked. -/
theorem transition_or_blocked (machine : Machine) :
    After execute machine (Transition machine) (fun kind _ => Blocked machine kind) := by
  refine after_execute .lost (fun _ => .overrun) (fun _ _ => .undecodable) ?_
  intro function instruction next hfetched
  apply after_dispatch
  · exact .inputs hfetched
  · rintro index rfl
    apply after_call
    · exact .noCallee hfetched
    · exact fun _ hcallee hroom => .noRoom hfetched hcallee hroom
    · exact fun _ hcallee hroom hshort => .arguments hfetched hcallee hroom hshort
    · exact fun _ _ _ hcallee hroom hargs => .enter hfetched hcallee hroom hargs
  · rintro rfl
    have hsame {leaving : Function}
        (hleaving : machine.program.function? machine.frame.function = some leaving) :
        leaving = function :=
      Option.some.inj (hleaving.symm.trans hfetched.function_eq)
    apply after_ret
    · exact .lost
    · intro leaving hleaving hreturns
      rw [hsame hleaving] at hreturns
      exact .returns hfetched hreturns
    · intro leaving caller callers hleaving hreturns hcallers hfull
      rw [hsame hleaving] at hreturns
      exact .caller hfetched hreturns hcallers hfull
    · intro leaving caller callers stack hleaving hreturns hcallers hstack
      rw [hsame hleaving] at hreturns
      exact .leave hfetched hreturns hcallers hstack
    · intro leaving hleaving hreturns hcallers
      rw [hsame hleaving] at hreturns
      exact .finish hfetched hreturns hcallers
  · intro hisLocal hinputs
    unfold After
    split
    · rename_i performed
      exact .within hfetched hisLocal hinputs performed
    · rename_i stopped
      exact .within hfetched hisLocal hinputs stopped

section

variable {machine after : Machine}

theorem transition_of_execute {flow : Flow} (h : execute machine = .ok flow after) :
    Transition machine flow after :=
  (transition_or_blocked machine).of_ok h

theorem blocked_of_execute {kind : TrapKind} (h : execute machine = .error kind after) :
    Blocked machine kind :=
  (transition_or_blocked machine).of_error h

section

variable {function : Function} {instruction : Instruction} {next : Nat}

theorem Fetched.execute_eq (h : Fetched machine function instruction next) :
    execute machine = dispatch instruction next machine := by
  have hfetch := h.decodeAt_eq
  rw [← Instruction.fetch_eq_decodeAt] at hfetch
  unfold execute
  rw [get_bind]
  simp only [h.function_eq, Nat.not_le_of_lt h.inside, if_false, hfetch]

end

/-- Every transition is what carrying out the instruction does. -/
theorem execute_of_transition {flow : Flow} (h : Transition machine flow after) :
    execute machine = .ok flow after := by
  cases h with
  | within fetched isLocal inputs performed =>
    rw [fetched.execute_eq, dispatch_local isLocal inputs, bind_of_ok (onFrame_of_ok performed)]
    rfl
  | enter fetched callee_eq room popped =>
    rw [fetched.execute_eq, dispatch_call, call, get_bind]
    simp only [callee_eq, Nat.ne_of_gt room, if_false]
    rw [bind_of_ok (popN_of_ok popped)]
    rfl
  | @leave _ _ caller callers stack fetched returns callers_eq extended =>
    obtain ⟨hroom, -⟩ := OperandStack.extend_eq_ok.1 extended
    rw [OperandStack.length_toList] at hroom
    have hcheck : check (roomInCaller machine.frame.stack.depth) machine = .ok () machine := by
      apply check_of_ok
      rw [roomInCaller_cons _ callers_eq]
      exact OperandStack.ensureRoom_eq_ok.2 hroom
    rw [fetched.execute_eq, dispatch_ret, ret, get_bind]
    simp only [fetched.function_eq, returns, ne_eq, not_true_eq_false, if_false, callers_eq]
    rw [← returns, bind_of_ok hcheck, bind_of_ok (popN_of_ok OperandStack.popN_depth)]
    have hextend (machine' : Machine) :
        onFrame (Frame.extend machine.frame.stack.toList) (resume caller callers machine') =
          .ok () (resume { caller with stack } callers machine') :=
      extend_of_ok extended
    exact bind_of_ok (hextend _) _
  | finish fetched returns callers_eq =>
    have hcheck : check (roomInCaller machine.frame.stack.depth) machine = .ok () machine :=
      check_of_ok (roomInCaller_nil _ callers_eq)
    rw [fetched.execute_eq, dispatch_ret, ret, get_bind]
    simp only [fetched.function_eq, returns, ne_eq, not_true_eq_false, if_false, callers_eq]
    rw [← returns, bind_of_ok hcheck, bind_of_ok (popN_of_ok OperandStack.popN_depth)]
    rw [← callers_eq]
    rfl

/-- Where the machine is blocked, carrying out the instruction stops. -/
theorem execute_of_blocked {kind : TrapKind} (h : Blocked machine kind) :
    ∃ after, execute machine = .error kind after := by
  cases h with
  | lost function_eq =>
    refine ⟨machine, ?_⟩
    rw [execute, get_bind]
    simp only [function_eq]
    rfl
  | overrun function_eq outside =>
    refine ⟨machine, ?_⟩
    rw [execute, get_bind]
    simp only [function_eq, outside, if_true]
    rfl
  | undecodable function_eq inside decodeAt_eq =>
    refine ⟨machine, ?_⟩
    rw [← Instruction.fetch_eq_decodeAt] at decodeAt_eq
    rw [execute, get_bind]
    simp only [function_eq, Nat.not_le_of_lt inside, if_false, decodeAt_eq]
    rfl
  | inputs fetched short =>
    refine ⟨machine, ?_⟩
    rw [fetched.execute_eq]
    exact dispatch_short short
  | @within _ _ _ frame _ fetched isLocal inputs stopped =>
    refine ⟨{ machine with frame }, ?_⟩
    rw [fetched.execute_eq, dispatch_local isLocal inputs]
    exact bind_of_error (onFrame_of_error stopped) _
  | noCallee fetched callee_eq =>
    refine ⟨machine, ?_⟩
    rw [fetched.execute_eq, dispatch_call, call, get_bind]
    simp only [callee_eq]
    rfl
  | noRoom fetched callee_eq room =>
    refine ⟨machine, ?_⟩
    rw [fetched.execute_eq, dispatch_call, call, get_bind]
    simp only [callee_eq, room, if_true]
    rfl
  | arguments fetched callee_eq room short =>
    refine ⟨machine, ?_⟩
    rw [fetched.execute_eq, dispatch_call, call, get_bind]
    simp only [callee_eq, Nat.ne_of_gt room, if_false]
    exact bind_of_error (popN_of_error short) _
  | returns fetched returns =>
    refine ⟨machine, ?_⟩
    rw [fetched.execute_eq, dispatch_ret, ret, get_bind]
    simp only [fetched.function_eq, returns, ne_eq, not_false_eq_true, if_true]
    rfl
  | caller fetched returns callers_eq full =>
    refine ⟨machine, ?_⟩
    have hcheck : check (roomInCaller machine.frame.stack.depth) machine =
        .error .stackOverflow machine := by
      apply check_of_error
      rw [roomInCaller_cons _ callers_eq]
      exact OperandStack.ensureRoom_eq_error.2 ⟨full, rfl⟩
    rw [fetched.execute_eq, dispatch_ret, ret, get_bind]
    simp only [fetched.function_eq, returns, ne_eq, not_true_eq_false, if_false]
    rw [← returns]
    exact bind_of_error hcheck _

end

end Machine

end TypedStack
