import TypedStack.Machine.Frame
import TypedStack.Program
import TypedStack.Instruction.Decoding

/-!
# The machine

A machine runs the entry function of a program against a heap, which it never
changes. Its state is the innermost frame, the frames waiting for it, and the
outcome once there is one. Instructions are actions on the machine, so a step
that ends in a trap takes over whatever its instruction has done before.
-/

namespace TypedStack

/-- How deep each operand stack and how many frames there may be, the frame of
the entry included. -/
structure Limits where
  stack : Nat
  frames : Nat
  deriving DecidableEq, Repr

/-- The limits in force where none are given. -/
def Limits.standard : Limits :=
  ⟨1024, 1024⟩

/-- What the frame of the entry starts with. -/
structure Activation where
  args : List Value
  /-- The stack from the bottom up. -/
  stack : List Value
  /-- Kinds declared for the first local slots. -/
  locals : List (Option Kind)
  deriving DecidableEq, Repr

namespace Activation

/-- The activation with nothing in it. -/
def empty : Activation :=
  ⟨[], [], []⟩

/-- The activation with arguments only. -/
def ofArgs (args : List Value) : Activation :=
  ⟨args, [], []⟩

/-- Make one byte array for each text, in order, and refer to them. -/
def textReferences : List String → Heap.Update (List Value)
  | [] => return []
  | text :: rest => do
    let address ← Heap.createBytes (Bytes.ofString text)
    let reference ← Heap.look (·.reference address)
    let references ← textReferences rest
    return reference :: references

/-- The activation of a main function: its only argument refers to an array of
references to the given texts, each an array of bytes. -/
def ofTexts (texts : List String) : Heap.Update Activation := do
  let references ← textReferences texts
  let address ← Heap.create .ref references
  let argument ← Heap.look (·.reference address)
  return ofArgs [argument]

end Activation

/-- Why a machine could not be started. -/
inductive SetupError where
  | noEntry
  | unknownEntry (index : UInt16)
  | argumentCount (expected : UInt16) (found : Nat)
  | tooManyLocals (declared : Nat) (available : UInt16)
  | stackTooDeep (depth limit : Nat)
  deriving DecidableEq, Repr

/-- The wording of a setup error. -/
def SetupError.message : SetupError → String
  | noEntry => "program has no entry function"
  | unknownEntry index => "entry function " ++ toString index.toNat ++ " does not exist"
  | argumentCount expected found =>
    "entry function takes " ++ toString expected.toNat ++ " arguments, " ++
      toString found ++ " given"
  | tooManyLocals declared available =>
    toString declared ++ " locals declared, entry function has " ++ toString available.toNat
  | stackTooDeep depth limit =>
    "initial stack holds " ++ toString depth ++ " values, limit is " ++ toString limit

/-- How a run ends: with a trap, or with the values left by the entry function,
the bottom one first. -/
abbrev Outcome := Except Trap (List Value)

/-- Whether a run goes on. -/
inductive Status where
  | running
  | returned
  | trapped
  deriving DecidableEq, Repr

/-- The state of a run. The frames in `callers` wait for the one before them, so
the frame of the entry is the last, and `room` more frames may be entered. -/
structure Machine where
  program : Program
  heap : Heap
  limits : Limits
  frame : Frame
  callers : List Frame
  room : Nat
  outcome : Option Outcome

namespace Machine

/-- The machine about to execute the first instruction of the entry function. -/
def start (program : Program) (heap : Heap) (limits : Limits) (activation : Activation) :
    Except SetupError Machine :=
  match program.entry with
  | none => .error .noEntry
  | some entry =>
    match program.function? entry with
    | none => .error (.unknownEntry entry)
    | some function =>
      if activation.args.length ≠ function.arity.toNat then
        .error (.argumentCount function.arity activation.args.length)
      else if function.locals.toNat < activation.locals.length then
        .error (.tooManyLocals activation.locals.length function.locals)
      else if limits.stack < activation.stack.length then
        .error (.stackTooDeep activation.stack.length limits.stack)
      else
        .ok {
          program, heap, limits
          frame := {
            function := entry
            pc := 0
            arguments := .ofValues activation.args
            locals := .declared function.locals.toNat activation.locals
            stack := ⟨limits.stack, activation.stack.reverse⟩ }
          callers := []
          room := limits.frames - 1
          outcome := none }

/-- Whether the run goes on. -/
def status (machine : Machine) : Status :=
  match machine.outcome with
  | none => .running
  | some (.ok _) => .returned
  | some (.error _) => .trapped

/-- The number of live frames. -/
def depth (machine : Machine) : Nat :=
  machine.callers.length + 1

/-- The trap that ended the run. -/
def trap? (machine : Machine) : Option Trap :=
  match machine.outcome with
  | some (.error trap) => some trap
  | _ => none

/-- How an instruction leaves the run: it goes on, or it has ended with values. -/
inductive Flow where
  | continue
  | returned (values : List Value)
  deriving DecidableEq

/-- Carry out an action in the innermost frame. -/
def onFrame {α : Type} (action : Action Frame α) : Action Machine α := fun machine =>
  match action machine.frame with
  | .ok a frame => .ok a { machine with frame }
  | .error kind frame => .error kind { machine with frame }

/-- Suspend the innermost frame for another one. -/
def suspend (frame : Frame) (machine : Machine) : Machine :=
  { machine with
    frame
    callers := machine.frame :: machine.callers
    room := machine.room - 1 }

/-- Drop the innermost frame for the one that waits for it. -/
def resume (caller : Frame) (callers : List Frame) (machine : Machine) : Machine :=
  { machine with
    frame := caller
    callers
    room := machine.room + 1 }

/-- Enter a function with arguments from the stack; the caller goes on at offset
`next` later. -/
def call (function : UInt16) (next : Nat) : Action Machine Flow := do
  let machine ← get
  match machine.program.function? function with
  | none => throw .invalidFunction
  | some callee =>
    if machine.room = 0 then throw .stackOverflow
    else
      let args ← onFrame (Frame.onStack (·.popN callee.arity.toNat))
      onFrame (Frame.jump next)
      modify (suspend (.enter function args callee.locals.toNat machine.limits.stack))
      return .continue

/-- Check that `n` values fit onto the stack of the frame that waits, if there is
one. -/
def roomInCaller (n : Nat) (machine : Machine) : Except TrapKind Unit :=
  match machine.callers with
  | [] => .ok ()
  | caller :: _ => caller.stack.ensureRoom n

/-- Leave the innermost function with all the values on its stack. Room for them
is looked for first. -/
def ret : Action Machine Flow := do
  let machine ← get
  match machine.program.function? machine.frame.function with
  | none => throw .invalidFunction
  | some function =>
    if machine.frame.stack.depth ≠ function.returns.toNat then throw .returnArityMismatch
    else
      Action.check (roomInCaller function.returns.toNat)
      let values ← onFrame (Frame.onStack (·.popN function.returns.toNat))
      match machine.callers with
      | [] => return .returned values
      | caller :: callers =>
        modify (resume caller callers)
        onFrame (Frame.extend values)
        return .continue

/-- Carry out an instruction, behind which the next one is at offset `next`. -/
def dispatch (instruction : Instruction) (next : Nat) : Action Machine Flow := do
  let machine ← get
  Action.check fun machine => machine.frame.stack.require instruction.stackInputs
  match instruction with
  | .call function => call function next
  | .ret => ret
  | instruction =>
    onFrame (Frame.perform machine.heap instruction)
    onFrame (Frame.jump next)
    return .continue

/-- Carry out the next instruction. -/
def execute : Action Machine Flow := do
  let machine ← get
  match machine.program.function? machine.frame.function with
  | none => throw .invalidFunction
  | some function =>
    if function.code.size ≤ machine.frame.pc then throw .codeOverrun
    else
      match Instruction.fetch function.code machine.frame.pc with
      | .error _ => throw .invalidInstruction
      | .ok (instruction, next) => dispatch instruction next

/-- Execute one instruction. A run that has ended stays as it is. -/
def step (machine : Machine) : Machine :=
  match machine.outcome with
  | some _ => machine
  | none =>
    match execute machine with
    | .error kind after =>
      { after with
        outcome := some (.error ⟨kind, machine.frame.function, machine.frame.pc⟩) }
    | .ok .continue after => after
    | .ok (.returned values) after => { after with outcome := some (.ok values) }

/-- Execute a number of instructions. -/
def steps (machine : Machine) : Nat → Machine
  | 0 => machine
  | n + 1 => machine.step.steps n

end Machine

end TypedStack
