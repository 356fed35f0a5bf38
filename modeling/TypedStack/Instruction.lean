import TypedStack.Kind
import TypedStack.Opcode

/-!
# Instructions

An instruction is an opcode with its operands. Slots are numbers of sixteen bits
here, whether or not code stores them in one byte.
-/

namespace TypedStack

/-- The instructions of the machine. -/
inductive Instruction where
  /-- Do nothing. -/
  | nop
  /-- Push an unsigned byte. -/
  | pushU8 (value : UInt8)
  /-- Push a copy of an argument. -/
  | loadArg (slot : UInt16)
  /-- Push an argument and mark it as consumed. -/
  | popArg (slot : UInt16)
  /-- Declare the kind of a local slot. -/
  | initLocal (kind : Kind) (slot : UInt16)
  /-- Move the top of the stack into a local slot. -/
  | popLocal (slot : UInt16)
  /-- Push a copy of a local slot. -/
  | pushLocal (slot : UInt16)
  /-- Replace the reference on top by an element of the object it names. -/
  | refSlot (slot : UInt16)
  /-- Replace a reference and an index above it by an element of the object. -/
  | pushArray
  /-- Convert the top of the stack, trapping if that loses information. -/
  | checkedConvert (target : Kind)
  /-- Convert the top of the stack without a range check. -/
  | uncheckedConvert (target : Kind)
  /-- Call a function with the topmost values as its arguments. -/
  | call (function : UInt16)
  /-- Hand the whole stack to the caller. -/
  | ret
  deriving DecidableEq, Repr

namespace Instruction

/-- The opcode of an instruction. -/
def opcode : Instruction → Opcode
  | nop => .nop
  | pushU8 _ => .pushU8
  | loadArg _ => .loadArg
  | popArg _ => .popArg
  | initLocal _ _ => .initLocal
  | popLocal _ => .popLocal
  | pushLocal _ => .pushLocal
  | refSlot _ => .refSlot
  | pushArray => .pushArray
  | checkedConvert _ => .checkedConvert
  | uncheckedConvert _ => .uncheckedConvert
  | call _ => .call
  | ret => .ret

/-- How many values the stack must hold before the instruction can take effect.
What a call or a return needs depends on the function. -/
def stackInputs : Instruction → Nat
  | popLocal _ | refSlot _ | checkedConvert _ | uncheckedConvert _ => 1
  | pushArray => 2
  | nop | pushU8 _ | loadArg _ | popArg _ | initLocal _ _ | pushLocal _ | call _ | ret => 0

/-- The text of an instruction, as assembly reads it. -/
def render (instruction : Instruction) : String :=
  let mnemonic := instruction.opcode.mnemonic
  match instruction with
  | nop | pushArray | ret => mnemonic
  | pushU8 value => mnemonic ++ " " ++ toString value.toNat
  | loadArg slot | popArg slot | popLocal slot | pushLocal slot | refSlot slot =>
    mnemonic ++ " " ++ toString slot.toNat
  | initLocal kind slot => mnemonic ++ "." ++ kind.name ++ " " ++ toString slot.toNat
  | checkedConvert target | uncheckedConvert target => mnemonic ++ "." ++ target.name
  | call function => mnemonic ++ " " ++ toString function.toNat

end Instruction

end TypedStack
