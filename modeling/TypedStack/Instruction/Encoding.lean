import TypedStack.Instruction
import TypedStack.Bytes

/-!
# Code of instructions

An instruction is stored as its opcode and its operands. A slot takes one byte
where it fits and two behind the `wide` opcode where it does not; the operand of
a call always takes two.
-/

namespace TypedStack

namespace Instruction

/-- Whether a slot needs two bytes. -/
def needsWide (slot : UInt16) : Bool :=
  255 < slot.toNat

/-- The bytes of a slot, one if it fits. -/
def encodeSlot (slot : UInt16) : Bytes :=
  Bytes.ofNatLE (if needsWide slot then 2 else 1) slot.toNat

/-- An opcode with a slot operand, behind bytes `between` the two. -/
def encodeSlotted (op : Opcode) (between : Bytes) (slot : UInt16) : Bytes :=
  (if needsWide slot then [Opcode.wide.byte] else []) ++
    op.byte :: (between ++ encodeSlot slot)

/-- The shortest code of an instruction. -/
def encode (instruction : Instruction) : Bytes :=
  let op := instruction.opcode
  match instruction with
  | nop | pushArray | ret => [op.byte]
  | pushU8 value => [op.byte, value]
  | loadArg slot | popArg slot | popLocal slot | pushLocal slot | refSlot slot =>
    encodeSlotted op [] slot
  | initLocal kind slot => encodeSlotted op [kind.tag] slot
  | checkedConvert target | uncheckedConvert target => [op.byte, target.tag]
  | call function => op.byte :: Bytes.ofNatLE 2 function.toNat

/-- The code of a sequence of instructions. -/
def encodeAll (instructions : List Instruction) : Bytes :=
  instructions.flatMap encode

end Instruction

end TypedStack
