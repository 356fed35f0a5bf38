/-!
# Opcodes

The first byte of an instruction. `wide` is no instruction by itself: it tells
that the slot operand of the instruction behind it has two bytes.
-/

namespace TypedStack

/-- The opcodes in the order of their bytes. -/
inductive Opcode where
  | wide
  | nop
  | pushU8
  | loadArg
  | popArg
  | initLocal
  | popLocal
  | pushLocal
  | refSlot
  | pushArray
  | checkedConvert
  | uncheckedConvert
  | call
  | ret
  deriving DecidableEq, Repr

namespace Opcode

/-- All opcodes in the order of their bytes. -/
def all : List Opcode :=
  [wide, nop, pushU8, loadArg, popArg, initLocal, popLocal, pushLocal, refSlot,
    pushArray, checkedConvert, uncheckedConvert, call, ret]

/-- The byte that stands for the opcode in code. -/
def byte : Opcode → UInt8
  | wide => 0
  | nop => 1
  | pushU8 => 2
  | loadArg => 3
  | popArg => 4
  | initLocal => 5
  | popLocal => 6
  | pushLocal => 7
  | refSlot => 8
  | pushArray => 9
  | checkedConvert => 10
  | uncheckedConvert => 11
  | call => 12
  | ret => 13

/-- The opcode with the given byte. -/
def ofByte? (byte : UInt8) : Option Opcode :=
  all[byte.toNat]?

@[simp] theorem ofByte?_byte (op : Opcode) : ofByte? op.byte = some op := by
  cases op <;> rfl

theorem ofByte?_eq_some {byte : UInt8} {op : Opcode} :
    ofByte? byte = some op ↔ byte = op.byte := by
  constructor
  · intro h
    have hplace : ∀ n (h : n < all.length), all[n].byte.toNat = n := by decide
    obtain ⟨hlt, rfl⟩ := List.getElem?_eq_some_iff.1 h
    exact UInt8.toNat_inj.1 (hplace _ hlt).symm
  · rintro rfl
    exact ofByte?_byte op

/-- The name that error messages use. -/
def name : Opcode → String
  | wide => "Wide"
  | nop => "Nop"
  | pushU8 => "PushU8"
  | loadArg => "LoadArg"
  | popArg => "PopArg"
  | initLocal => "InitLocal"
  | popLocal => "PopLocal"
  | pushLocal => "PushLocal"
  | refSlot => "RefSlot"
  | pushArray => "PushArray"
  | checkedConvert => "CheckedConvert"
  | uncheckedConvert => "UncheckedConvert"
  | call => "Call"
  | ret => "Ret"

/-- The word that starts an instruction in assembly text. -/
def mnemonic : Opcode → String
  | wide => "wide"
  | nop => "nop"
  | pushU8 => "push.u8"
  | loadArg => "loadarg"
  | popArg => "poparg"
  | initLocal => "initlocal"
  | popLocal => "poplocal"
  | pushLocal => "pushlocal"
  | refSlot => "refslot"
  | pushArray => "pusharray"
  | checkedConvert => "cconv"
  | uncheckedConvert => "uconv"
  | call => "call"
  | ret => "ret"

/-- Whether `wide` may stand before the opcode: it has a slot operand. -/
def acceptsWide : Opcode → Bool
  | loadArg | popArg | initLocal | popLocal | pushLocal | refSlot => true
  | wide | nop | pushU8 | pushArray | checkedConvert | uncheckedConvert | call | ret => false

end Opcode

end TypedStack
