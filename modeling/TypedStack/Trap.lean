import TypedStack.Conversion
import TypedStack.Heap.Store

/-!
# Traps

A trap ends a run. It names a cause, and the function and offset of the
instruction that could not be carried out.
-/

namespace TypedStack

/-- The causes of traps. -/
inductive TrapKind where
  | stackUnderflow
  | stackOverflow
  | stackTypeMismatch
  | invalidSlot
  | slotAlreadyConsumed
  | uninitializedRead
  | danglingReference
  | indexOutOfRange
  | conversionOverflow
  | returnArityMismatch
  | invalidInstruction
  | invalidFunction
  | codeOverrun
  deriving DecidableEq, Repr

namespace TrapKind

/-- All causes. -/
def all : List TrapKind :=
  [stackUnderflow, stackOverflow, stackTypeMismatch, invalidSlot, slotAlreadyConsumed,
    uninitializedRead, danglingReference, indexOutOfRange, conversionOverflow,
    returnArityMismatch, invalidInstruction, invalidFunction, codeOverrun]

/-- The name of a cause. -/
def name : TrapKind → String
  | stackUnderflow => "StackUnderflow"
  | stackOverflow => "StackOverflow"
  | stackTypeMismatch => "StackTypeMismatch"
  | invalidSlot => "InvalidSlot"
  | slotAlreadyConsumed => "SlotAlreadyConsumed"
  | uninitializedRead => "UninitializedRead"
  | danglingReference => "DanglingReference"
  | indexOutOfRange => "IndexOutOfRange"
  | conversionOverflow => "ConversionOverflow"
  | returnArityMismatch => "ReturnArityMismatch"
  | invalidInstruction => "InvalidInstruction"
  | invalidFunction => "InvalidFunction"
  | codeOverrun => "CodeOverrun"

/-- The cause with the given name. -/
def ofName? (name : String) : Option TrapKind :=
  all.find? (·.name == name)

/-- What is said of a name that no cause has. -/
def unknownMessage (name : String) : String :=
  "unknown trap kind `" ++ name ++ "`"

end TrapKind

/-- The cause that a heap error is. -/
def HeapError.trapKind : HeapError → TrapKind
  | danglingReference _ => .danglingReference
  | indexOutOfRange _ _ _ => .indexOutOfRange
  | elementKind _ => .stackTypeMismatch
  | exhausted => .stackOverflow

/-- The cause that a conversion error is. -/
def ConversionError.trapKind : ConversionError → TrapKind
  | overflow _ _ => .conversionOverflow
  | notNumeric _ _ => .stackTypeMismatch

/-- A cause and the instruction at which it arose. -/
structure Trap where
  kind : TrapKind
  function : UInt16
  offset : Nat
  deriving DecidableEq, Repr

/-- The wording of a trap. -/
def Trap.message (trap : Trap) : String :=
  trap.kind.name ++ " in function " ++ toString trap.function.toNat ++ " at " ++
    Text.offset trap.offset

end TypedStack
