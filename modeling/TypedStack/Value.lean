import TypedStack.Kind
import TypedStack.Floating.Half

/-!
# Values

A value is a datum of one kind. Integers are stored as bit vectors of the
width of their kind, floating-point numbers as bit patterns, references as an
address with the kind of the elements that the object there holds.
-/

namespace TypedStack

/-- Where a heap object lives: a place in the store together with the number of
times that place had been vacated when the object was put there. -/
structure Address where
  index : UInt32
  generation : UInt32
  deriving DecidableEq, Repr

/-- An address and the element kind of the object it names. -/
structure Reference where
  address : Address
  element : Kind
  deriving DecidableEq, Repr

/-- A datum tagged with its kind. -/
inductive Value where
  | integer (kind : IntegerKind) (bits : BitVec kind.bits)
  | float (format : FloatFormat) (bits : FloatBits format)
  | bool (b : Bool)
  | ref (reference : Reference)
  deriving DecidableEq, Repr

namespace Value

/-- The kind of a value. -/
def kind : Value → Kind
  | integer kind _ => .integer kind
  | float format _ => .float format
  | bool _ => .bool
  | ref _ => .ref

/-- An unsigned byte. -/
def u8 (byte : UInt8) : Value :=
  integer .u8 byte.toBitVec

/-- The zero of a kind. References have none. -/
def zero? : Kind → Option Value
  | .integer kind => some (integer kind 0)
  | .float format => some (float format 0)
  | .bool => some (bool false)
  | .ref => none

/-- The number an integer pattern of a kind stands for. -/
def intOfBits (kind : IntegerKind) (bits : BitVec kind.bits) : Int :=
  if kind.isSigned then bits.toInt else bits.toNat

/-- The number that an integer value stands for. -/
def toInt? : Value → Option Int
  | integer kind bits => some (intOfBits kind bits)
  | _ => none

/-- The value of a floating-point kind, widened to sixty-four bits. -/
def toDouble? : Value → Option (FloatBits .binary64)
  | float .binary16 bits => some (bits.singleOfHalf.convert .binary64)
  | float .binary32 bits => some (bits.convert .binary64)
  | float .binary64 bits => some bits
  | _ => none

/-- The reference that a value is. -/
def reference? : Value → Option Reference
  | ref reference => some reference
  | _ => none

/-- The integer value of a kind that agrees with `n` in its low bits. -/
def wrapInteger (kind : IntegerKind) (n : Int) : Value :=
  integer kind (BitVec.ofInt kind.bits n)

/-- The integer value of a kind that stands for `n`, if there is one. -/
def ofInteger? (kind : IntegerKind) (n : Int) : Option Value :=
  if kind.min ≤ n ∧ n ≤ kind.max then some (wrapInteger kind n) else none

/-- Within the range of the kind, the low bits are the whole number. -/
theorem toInt?_wrapInteger
    {kind : IntegerKind} {n : Int} (hmin : kind.min ≤ n) (hmax : n ≤ kind.max) :
    (wrapInteger kind n).toInt? = some n := by
  have hbits : 0 < kind.bits := by
    cases kind <;> decide
  simp only [wrapInteger, toInt?, intOfBits, Option.some.injEq]
  unfold IntegerKind.min at hmin
  unfold IntegerKind.max at hmax
  by_cases hsigned : kind.isSigned = true
  · simp only [hsigned, if_true, Nat.pow_eq, Int.natCast_pow] at hmin hmax ⊢
    exact BitVec.toInt_ofInt_eq_self hbits hmin (Int.lt_of_le_sub_one hmax)
  · simp only [hsigned, if_false, Nat.pow_eq, Bool.false_eq_true] at hmin hmax ⊢
    have hmod : n % (Nat.pow 2 kind.bits : Nat) = n :=
      Int.emod_eq_of_lt hmin (Int.lt_of_le_sub_one hmax)
    rw [BitVec.toNat_ofInt, ← Nat.pow_eq, hmod, Int.toNat_of_nonneg hmin]

/-- Equality of values as the machine's users see it: kinds must agree, and
numbers of thirty-two and sixty-four bit formats compare numerically, while
sixteen bit ones compare as patterns. -/
def equals : Value → Value → Bool
  | float .binary32 a, float .binary32 b => a.numEq b
  | float .binary64 a, float .binary64 b => a.numEq b
  | a, b => a == b

end Value

end TypedStack
