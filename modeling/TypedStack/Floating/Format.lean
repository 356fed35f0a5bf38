/-!
# Binary floating-point formats

The three interchange formats with sixteen, thirty-two and sixty-four bits. A
bit pattern is a sign bit, a biased exponent field and a fraction field, and
stands for a `Datum`: not a number, an infinity, or a finite number
`mantissa * 2 ^ exponent` with a sign. All arithmetic is on exact integers.
-/

namespace TypedStack

/-- The binary floating-point formats, named by their number of bits. -/
inductive FloatFormat where
  | binary16
  | binary32
  | binary64
  deriving DecidableEq, Repr

namespace FloatFormat

/-- Number of bits of a pattern. -/
def width : FloatFormat → Nat
  | binary16 => 16
  | binary32 => 32
  | binary64 => 64

/-- Number of bits of the fraction field. -/
def fractionBits : FloatFormat → Nat
  | binary16 => 10
  | binary32 => 23
  | binary64 => 52

/-- Number of bits of the exponent field. -/
def exponentBits : FloatFormat → Nat
  | binary16 => 5
  | binary32 => 8
  | binary64 => 11

/-- The exponent of the least positive number, which is a power of two. -/
def minExponent (format : FloatFormat) : Int :=
  2 - Nat.pow 2 (format.exponentBits - 1) - format.fractionBits

/-- The exponent field of infinities and of patterns that are not numbers. -/
def maxField (format : FloatFormat) : Nat :=
  Nat.pow 2 format.exponentBits - 1

/-- The magnitude of an infinity, that is its pattern without the sign bit. -/
def infinity (format : FloatFormat) : Nat :=
  format.maxField * Nat.pow 2 format.fractionBits

end FloatFormat

/-- A bit pattern of a format. -/
abbrev FloatBits (format : FloatFormat) := BitVec format.width

/-- What a bit pattern stands for. A finite datum is
`± mantissa * 2 ^ exponent`; zeros are signed. -/
inductive Datum where
  | nan
  | infinite (negative : Bool)
  | finite (negative : Bool) (mantissa : Nat) (exponent : Int)
  deriving DecidableEq, Repr

namespace FloatBits

variable {format : FloatFormat}

/-- The pattern with the given sign and magnitude. -/
def ofMagnitude (format : FloatFormat) (negative : Bool) (magnitude : Nat) :
    FloatBits format :=
  BitVec.ofNat format.width
    (magnitude + if negative then Nat.pow 2 (format.width - 1) else 0)

/-- Whether the sign bit is set. -/
def isNegative (bits : FloatBits format) : Bool :=
  bits.toNat / Nat.pow 2 (format.width - 1) % 2 == 1

/-- The pattern without its sign bit, as a number. -/
def magnitude (bits : FloatBits format) : Nat :=
  bits.toNat % Nat.pow 2 (format.width - 1)

/-- The exponent field. -/
def exponentField (bits : FloatBits format) : Nat :=
  bits.magnitude / Nat.pow 2 format.fractionBits

/-- The fraction field. -/
def fraction (bits : FloatBits format) : Nat :=
  bits.magnitude % Nat.pow 2 format.fractionBits

/-- Whether the pattern is not a number. -/
def isNaN (bits : FloatBits format) : Bool :=
  format.infinity < bits.magnitude

/-- The meaning of a pattern. An exponent field of zero has no hidden bit and
the same exponent as a field of one. -/
def decode (bits : FloatBits format) : Datum :=
  if bits.exponentField = format.maxField then
    if bits.fraction = 0 then .infinite bits.isNegative else .nan
  else if bits.exponentField = 0 then
    .finite bits.isNegative bits.fraction format.minExponent
  else
    .finite bits.isNegative (Nat.pow 2 format.fractionBits + bits.fraction)
      (format.minExponent + (bits.exponentField - 1 : Nat))

/-- Numeric equality: not-a-number patterns differ from everything, the two
zeros are equal. -/
def numEq (a b : FloatBits format) : Bool :=
  !a.isNaN && !b.isNaN && (a == b || (a.magnitude == 0 && b.magnitude == 0))

end FloatBits

end TypedStack
