import TypedStack.Floating.Format

/-!
# Rounding into a format

`FloatBits.round` is the only place where a number loses precision: it takes an
exact `mantissa * 2 ^ exponent` to the nearest pattern, a tie going to the even
one. Conversions between formats, multiplication, division and conversion of
integers are exact operations followed by one such rounding.
-/

namespace TypedStack

/-- The quotient `m / d` rounded to the nearest integer, a tie to the even one. -/
def roundDiv (m d : Nat) : Nat :=
  let quotient := m / d
  let twice := 2 * (m % d)
  if d < twice ∨ (twice = d ∧ quotient % 2 = 1) then quotient + 1 else quotient

namespace FloatBits

/-- The magnitude nearest to `mantissa * 2 ^ exponent`. The result is counted in
units of the last place: `quantum` is the exponent of that unit, and a carry out
of the significand runs into the exponent field by plain addition, up to the
infinity. -/
def roundMagnitude (format : FloatFormat) (mantissa : Nat) (exponent : Int) : Nat :=
  if mantissa = 0 then 0
  else
    let quantum :=
      max (exponent + mantissa.log2 - format.fractionBits) format.minExponent
    let significand :=
      if quantum ≤ exponent then mantissa * Nat.pow 2 (exponent - quantum).toNat
      else roundDiv mantissa (Nat.pow 2 (quantum - exponent).toNat)
    min ((quantum - format.minExponent).toNat * Nat.pow 2 format.fractionBits + significand)
      format.infinity

/-- The pattern nearest to `± mantissa * 2 ^ exponent`, ties to even. -/
def round (format : FloatFormat) (negative : Bool) (mantissa : Nat) (exponent : Int) :
    FloatBits format :=
  ofMagnitude format negative (roundMagnitude format mantissa exponent)

/-- The pattern nearest to an integer. -/
def ofInt (format : FloatFormat) (n : Int) : FloatBits format :=
  round format (n < 0) n.natAbs 0

variable {source : FloatFormat}

/-- The fraction field moved to the place it has in another format, where low
bits are dropped if there is no room for them. -/
def alignedFraction (target : FloatFormat) (bits : FloatBits source) : Nat :=
  bits.fraction * Nat.pow 2 target.fractionBits / Nat.pow 2 source.fractionBits

/-- The nearest pattern of another format. What is not a number keeps its sign
and leading payload bits and becomes quiet. -/
def convert (target : FloatFormat) (bits : FloatBits source) : FloatBits target :=
  match bits.decode with
  | .nan =>
    ofMagnitude target bits.isNegative
      (target.infinity + (bits.alignedFraction target ||| Nat.pow 2 (target.fractionBits - 1)))
  | .infinite negative => ofMagnitude target negative target.infinity
  | .finite negative mantissa exponent => round target negative mantissa exponent

/-- The mantissa and exponent of a finite number. -/
def finiteParts (bits : FloatBits source) : Nat × Int :=
  match bits.decode with
  | .finite _ mantissa exponent => (mantissa, exponent)
  | _ => (0, 0)

/-- The nearest pattern to the product of two finite data. -/
def mulFinite (format : FloatFormat) (a b : Nat × Int) : FloatBits format :=
  round format false (a.1 * b.1) (a.2 + b.2)

/-- Quotient bits computed beyond the dividend's, more than any format keeps. -/
def quotientBits : Nat := 128

/-- The nearest pattern to the quotient of two finite data. The quotient is
taken to many more bits than the format keeps, with one more bit that tells
whether anything is left over, so that a tie is seen as one only if it is. -/
def divFinite (format : FloatFormat) (a b : Nat × Int) : FloatBits format :=
  let dividend := a.1 * Nat.pow 2 quotientBits
  let sticky := if dividend % b.1 = 0 then 0 else 1
  round format false (2 * (dividend / b.1) + sticky) (a.2 - b.2 - quotientBits - 1)

end FloatBits

namespace Datum

/-- The integer a datum is equal to, if there is one. -/
def toInt? : Datum → Option Int
  | nan => none
  | infinite _ => none
  | finite negative mantissa exponent =>
    let scaled : Option Nat :=
      if 0 ≤ exponent then some (mantissa * Nat.pow 2 exponent.toNat)
      else if mantissa % Nat.pow 2 (-exponent).toNat = 0 then
        some (mantissa / Nat.pow 2 (-exponent).toNat)
      else none
    scaled.map fun n => if negative then -n else n

/-- The integer part of a finite datum, toward zero, kept between two bounds.
Infinities go to the bounds and what is not a number to zero. -/
def clamp (low high : Int) : Datum → Int
  | nan => 0
  | infinite negative => if negative then low else high
  | finite negative mantissa exponent =>
    let whole : Nat := mantissa * Nat.pow 2 exponent.toNat / Nat.pow 2 (-exponent).toNat
    max low (min high (if negative then -whole else whole))

/-- The least integer of the wide type that numbers of every kind are compared in. -/
def wideMin : Int := -(Nat.pow 2 127 : Int)

/-- The greatest integer of the wide type. -/
def wideMax : Int := (Nat.pow 2 127 : Int) - 1

/-- The integer a datum is equal to, in the wide type. One that lies outside of
the type is replaced with the bound on its side. -/
def integral? (datum : Datum) : Option Int :=
  if datum.toInt?.isSome then some (datum.clamp wideMin wideMax) else none

end Datum

end TypedStack
