import TypedStack.Json.Basic
import TypedStack.Floating.Rounding
import TypedStack.Floating.Shortest

/-!
# Numbers in JSON documents

An integer literal that fits a machine word is that integer. Any other literal is
a sixty-four bit floating-point number: a significand that fits a machine word is
rounded, and then multiplied or divided by a power of ten, which is rounded too.
Digits beyond such a significand are dropped. In the other direction a
floating-point number is written by its shortest digits.
-/

namespace TypedStack

namespace Json

/-- What a literal is read as. -/
inductive Number where
  | integer (n : Int)
  | real (x : FloatBits .binary64)
  deriving DecidableEq, Repr

/-- The greatest machine word. -/
def maxWord : Nat := UInt64.size - 1

/-- Append digits to a significand as long as it fits a machine word. Returns it
with the digits left. -/
def absorb (significand : Nat) : List Nat → Nat × List Nat
  | [] => (significand, [])
  | digit :: rest =>
    if 10 * significand + digit ≤ maxWord then absorb (10 * significand + digit) rest
    else (significand, digit :: rest)

/-- The greatest power of ten that is a finite number. -/
def maxPower : Nat := 308

/-- The number nearest to a power of ten. -/
def powerOfTen (n : Nat) : FloatBits .binary64 :=
  .ofInt .binary64 (Nat.pow 10 n)

/-- Multiply a non-negative number by a power of ten. Too large a product is
refused; a divisor beyond the range is split up. -/
def scale (x : FloatBits .binary64) (exponent : Int) : Option (FloatBits .binary64) :=
  if exponent.natAbs ≤ maxPower then
    if 0 ≤ exponent then
      let product :=
        FloatBits.mulFinite .binary64 x.finiteParts (powerOfTen exponent.natAbs).finiteParts
      if product.magnitude = FloatFormat.binary64.infinity then none else some product
    else
      some (FloatBits.divFinite .binary64 x.finiteParts
        (powerOfTen exponent.natAbs).finiteParts)
  else if x.magnitude = 0 then some x
  else if 0 ≤ exponent then none
  else
    scale (FloatBits.divFinite .binary64 x.finiteParts (powerOfTen maxPower).finiteParts)
      (exponent + maxPower)
termination_by exponent.natAbs
decreasing_by
  simp only [maxPower] at *
  omega

/-- The number with the given sign. -/
def withSign (negative : Bool) (x : FloatBits .binary64) : FloatBits .binary64 :=
  .ofMagnitude .binary64 negative x.magnitude

/-- Read a literal as a floating-point number. -/
def Literal.real? (literal : Literal) : Option (FloatBits .binary64) :=
  let (significand, dropped) := absorb 0 literal.whole
  let fraction := literal.fraction.getD []
  let (significand, ignored) := absorb significand fraction
  let exponent : Int :=
    dropped.length - (fraction.length - ignored.length : Nat) + literal.exponent.getD 0
  (scale (.ofInt .binary64 significand) exponent).map (withSign literal.negative)

/-- The integer in the whole part of a literal, if it fits a machine word. A zero
with a minus sign is no integer, and a negative integer must fit a signed word. -/
def Literal.integer? (literal : Literal) : Option Int :=
  match literal.fraction, literal.exponent, absorb 0 literal.whole with
  | none, none, (n, []) =>
    if literal.negative then
      if 0 < n ∧ n ≤ UInt64.size / 2 then some (-n) else none
    else some n
  | _, _, _ => none

/-- Read a literal. -/
def Literal.number? (literal : Literal) : Option Number :=
  match literal.integer? with
  | some n => some (.integer n)
  | none => literal.real?.map .real

/-- How floating-point numbers are written: positionally as long as the point
stands no further than `maxPoint` digits behind the first one, or at most
`maxZeros` places before it, and with an exponent otherwise. -/
structure RealStyle where
  maxPoint : Int
  maxZeros : Int

/-- The style for thirty-two bit numbers. -/
def RealStyle.single : RealStyle := ⟨13, 5⟩

/-- The style for sixty-four bit numbers. -/
def RealStyle.double : RealStyle := ⟨16, 4⟩

/-- A decimal as a literal. A whole number keeps a zero behind its point, unless
it has an exponent. -/
def RealStyle.literal (style : RealStyle) (negative : Bool) (d : Decimal) : Literal :=
  let digits := (Nat.toDigits 10 d.digits).map fun c => c.toNat - '0'.toNat
  let point : Int := digits.length + d.exponent
  if 0 ≤ d.exponent ∧ point ≤ style.maxPoint then
    ⟨negative, digits ++ List.replicate d.exponent.toNat 0, some [0], none⟩
  else if 0 < point ∧ point ≤ style.maxPoint then
    ⟨negative, digits.take point.toNat, some (digits.drop point.toNat), none⟩
  else if -style.maxZeros ≤ point ∧ point ≤ 0 then
    ⟨negative, [0], some (List.replicate (-point).toNat 0 ++ digits), none⟩
  else
    ⟨negative, digits.take 1, if digits.length = 1 then none else some (digits.drop 1),
      some (point - 1)⟩

/-- A floating-point number as a document. What is not finite has no literal. -/
def ofFloat {format : FloatFormat} (style : RealStyle) (bits : FloatBits format) : Json :=
  match bits.decode with
  | .finite negative mantissa exponent =>
    if mantissa = 0 then .number ⟨negative, [0], some [0], none⟩
    else .number (style.literal negative (Floating.shortest format .even mantissa exponent))
  | _ => .null

end Json

end TypedStack
