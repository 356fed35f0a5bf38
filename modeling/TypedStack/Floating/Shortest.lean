import TypedStack.Floating.Format

/-!
# Shortest decimal digits

The fewest decimal digits that identify a number among those of its format. The
real numbers that round to a given one form an interval around it; its shortest
decimal is the point of that interval on the coarsest grid of powers of ten that
has one, and of several such points the nearest.
-/

namespace TypedStack

/-- The decimal `digits * 10 ^ exponent`. -/
structure Decimal where
  digits : Nat
  exponent : Int
  deriving DecidableEq, Repr

/-- Which of two equally near decimals is taken. -/
inductive TieRule where
  | up
  | even
  deriving DecidableEq, Repr

namespace Floating

/-- The reals that round to `mantissa * 2 ^ exponent`, in quarters of that unit:
`low` and `high` are the ends, and `closed` tells whether they belong to it. -/
structure Interval where
  low : Nat
  value : Nat
  high : Nat
  closed : Bool
  deriving DecidableEq, Repr

/-- The rounding interval of a positive finite datum. Below a power of two the
numbers stand twice as close, except at the bottom of the range. -/
def interval (format : FloatFormat) (mantissa : Nat) (exponent : Int) : Interval where
  low :=
    if mantissa = Nat.pow 2 format.fractionBits ∧ format.minExponent < exponent
    then 4 * mantissa - 1 else 4 * mantissa - 2
  value := 4 * mantissa
  high := 4 * mantissa + 2
  closed := mantissa % 2 = 0

/-- Whether the grid point `c` lies in the interval, all scaled to whole
numbers: a quarter unit counts `quarter` and a grid step counts `step`. -/
def Interval.contains (around : Interval) (quarter step c : Nat) : Bool :=
  if around.closed then
    around.low * quarter ≤ c * step ∧ c * step ≤ around.high * quarter
  else
    around.low * quarter < c * step ∧ c * step < around.high * quarter

/-- The point of the interval on the grid of multiples of `10 ^ k`, if there is
one. Only the two grid points next to the value have to be tried. -/
def Interval.gridPoint (around : Interval) (tie : TieRule) (exponent k : Int) :
    Option Nat :=
  let quarter := Nat.pow 2 (exponent - 2).toNat * Nat.pow 10 (-k).toNat
  let step := Nat.pow 2 (2 - exponent).toNat * Nat.pow 10 k.toNat
  let below := around.value * quarter / step
  let above := below + 1
  let toBelow := around.value * quarter - below * step
  let toAbove := above * step - around.value * quarter
  match around.contains quarter step below, around.contains quarter step above with
  | false, false => none
  | true, false => some below
  | false, true => some above
  | true, true =>
    if toBelow < toAbove then some below
    else if toAbove < toBelow then some above
    else
      match tie with
      | .up => some above
      | .even => if below % 2 = 0 then some below else some above

/-- The coarsest grid point, searched from the grid of `10 ^ k` down through
`steps` finer grids. -/
def Interval.search (around : Interval) (tie : TieRule) (exponent : Int) :
    Nat → Int → Decimal
  | 0, k => ⟨0, k⟩
  | steps + 1, k =>
    match around.gridPoint tie exponent k with
    | some c => ⟨c, k⟩
    | none => around.search tie exponent steps (k - 1)

/-- The shortest decimal of the positive number `mantissa * 2 ^ exponent` of a
format. The search starts above the number, since `10` exceeds `2 ^ 3`, and
reaches a grid on which the number itself lies. -/
def shortest (format : FloatFormat) (tie : TieRule) (mantissa : Nat) (exponent : Int) :
    Decimal :=
  let start : Nat := (exponent + mantissa.log2 + 1).toNat / 3 + 1
  (interval format mantissa exponent).search tie exponent
    (start + (-exponent).toNat + 1) start

end Floating

/-- Positional notation without an exponent and, for a whole number, without a
point. -/
def Decimal.positional (d : Decimal) : List Char :=
  let digits := Nat.toDigits 10 d.digits
  let point : Int := digits.length + d.exponent
  if 0 ≤ d.exponent then digits ++ List.replicate d.exponent.toNat '0'
  else if 0 < point then digits.take point.toNat ++ '.' :: digits.drop point.toNat
  else '0' :: '.' :: List.replicate (-point).toNat '0' ++ digits

end TypedStack
