import TypedStack.Floating.Rounding

/-!
# Patterns of sixteen bits

Sixteen bit numbers are worked with in wider formats. The ways between the formats are taken
on words: the fields of a pattern are cut out, moved and put together again, and where bits
are lost, a look at them tells how to round.
-/

namespace TypedStack

namespace Floating

/-- Whether what is cut off below a number rounds it up, where `roundBit` is the highest bit
that is cut off. The mask has the last bit that is kept and all bits below the round bit, so
that a tie goes up from an odd number only. -/
def roundsUp (word roundBit : BitVec 64) : Bool :=
  word &&& roundBit != 0#64 && word &&& (3#64 * roundBit - 1#64) != 0#64

/-- What is kept of a word, rounded by what is cut off. A carry out of a fraction runs into the
exponent field. -/
def roundKept (word kept roundBit : BitVec 64) : BitVec 64 :=
  if roundsUp word roundBit then kept + 1#64 else kept

/-- Round a word of the sixty-four bit format to sixteen bits. -/
def narrowWord (word : BitVec 64) : BitVec 16 :=
  let sign : BitVec 16 := (word >>> 48 &&& 0x8000#64).setWidth 16
  let exponent : Int := (word >>> 52 &&& 0x7ff#64).toNat
  let fraction := word &&& 0x000fffffffffffff#64
  if exponent = 0x7ff then
    -- what is not a number becomes quiet, and no infinity
    let quiet : BitVec 16 := if fraction ≠ 0#64 then 0x0200#16 else 0#16
    sign ||| 0x7c00#16 ||| quiet ||| (fraction >>> 42).setWidth 16
  else
    let field := exponent - 1023 + 15
    if 0x1f ≤ field then sign ||| 0x7c00#16
    else if field ≤ 0 then
      let shift := (43 - field).toNat
      if 53 < shift then sign
      else
        let significand := fraction ||| 0x0010000000000000#64
        sign ||| (roundKept significand (significand >>> shift) (1#64 <<< (shift - 1))).setWidth 16
    else
      let half := BitVec.ofInt 64 field <<< 10 ||| fraction >>> 42
      sign ||| (roundKept fraction half (1#64 <<< 41)).setWidth 16

/-- Widen a word of the sixteen bit format to thirty-two bits. A number without a hidden bit is
found by a division. -/
def widenWord (word : BitVec 16) : BitVec 32 :=
  let sign : BitVec 32 := (word &&& 0x8000#16).setWidth 32 <<< 16
  let exponent : BitVec 32 := (word >>> 10 &&& 0x1f#16).setWidth 32
  let fraction : BitVec 32 := (word &&& 0x03ff#16).setWidth 32
  if exponent = 0#32 then
    if fraction = 0#32 then sign
    else
      let magnitude : BitVec 32 := FloatBits.divFinite .binary32
        (FloatBits.ofInt .binary32 fraction.toNat : FloatBits .binary32).finiteParts
        (FloatBits.ofInt .binary32 16777216 : FloatBits .binary32).finiteParts
      if sign ≠ 0#32 then magnitude ^^^ 0x80000000#32 else magnitude
  else if exponent = 0x1f#32 then sign ||| 0x7f800000#32 ||| fraction <<< 13
  else sign ||| (exponent + 127#32 - 15#32) <<< 23 ||| fraction <<< 13

end Floating

namespace FloatBits

/-- The sixteen bit pattern nearest to a sixty-four bit one, ties to even. -/
def halfOfDouble (x : FloatBits .binary64) : FloatBits .binary16 :=
  Floating.narrowWord x

/-- The sixteen bit pattern nearest to a thirty-two bit one. -/
def halfOfSingle (x : FloatBits .binary32) : FloatBits .binary16 :=
  halfOfDouble (x.convert .binary64)

/-- The thirty-two bit pattern with the meaning of a sixteen bit one. -/
def singleOfHalf (x : FloatBits .binary16) : FloatBits .binary32 :=
  Floating.widenWord x

end FloatBits

end TypedStack
