import Mathlib.Data.Rat.Floor
import TypedStack.Proofs.Conversion.Wrapping
import TypedStack.Proofs.Floating.Half
import TypedStack.Proofs.Floating.Integers

/-!
# Between integers and floating-point numbers

Without a range check, a floating-point number loses its fraction and is then kept within
the range of the integer kind. An integer becomes the nearest sixty-four bit number, and
for the narrower formats this number is rounded once more. Two roundings are as good as one
if the first of them changes nothing, which is so for all integers of at most fifty-three
bits. Greater ones are infinite in sixteen bits, before the first rounding and after it. In
thirty-two bits the second rounding can be the wrong one.
-/

namespace TypedStack

/-! ## Cutting off the fraction -/

/-- The integer next to a number on the side of zero. -/
def truncate (q : ℚ) : Int :=
  if 0 ≤ q then ⌊q⌋ else ⌈q⌉

theorem truncate_signed {q : ℚ} (hq : 0 ≤ q) (negative : Bool) :
    truncate (signed negative q) = if negative then -⌊q⌋ else ⌊q⌋ := by
  cases negative with
  | false => exact if_pos hq
  | true =>
    simp only [signed, if_true]
    rcases hq.eq_or_lt with rfl | hpos
    · simp [truncate]
    · rw [truncate, if_neg (by linarith), Int.ceil_neg]

theorem floor_mantissa (m : Nat) (e : Int) :
    ⌊(m * 2 ^ e : ℚ)⌋ = (m * Nat.pow 2 e.toNat / Nat.pow 2 (-e).toNat : Nat) := by
  have hquotient : (m * 2 ^ e : ℚ) =
      ((m * 2 ^ e.toNat : Nat) : ℚ) / ((2 ^ (-e).toNat : Nat) : ℚ) := by
    have hexponent : e = (e.toNat : Int) - (-e).toNat := by omega
    push_cast
    rw [mul_div_assoc, ← zpow_natCast, ← zpow_natCast, ← zpow_sub₀ two_ne_zero, ← hexponent]
  rw [hquotient, Rat.floor_natCast_div_natCast]
  rfl

/-- The integer between two bounds that a quantity becomes. What is not a number becomes zero,
an infinity the bound on its side. A number loses its fraction and is replaced with the
bound that it lies beyond. -/
def Quantity.saturate (low high : Int) : Quantity → Int
  | nan => 0
  | infinity negative => if negative then low else high
  | number q => max low (min high (truncate q))

theorem Datum.clamp_eq_saturate (datum : Datum) (low high : Int) :
    datum.clamp low high = datum.quantity.saturate low high := by
  cases datum with
  | nan => rfl
  | infinite negative => rfl
  | finite negative m e =>
    have hpos : (0 : ℚ) ≤ m * 2 ^ e := by positivity
    rw [Datum.clamp, Datum.quantity, Quantity.saturate, truncate_signed hpos, floor_mantissa]

namespace Value

variable {value : Value} {n : Int}

/-- A floating-point value becomes the value of the integer kind that stands for its number,
cut off at the range of the kind. -/
theorem convertUnchecked_float
    (format : FloatFormat) (bits : FloatBits format) (kind : IntegerKind) :
    ∃ result, (float format bits).convertUnchecked (.integer kind) = .ok result ∧
      result.kind = .integer kind ∧
      result.toInt? = some (bits.quantity.saturate kind.min kind.max) := by
  obtain ⟨x, hx, hquantity⟩ := exists_toDouble? format bits
  have hscalar : (float format bits).scalar? = some (.float x) := by
    rw [scalar?, hx, Option.map_some]
  have hcast := castDouble?_integer kind x
  obtain ⟨hmin, hmax⟩ := kind.min_le_zero_le_max
  obtain ⟨hge, hle⟩ := x.decode.clamp_range hmin hmax
  rw [← hquantity, FloatBits.quantity, ← Datum.clamp_eq_saturate]
  refine ⟨_, ?_, rfl, toInt?_wrapInteger hge hle⟩
  rw [convertUnchecked_of_scalar hscalar, castOf?, hcast]
  rfl

/-! ## Rounding integers -/

theorem convertUnchecked_to_float (h : value.toInt? = some n) (format : FloatFormat) :
    value.convertUnchecked (.float format) = .ok (ofDouble format (.ofInt .binary64 n)) := by
  rw [convertUnchecked_of_scalar (scalar?_of_toInt? h)]
  rfl

/-- No integer of any kind has more than sixty-four bits. -/
theorem abs_lt_of_toInt? (h : value.toInt? = some n) : |(n : ℚ)| < 2 ^ 64 := by
  cases value with
  | integer kind bits =>
    obtain rfl : intOfBits kind bits = n := Option.some.inj h
    obtain ⟨hmin, hmax⟩ := intOfBits_range kind bits
    have hrange : -2 ^ 64 < kind.min ∧ kind.max < 2 ^ 64 := by
      cases kind <;> decide
    rw [abs_lt]
    constructor
    · exact_mod_cast hrange.1.trans_le hmin
    · exact_mod_cast hmax.trans_lt hrange.2
  | float format bits => cases h
  | bool b => cases h
  | ref reference => cases h

end Value

namespace FloatBits

variable {n : Int}

theorem lt_overflow_of_lt {format : FloatFormat} {q : ℚ} (htop : 65 ≤ format.topExponent)
    (hq : |q| < 2 ^ 65) : |q| < format.overflow := by
  refine hq.trans_le (le_trans ?_ format.two_zpow_le_overflow)
  exact_mod_cast zpow_le_zpow_right₀ (one_le_two : (1 : ℚ) ≤ 2) htop

theorem represents_binary64_int (h : |n| ≤ 2 ^ 53) : Represents .binary64 n := by
  apply FloatFormat.represents_int (by decide) (by decide)
  have hnat : (n.natAbs : Int) ≤ 2 ^ 53 := by
    rwa [Int.natCast_natAbs]
  exact_mod_cast hnat

/-- The sixty-four bit number nearest to an integer of any kind. -/
theorem isNearest_binary64_ofInt (h : |(n : ℚ)| < 2 ^ 64) :
    (ofInt .binary64 n).IsNearest n := by
  apply isNearest_ofInt
  apply lt_overflow_of_lt (by decide)
  exact h.trans (by norm_num)

/-- An integer of fifty-three bits is rounded once, by the second of the two roundings. -/
theorem isNearest_convert_ofInt {target : FloatFormat}
    (h : |n| ≤ 2 ^ 53) (htarget : |(n : ℚ)| < target.overflow) :
    ((ofInt .binary64 n).convert target).IsNearest n :=
  isNearest_convert (quantity_ofInt (represents_binary64_int h)) htarget

/-- Sixteen bits do not show which of the greater integers were rounded before. -/
theorem quantity_convert_ofInt_of_le (hn : |(n : ℚ)| < 2 ^ 64) (h : 65520 ≤ |(n : ℚ)|) :
    ((ofInt .binary64 n).convert .binary16).quantity = .infinity (decide (n < 0)) := by
  obtain ⟨r, hr, hclosest⟩ := (isNearest_binary64_ofInt hn).exists_number
  have hle : 65520 ≤ |r| := by
    -- 65520 itself is a sixty-four bit number
    have hrepresents := @represents_binary64_int 65520 (by norm_num)
    exact_mod_cast le_abs_of_closest hclosest hrepresents (by exact_mod_cast h)
  rw [quantity_convert_of_overflow_le hr (overflow_binary16 ▸ hle), isNegative_ofInt]

/-- In thirty-two bits, what the first rounding gave is rounded again. -/
theorem isNearest_convert_nearest (hn : |(n : ℚ)| < 2 ^ 64) :
    ∃ r, (ofInt .binary64 n).quantity = .number r ∧
      ((ofInt .binary64 n).convert .binary32).IsNearest r := by
  obtain ⟨r, hr, hclosest⟩ := (isNearest_binary64_ofInt hn).exists_number
  refine ⟨r, hr, isNearest_convert hr ?_⟩
  apply lt_overflow_of_lt (by decide)
  have hle := abs_le_of_closest hclosest
  linarith

end FloatBits

namespace Value

open FloatBits (ofInt)

/-- Between integers and floating-point numbers without a range check. To an integer kind, a
number is cut toward zero and kept within the range; what is not a number becomes zero and
infinities the ends of the range. An integer becomes the nearest number in sixty-four
bits. In sixteen bits it becomes the nearest number as well, or infinite from 65520
on. In thirty-two bits it becomes the number nearest to its nearest number in sixty-four
bits, which is its own nearest number up to `2 ^ 53`. Results have the sign of the integer,
so zero becomes a positive zero. -/
theorem convertUnchecked_truncates_and_rounds :
    (∀ (format : FloatFormat) (bits : FloatBits format) (kind : IntegerKind),
      ∃ result, (float format bits).convertUnchecked (.integer kind) = .ok result ∧
        result.kind = .integer kind ∧
        (bits.quantity = .nan → result.toInt? = some 0) ∧
        (bits.quantity = .infinity true → result.toInt? = some kind.min) ∧
        (bits.quantity = .infinity false → result.toInt? = some kind.max) ∧
        ∀ q, bits.quantity = .number q →
          result.toInt? = some (max kind.min (min kind.max (truncate q)))) ∧
    (∀ (value : Value) (n : Int), value.toInt? = some n →
      ∃ (double : FloatBits .binary64) (half : FloatBits .binary16) (single : FloatBits .binary32),
        value.convertUnchecked (.float .binary64) = .ok (float .binary64 double) ∧
        value.convertUnchecked (.float .binary16) = .ok (float .binary16 half) ∧
        value.convertUnchecked (.float .binary32) = .ok (float .binary32 single) ∧
        double.isNegative = decide (n < 0) ∧ half.isNegative = decide (n < 0) ∧
        single.isNegative = decide (n < 0) ∧
        double.IsNearest n ∧
        (|n| < 65520 → half.IsNearest n) ∧
        (65520 ≤ |n| → half.quantity = .infinity (decide (n < 0))) ∧
        (∃ r, double.quantity = .number r ∧ single.IsNearest r) ∧
        (|n| ≤ 2 ^ 53 → single.IsNearest n)) := by
  constructor
  · intro format bits kind
    obtain ⟨result, hresult, hkind, hnumber⟩ := convertUnchecked_float format bits kind
    have hof : ∀ quantity, bits.quantity = quantity →
        result.toInt? = some (quantity.saturate kind.min kind.max) := by
      rintro quantity rfl
      exact hnumber
    exact ⟨result, hresult, hkind, hof .nan, hof (.infinity true), hof (.infinity false),
      fun q => hof (.number q)⟩
  · intro value n hn
    have hrange := abs_lt_of_toInt? hn
    refine ⟨ofInt .binary64 n, (ofInt .binary64 n).convert .binary16,
      (ofInt .binary64 n).convert .binary32, convertUnchecked_to_float hn _, ?_,
      convertUnchecked_to_float hn _, ?_, ?_, ?_,
      FloatBits.isNearest_binary64_ofInt hrange, ?_, ?_,
      FloatBits.isNearest_convert_nearest hrange, ?_⟩
    · rw [convertUnchecked_to_float hn, ofDouble_eq_convert (by decide)]
    · exact FloatBits.isNegative_ofInt _ n
    · rw [FloatBits.isNegative_convert, FloatBits.isNegative_ofInt]
    · rw [FloatBits.isNegative_convert, FloatBits.isNegative_ofInt]
    · intro hlt
      apply FloatBits.isNearest_convert_ofInt (hlt.le.trans (by norm_num))
      rw [FloatBits.overflow_binary16]
      exact_mod_cast hlt
    · intro hle
      exact FloatBits.quantity_convert_ofInt_of_le hrange (by exact_mod_cast hle)
    · intro hle
      apply FloatBits.isNearest_convert_ofInt hle
      exact FloatBits.lt_overflow_of_lt (by decide) (hrange.trans (by norm_num))

/-- A half is cut off. The power of two just above the greatest number of a kind is replaced
with that number, a negative infinity with the least one. In sixteen bits 65520 is infinite,
and `2 ^ 53` is its own nearest number in thirty-two bits. -/
theorem convertUnchecked_truncates_and_rounds_boundaries :
    (∃ result, (float .binary64 0x4004000000000000).convertUnchecked (.integer .u8) =
      .ok result ∧ result.toInt? = some 2) ∧
    (∃ result, (float .binary64 0x43e0000000000000).convertUnchecked (.integer .i64) =
      .ok result ∧ result.toInt? = some 0x7fffffffffffffff) ∧
    (∃ result, (float .binary32 0xff800000).convertUnchecked (.integer .i8) =
      .ok result ∧ result.toInt? = some (-128)) ∧
    (∃ half, (integer .u16 65520).convertUnchecked (.float .binary16) =
      .ok (float .binary16 half) ∧ half.quantity = .infinity false) ∧
    (∃ single, (integer .u64 0x20000000000000).convertUnchecked (.float .binary32) =
      .ok (float .binary32 single) ∧ single.IsNearest 0x20000000000000) := by
  obtain ⟨htruncates, hrounds⟩ := convertUnchecked_truncates_and_rounds
  have hhalf : (0x4004000000000000 : FloatBits .binary64).quantity = .number (5 / 2) :=
    FloatBits.quantity_of_decode (m := 5 * 2 ^ 50) (e := -51) (by decide) (by norm_num)
  have habove : (0x43e0000000000000 : FloatBits .binary64).quantity = .number (2 ^ 63) :=
    FloatBits.quantity_of_decode (m := 2 ^ 52) (e := 11) (by decide) (by norm_num)
  have hfloor : truncate (5 / 2) = 2 := by
    norm_num [truncate]
  have hpower : truncate (2 ^ 63) = 2 ^ 63 := by
    norm_num [truncate]
  refine ⟨?_, ?_, ?_, ?_, ?_⟩
  · obtain ⟨result, hresult, -, -, -, -, hnumber⟩ := htruncates _ 0x4004000000000000 .u8
    refine ⟨result, hresult, ?_⟩
    rw [hnumber _ hhalf, hfloor]
    rfl
  · obtain ⟨result, hresult, -, -, -, -, hnumber⟩ := htruncates _ 0x43e0000000000000 .i64
    refine ⟨result, hresult, ?_⟩
    rw [hnumber _ habove, hpower]
    rfl
  · obtain ⟨result, hresult, -, -, hlow, -, -⟩ := htruncates .binary32 0xff800000 .i8
    exact ⟨result, hresult, hlow (by decide)⟩
  · obtain ⟨_, half, _, -, hhalf, -, -, -, -, -, -, hinfinite, -⟩ :=
      hrounds (integer .u16 65520) 65520 (by decide)
    exact ⟨half, hhalf, hinfinite (by decide)⟩
  · obtain ⟨_, _, single, -, -, hsingle, -, -, -, -, -, -, -, hnearest⟩ :=
      hrounds (integer .u64 0x20000000000000) 0x20000000000000 (by decide)
    exact ⟨single, hsingle, by exact_mod_cast hnearest (by decide)⟩

/-- Above `2 ^ 53` two roundings differ from one: the first goes to the middle between two
numbers of thirty-two bits, and the second from there to the even one. -/
example : (integer .i64 0x1000001000000001).convertUnchecked (.float .binary32) =
      .ok (float .binary32 0x5d800000) ∧
    ofInt .binary32 0x1000001000000001 = (0x5d800001 : FloatBits .binary32) := by
  decide

end Value

end TypedStack
