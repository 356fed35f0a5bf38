import Mathlib.Data.Nat.Bitwise
import TypedStack.Floating.Half
import TypedStack.Proofs.Floating.Exact

/-!
# Rounding words to sixteen bits

Words are rounded by a look at the bits that are cut off: the highest of them, the ones below
it, and the last bit that is kept. That is the division of the significand by a power of two,
rounded to the even of two quotients that are as near. A number that is large enough to have a
hidden bit counts it in the exponent field, and one that is not is cut at a place that depends
on its exponent. In all cases the word is the nearest pattern of the number.
-/

namespace TypedStack

/-! ## Rounding by the bits that are cut off -/

section

variable {m k : Nat}

theorem and_mask_eq_zero : m &&& (3 * 2 ^ k - 1) = 0 ↔ m / 2 ^ (k + 1) % 2 = 0 ∧ m % 2 ^ k = 0 := by
  have hpos : 0 < 2 ^ k := Nat.pow_pos two_pos
  have hmask : 3 * 2 ^ k - 1 = 2 ^ (k + 1) ||| (2 ^ k - 1) := by
    have hor := Nat.two_pow_add_eq_or_of_lt (i := k + 1) (b := 2 ^ k - 1)
      (by rw [Nat.pow_succ]; omega) 1
    rw [Nat.mul_one] at hor
    rw [← hor, Nat.pow_succ]
    omega
  rw [hmask, Nat.and_or_distrib_left, Nat.or_eq_zero_iff, Nat.and_two_pow,
    Nat.and_two_pow_sub_one_eq_mod, Nat.testBit_eq_decide_div_mod_eq]
  simp

theorem roundDiv_two_pow (m k : Nat) :
    roundDiv m (2 ^ (k + 1)) =
      m / 2 ^ (k + 1) + if m.testBit k = true ∧ m &&& (3 * 2 ^ k - 1) ≠ 0 then 1 else 0 := by
  have hlow : m % 2 ^ k < 2 ^ k := Nat.mod_lt _ (Nat.pow_pos two_pos)
  have hrest : m % 2 ^ (k + 1) = m % 2 ^ k + 2 ^ k * (m / 2 ^ k % 2) := Nat.mod_pow_succ
  have hpow : 2 ^ (k + 1) = 2 ^ k * 2 := Nat.pow_succ _ _
  have hup : 2 ^ (k + 1) < 2 * (m % 2 ^ (k + 1)) ∨
      2 * (m % 2 ^ (k + 1)) = 2 ^ (k + 1) ∧ m / 2 ^ (k + 1) % 2 = 1 ↔
        m.testBit k = true ∧ m &&& (3 * 2 ^ k - 1) ≠ 0 := by
    rw [Ne, and_mask_eq_zero, Nat.testBit_eq_decide_div_mod_eq, decide_eq_true_iff]
    rcases Nat.mod_two_eq_zero_or_one (m / 2 ^ k) with hbit | hbit
    · rw [hbit] at hrest
      omega
    · rw [hbit] at hrest
      omega
  simp only [roundDiv, hup]
  split <;> rfl

theorem roundDiv_add_mul {d : Nat} (hd : 0 < d) (m c : Nat) :
    roundDiv (m + d * (2 * c)) d = roundDiv m d + 2 * c := by
  simp only [roundDiv, Nat.add_mul_div_left _ _ hd, Nat.add_mul_mod_self_left,
    Nat.add_mul_mod_self_left]
  split <;> omega

theorem roundDiv_le (m d : Nat) : roundDiv m d ≤ m / d + 1 := by
  dsimp only [roundDiv]
  split <;> omega

theorem roundDiv_eq_zero {d : Nat} (h : 2 * m < d) : roundDiv m d = 0 := by
  have hlt : m < d := by omega
  simp only [roundDiv, Nat.div_eq_of_lt hlt, Nat.mod_eq_of_lt hlt]
  rw [if_neg (by omega)]

end

namespace Floating

section

variable {k : Nat} {word kept : BitVec 64}

theorem toNat_one_shiftLeft (hk : k < 64) : (1#64 <<< k).toNat = 2 ^ k := by
  have hlt : 2 ^ k < 2 ^ 64 := Nat.pow_lt_pow_right (by decide) hk
  have hone : (1#64).toNat = 1 := rfl
  rw [BitVec.toNat_shiftLeft, hone, Nat.one_shiftLeft, Nat.mod_eq_of_lt hlt]

theorem toNat_mask (hk : k < 62) : (3#64 * (1#64 <<< k) - 1#64).toNat = 3 * 2 ^ k - 1 := by
  have hpos : 0 < 2 ^ k := Nat.pow_pos two_pos
  have hlt : 2 ^ k < 2 ^ 62 := Nat.pow_lt_pow_right (by decide) hk
  have hmul : (3#64 * (1#64 <<< k)).toNat = 3 * 2 ^ k := by
    rw [BitVec.toNat_mul, toNat_one_shiftLeft (by omega)]
    exact Nat.mod_eq_of_lt (by simp; omega)
  rw [BitVec.toNat_sub_of_le, hmul]
  · rfl
  · rw [BitVec.le_def, hmul]
    simp
    omega

theorem roundsUp_iff (hk : k < 62) :
    roundsUp word (1#64 <<< k) = true ↔
      word.toNat.testBit k = true ∧ word.toNat &&& (3 * 2 ^ k - 1) ≠ 0 := by
  have hpos : 2 ^ k ≠ 0 := (Nat.pow_pos two_pos).ne'
  simp only [roundsUp, Bool.and_eq_true, bne_iff_ne, ne_eq, ← BitVec.toNat_inj, BitVec.toNat_and,
    toNat_one_shiftLeft (Nat.lt_trans hk (by decide)), toNat_mask hk, Nat.and_two_pow]
  simp

/-- What is kept of a number that is cut off. -/
theorem toNat_roundKept {c : Nat} (hk : k < 62)
    (hkept : kept.toNat = c + word.toNat / 2 ^ (k + 1)) (hlt : c < 2 ^ 62) :
    (roundKept word kept (1#64 <<< k)).toNat = c + roundDiv word.toNat (2 ^ (k + 1)) := by
  have hle : word.toNat / 2 ^ (k + 1) ≤ word.toNat / 2 :=
    Nat.div_le_div_left (Nat.le_self_pow (by omega) 2) two_pos
  have hword := word.isLt
  have hup := @roundsUp_iff k word hk
  rw [roundDiv_two_pow]
  simp only [← hup]
  unfold roundKept
  split
  · rw [BitVec.toNat_add_of_lt, hkept]
    · rfl
    · rw [hkept]
      simp
      omega
  · rw [hkept]
    omega

end

/-! ## The fields of a word -/

/-- The sign, the exponent field and the fraction field of a word. -/
structure Fields (format : FloatFormat) (word : Nat) (negative : Bool) (exponent fraction : Nat) :
    Prop where
  sign_eq : word / 2 ^ (format.width - 1) = if negative then 1 else 0
  exponent_eq : word / 2 ^ format.fractionBits % 2 ^ format.exponentBits = exponent
  fraction_eq : word % 2 ^ format.fractionBits = fraction

theorem Fields.fraction_lt
    {format : FloatFormat} {word : Nat} {negative : Bool} {exponent fraction : Nat}
    (h : Fields format word negative exponent fraction) : fraction < 2 ^ format.fractionBits :=
  h.fraction_eq ▸ Nat.mod_lt _ (Nat.pow_pos two_pos)

theorem sign_or {n k : Nat} (h : n < 2 ^ k) (negative : Bool) :
    (if negative then 2 ^ k else 0) ||| n = n + if negative then 2 ^ k else 0 := by
  cases negative with
  | false => simp
  | true => simpa [Nat.add_comm] using (Nat.two_pow_add_eq_or_of_lt h 1).symm

section

variable {word : BitVec 64} {negative : Bool} {exponent fraction : Nat}
  (h : Fields .binary64 word.toNat negative exponent fraction)

include h

theorem toNat_exponent : (word >>> 52 &&& 0x7ff#64).toNat = exponent := by
  have hmask : (0x7ff#64).toNat = 2 ^ 11 - 1 := rfl
  rw [BitVec.toNat_and, hmask, Nat.and_two_pow_sub_one_eq_mod, BitVec.toNat_ushiftRight,
    Nat.shiftRight_eq_div_pow]
  exact h.exponent_eq

theorem toNat_fraction : (word &&& 0x000fffffffffffff#64).toNat = fraction := by
  have hmask : (0x000fffffffffffff#64).toNat = 2 ^ 52 - 1 := rfl
  rw [BitVec.toNat_and, hmask, Nat.and_two_pow_sub_one_eq_mod]
  exact h.fraction_eq

theorem toNat_significand :
    (word &&& 0x000fffffffffffff#64 ||| 0x0010000000000000#64).toNat = fraction + 2 ^ 52 := by
  have hlt : fraction < 2 ^ 52 := h.fraction_lt
  have hbit : (0x0010000000000000#64).toNat = 2 ^ 52 * 1 := rfl
  rw [BitVec.toNat_or, toNat_fraction h, hbit, Nat.or_comm,
    ← Nat.two_pow_add_eq_or_of_lt hlt, Nat.mul_one, Nat.add_comm]

theorem toNat_sign : ((word >>> 48 &&& 0x8000#64).setWidth 16 : BitVec 16).toNat =
    if negative then 2 ^ 15 else 0 := by
  have hmask : (0x8000#64).toNat = 2 ^ 15 := rfl
  have hsign : word.toNat / 2 ^ 48 / 2 ^ 15 = if negative then 1 else 0 := by
    rw [Nat.div_div_eq_div_mul]
    exact h.sign_eq
  rw [BitVec.toNat_setWidth, BitVec.toNat_and, hmask, Nat.and_two_pow, BitVec.toNat_ushiftRight,
    Nat.shiftRight_eq_div_pow, Nat.testBit_eq_decide_div_mod_eq, hsign]
  cases negative <;> rfl

theorem toNat_sign_or {half : BitVec 16} (hhalf : half.toNat < 2 ^ 15) :
    ((word >>> 48 &&& 0x8000#64).setWidth 16 ||| half : BitVec 16).toNat =
      half.toNat + if negative then 2 ^ 15 else 0 := by
  rw [BitVec.toNat_or, toNat_sign h, sign_or hhalf]

end

theorem roundDiv_significand_lt {fraction k : Nat} (h : fraction < 2 ^ 52) (hk : 43 ≤ k) :
    roundDiv (fraction + 2 ^ 52) (2 ^ k) < 2 ^ 11 := by
  have hdiv : (fraction + 2 ^ 52) / 2 ^ k ≤ (fraction + 2 ^ 52) / 2 ^ 43 :=
    Nat.div_le_div_left (Nat.pow_le_pow_right two_pos hk) (by decide)
  have hle := roundDiv_le (fraction + 2 ^ 52) (2 ^ k)
  generalize 2 ^ k = d at *
  omega

theorem toNat_setWidth_sixteen {word : BitVec 64} {n : Nat} (h : word.toNat = n) (hn : n < 2 ^ 15) :
    (word.setWidth 16).toNat = n := by
  rw [BitVec.toNat_setWidth, h]
  exact Nat.mod_eq_of_lt (hn.trans (by decide))

section

variable {word : BitVec 64} {negative : Bool} {exponent fraction : Nat}
  (h : Fields .binary64 word.toNat negative exponent fraction)

include h

theorem toNat_narrowWord_normal (hlow : 1008 < exponent) (hhigh : exponent < 1039) :
    (narrowWord word).toNat =
      (exponent - 1008) * 2 ^ 10 + roundDiv fraction (2 ^ 42) + if negative then 2 ^ 15 else 0 := by
  have hlt : fraction < 2 ^ 52 := h.fraction_lt
  have hrounded := roundDiv_le fraction (2 ^ (41 + 1))
  have hfield :
      (BitVec.ofInt 64 (exponent - 1023 + 15) <<< 10).toNat = 2 ^ 10 * (exponent - 1008) := by
    have hcast : ((exponent : Int) - 1023 + 15) = (exponent - 1008 : Nat) := by omega
    rw [hcast, BitVec.ofInt_natCast, BitVec.toNat_shiftLeft, BitVec.toNat_ofNat, Nat.shiftLeft_eq]
    omega
  have hhalf : (BitVec.ofInt 64 (exponent - 1023 + 15) <<< 10 |||
      (word &&& 0x000fffffffffffff#64) >>> 42).toNat =
        2 ^ 10 * (exponent - 1008) + (word &&& 0x000fffffffffffff#64).toNat / 2 ^ (41 + 1) := by
    rw [BitVec.toNat_or, hfield, BitVec.toNat_ushiftRight, Nat.shiftRight_eq_div_pow,
      Nat.two_pow_add_eq_or_of_lt]
    rw [toNat_fraction h]
    omega
  have hkept := toNat_roundKept (by decide) hhalf (by omega)
  rw [toNat_fraction h] at hkept
  have hbound : 2 ^ 10 * (exponent - 1008) + roundDiv fraction (2 ^ (41 + 1)) < 2 ^ 15 := by omega
  have hcut := toNat_setWidth_sixteen hkept hbound
  simp only [narrowWord, toNat_exponent h]
  rw [if_neg (by omega), if_neg (by omega), if_neg (by omega), toNat_sign_or h (by omega), hcut,
    Nat.mul_comm]

theorem toNat_narrowWord_subnormal (hlow : 998 ≤ exponent) (hhigh : exponent ≤ 1008) :
    (narrowWord word).toNat =
      roundDiv (fraction + 2 ^ 52) (2 ^ (1051 - exponent)) + if negative then 2 ^ 15 else 0 := by
  have hlt : fraction < 2 ^ 52 := h.fraction_lt
  obtain ⟨k, hk⟩ : ∃ k, 1051 - exponent = k + 1 := ⟨1050 - exponent, by omega⟩
  have hshift : (43 - ((exponent : Int) - 1023 + 15)).toNat = k + 1 := by omega
  have hcut : ((word &&& 0x000fffffffffffff#64 ||| 0x0010000000000000#64) >>> (k + 1)).toNat =
      0 + (word &&& 0x000fffffffffffff#64 ||| 0x0010000000000000#64).toNat / 2 ^ (k + 1) := by
    rw [BitVec.toNat_ushiftRight, Nat.shiftRight_eq_div_pow, Nat.zero_add]
  have hkept := toNat_roundKept (by omega) hcut (by decide)
  have hbound : roundDiv (fraction + 2 ^ 52) (2 ^ (k + 1)) < 2 ^ 15 :=
    (roundDiv_significand_lt hlt (by omega)).trans (by decide)
  rw [Nat.zero_add, toNat_significand h] at hkept
  have hhalf := toNat_setWidth_sixteen hkept hbound
  simp only [narrowWord, toNat_exponent h, hshift, Nat.add_sub_cancel]
  rw [if_neg (by omega), if_neg (by omega), if_pos (by omega), if_neg (by omega),
    toNat_sign_or h (by omega), hhalf, hk]

theorem toNat_narrowWord_tiny (hlow : exponent < 998) :
    (narrowWord word).toNat = if negative then 2 ^ 15 else 0 := by
  simp only [narrowWord, toNat_exponent h]
  rw [if_neg (by omega), if_neg (by omega), if_pos (by omega), if_pos (by omega), toNat_sign h]

theorem toNat_narrowWord_overflow (hlow : 1039 ≤ exponent) (hhigh : exponent ≠ 2047) :
    (narrowWord word).toNat = 31744 + if negative then 2 ^ 15 else 0 := by
  simp only [narrowWord, toNat_exponent h]
  rw [if_neg (by omega), if_pos (by omega)]
  exact toNat_sign_or h (by decide)

theorem toNat_narrowWord_special (hexponent : exponent = 2047) :
    (narrowWord word).toNat =
      31744 + (fraction / 2 ^ 42 ||| if fraction = 0 then 0 else 2 ^ 9) +
        if negative then 2 ^ 15 else 0 := by
  have hlt : fraction < 2 ^ 52 := h.fraction_lt
  have hzero : word &&& 0x000fffffffffffff#64 = 0#64 ↔ fraction = 0 := by
    rw [← BitVec.toNat_inj, toNat_fraction h]
    rfl
  have hpayload : (((word &&& 0x000fffffffffffff#64) >>> 42).setWidth 16).toNat =
      fraction / 2 ^ 42 := by
    apply toNat_setWidth_sixteen _ (by omega)
    rw [BitVec.toNat_ushiftRight, Nat.shiftRight_eq_div_pow, toNat_fraction h]
  have hquiet : (if word &&& 0x000fffffffffffff#64 ≠ 0#64 then 0x0200#16 else 0#16).toNat =
      if fraction = 0 then 0 else 2 ^ 9 := by
    by_cases hfraction : fraction = 0
    · rw [if_neg (not_not.2 (hzero.2 hfraction)), if_pos hfraction]
      rfl
    · rw [if_pos (mt hzero.1 hfraction), if_neg hfraction]
      rfl
  have hbound : (fraction / 2 ^ 42 ||| if fraction = 0 then 0 else 2 ^ 9) < 2 ^ 10 := by
    apply Nat.or_lt_two_pow (by omega)
    split <;> decide
  have hhalf : (0x7c00#16 |||
      ((if word &&& 0x000fffffffffffff#64 ≠ 0#64 then 0x0200#16 else 0#16) |||
        ((word &&& 0x000fffffffffffff#64) >>> 42).setWidth 16)).toNat =
      31744 + (fraction / 2 ^ 42 ||| if fraction = 0 then 0 else 2 ^ 9) := by
    rw [BitVec.toNat_or, BitVec.toNat_or, hpayload, hquiet, Nat.or_comm (ite _ _ _)]
    exact (Nat.two_pow_add_eq_or_of_lt hbound 31).symm
  simp only [narrowWord, toNat_exponent h, BitVec.or_assoc]
  rw [if_pos (by omega), toNat_sign_or h (by omega), hhalf]

end

end Floating

/-! ## Rounding to sixteen bits -/

namespace FloatBits

theorem width_binary16 : FloatFormat.binary16.width - 1 = 15 := rfl

theorem roundMagnitude_binary16 {fraction : Nat} (hlt : fraction < 2 ^ 52) (field : Int) :
    roundMagnitude .binary16 (2 ^ 52 + fraction) (field - 67) =
      if 1 ≤ field then min (field.toNat * 2 ^ 10 + roundDiv fraction (2 ^ 42)) 31744
      else roundDiv (fraction + 2 ^ 52) (2 ^ (43 - field).toNat) := by
  have hlog : (2 ^ 52 + fraction).log2 = 52 := (Nat.log2_eq_iff (by omega)).2 ⟨by omega, by omega⟩
  have hmin : FloatFormat.binary16.minExponent = -24 := by decide
  have hbits : FloatFormat.binary16.fractionBits = 10 := rfl
  have htop : FloatFormat.binary16.infinity = 31744 := by decide
  simp only [roundMagnitude, hlog, hmin, hbits, htop, Nat.pow_eq]
  rw [if_neg (by omega)]
  by_cases hnormal : 1 ≤ field
  · have hquantum : max (field - 67 + (52 : Nat) - (10 : Nat)) (-24) = field - 25 := by omega
    have hshift : (field - 25 - (field - 67)).toNat = 42 := by omega
    -- the hidden bit counts as one in the exponent field
    have hcarry (r : Nat) : (field - 25 - -24).toNat * 2 ^ 10 + (r + 2 * 512) =
        field.toNat * 2 ^ 10 + r := by
      omega
    have hhidden : 2 ^ 52 = 2 ^ 42 * (2 * 512) := by decide
    rw [hquantum, if_neg (by omega), hshift, if_pos hnormal, Nat.add_comm (2 ^ 52), hhidden,
      roundDiv_add_mul (by decide), hcarry]
  · have hquantum : max (field - 67 + (52 : Nat) - (10 : Nat)) (-24) = -24 := by omega
    have hshift : (-24 - (field - 67)).toNat = (43 - field).toNat := by omega
    have hsmall : roundDiv (fraction + 2 ^ 52) (2 ^ (43 - field).toNat) ≤ 31744 :=
      (Floating.roundDiv_significand_lt hlt (by omega)).le.trans (by decide)
    rw [hquantum, if_neg (by omega), hshift, if_neg hnormal, Nat.add_comm (2 ^ 52), Int.sub_self,
      Int.toNat_zero, Nat.zero_mul, Nat.zero_add, Nat.min_eq_left hsmall]

theorem roundMagnitude_tiny {m : Nat} {e : Int} (hm : m < 2 ^ 52) (he : e ≤ -78) :
    roundMagnitude .binary16 m e = 0 := by
  have hmin : FloatFormat.binary16.minExponent = -24 := by decide
  have hbits : FloatFormat.binary16.fractionBits = 10 := rfl
  by_cases hzero : m = 0
  · rw [roundMagnitude, if_pos hzero]
  have hlog := (Nat.log2_lt hzero).2 hm
  have hquantum : max (e + m.log2 - (10 : Nat)) (-24) = -24 := by omega
  have hpow : 2 ^ 54 ≤ 2 ^ (-24 - e).toNat := Nat.pow_le_pow_right two_pos (by omega)
  simp only [roundMagnitude, hmin, hbits, hquantum, Nat.pow_eq]
  rw [if_neg hzero, if_neg (by omega), roundDiv_eq_zero (by omega)]
  rfl

theorem fields {format : FloatFormat} (x : FloatBits format) :
    Floating.Fields format x.toNat x.isNegative x.exponentField x.fraction where
  sign_eq := by
    have hpos : 0 < 2 ^ (format.width - 1) := Nat.pow_pos two_pos
    rw [toNat_eq]
    cases x.isNegative with
    | false => exact Nat.div_eq_of_lt x.magnitude_lt
    | true => simp [Nat.add_div_right _ hpos, Nat.div_eq_of_lt x.magnitude_lt]
  exponent_eq := by
    rw [exponentField, FloatBits.magnitude, Nat.pow_eq, Nat.pow_eq, format.width_eq, Nat.add_comm,
      Nat.pow_add, Nat.mod_mul_right_div_self]
  fraction_eq := by
    rw [fraction, FloatBits.magnitude, Nat.pow_eq, Nat.pow_eq, format.width_eq,
      Nat.mod_mod_of_dvd _ (Nat.pow_dvd_pow 2 (Nat.le_add_left _ _))]

theorem toNat_convert_of_finite
    {source target : FloatFormat} {x : FloatBits source} {m : Nat} {e : Int}
    (h : x.decode = .finite x.isNegative m e) :
    (x.convert target).toNat =
      roundMagnitude target m e + if x.isNegative then 2 ^ (target.width - 1) else 0 := by
  have hconvert : x.convert target =
      ofMagnitude target x.isNegative (roundMagnitude target m e) := by
    simp only [convert, h, round]
  rw [hconvert, toNat_ofMagnitude (roundMagnitude_lt _ _ _)]

section

variable {x : FloatBits .binary64}

theorem toNat_convert_normal (hpos : x.exponentField ≠ 0) (hfinite : x.exponentField ≠ 2047) :
    (x.convert .binary16).toNat =
      (if 1009 ≤ x.exponentField then
        min ((x.exponentField - 1008) * 2 ^ 10 + roundDiv x.fraction (2 ^ 42)) 31744
      else roundDiv (x.fraction + 2 ^ 52) (2 ^ (1051 - x.exponentField))) +
        if x.isNegative then 2 ^ 15 else 0 := by
  have hlt : x.fraction < 2 ^ 52 := x.fields.fraction_lt
  have hmin : FloatFormat.binary64.minExponent + (x.exponentField - 1 : Nat) =
      (x.exponentField - 1008 : Int) - 67 := by
    have hleast : FloatFormat.binary64.minExponent = -1074 := by decide
    omega
  have hdecode : x.decode = .finite x.isNegative (2 ^ 52 + x.fraction)
      ((x.exponentField - 1008 : Int) - 67) := by
    have htop : FloatFormat.binary64.maxField = 2047 := rfl
    rw [decode, htop, if_neg hfinite, if_neg hpos, hmin]
    rfl
  rw [toNat_convert_of_finite hdecode, roundMagnitude_binary16 hlt, width_binary16]
  by_cases hnormal : 1009 ≤ x.exponentField
  · have hfield : (x.exponentField - 1008 : Int).toNat = x.exponentField - 1008 := by omega
    rw [if_pos hnormal, if_pos (by omega), hfield]
  · have hshift : (43 - (x.exponentField - 1008 : Int)).toNat = 1051 - x.exponentField := by omega
    rw [if_neg hnormal, if_neg (by omega), hshift]

theorem toNat_convert_subnormal (h : x.exponentField = 0) :
    (x.convert .binary16).toNat = if x.isNegative then 2 ^ 15 else 0 := by
  have hlt : x.fraction < 2 ^ 52 := x.fields.fraction_lt
  have hdecode : x.decode = .finite x.isNegative x.fraction (-1074) := by
    have hmin : FloatFormat.binary64.minExponent = -1074 := by decide
    rw [decode, if_neg (by rw [h]; decide), if_pos h, hmin]
  have hzero : roundMagnitude .binary16 x.fraction (-1074) = 0 :=
    roundMagnitude_tiny hlt (by decide)
  rw [toNat_convert_of_finite hdecode, hzero, Nat.zero_add, width_binary16]

theorem toNat_convert_special (h : x.exponentField = 2047) :
    (x.convert .binary16).toNat =
      31744 + (x.fraction / 2 ^ 42 ||| if x.fraction = 0 then 0 else 2 ^ 9) +
        if x.isNegative then 2 ^ 15 else 0 := by
  have hlt : x.fraction < 2 ^ 52 := x.fields.fraction_lt
  have htop : FloatFormat.binary64.maxField = 2047 := rfl
  by_cases hzero : x.fraction = 0
  · have hconvert : x.convert .binary16 = ofMagnitude .binary16 x.isNegative 31744 := by
      rw [convert, decode, htop, if_pos h, if_pos hzero]
      rfl
    rw [hconvert, toNat_ofMagnitude (by decide), hzero]
    rfl
  · have hconvert : x.convert .binary16 =
        ofMagnitude .binary16 x.isNegative
          (FloatFormat.infinity .binary16 + x.quietFraction .binary16) := by
      rw [convert, decode, htop, if_pos h, if_neg hzero]
      rfl
    have hquiet : x.quietFraction .binary16 = x.fraction / 2 ^ 42 ||| 2 ^ 9 := by
      have haligned : x.alignedFraction .binary16 = x.fraction / 2 ^ 42 := by
        show x.fraction * 2 ^ 10 / 2 ^ 52 = x.fraction / 2 ^ 42
        omega
      rw [quietFraction, haligned]
      rfl
    rw [hconvert, toNat_ofMagnitude (FloatFormat.infinity_add_lt (x.quietFraction_lt _)), hquiet,
      if_neg hzero]
    rfl

/-- The words are rounded as the numbers they stand for. -/
theorem halfOfDouble_eq_convert (x : FloatBits .binary64) :
    x.halfOfDouble = x.convert .binary16 := by
  apply BitVec.eq_of_toNat_eq
  show (Floating.narrowWord x).toNat = (x.convert .binary16).toNat
  by_cases hspecial : x.exponentField = 2047
  · exact (Floating.toNat_narrowWord_special x.fields hspecial).trans
      (toNat_convert_special hspecial).symm
  by_cases hzero : x.exponentField = 0
  · exact (Floating.toNat_narrowWord_tiny x.fields (by omega)).trans
      (toNat_convert_subnormal hzero).symm
  have hlt : x.fraction < 2 ^ 52 := x.fields.fraction_lt
  refine Eq.trans ?_ (toNat_convert_normal hzero hspecial).symm
  by_cases hover : 1039 ≤ x.exponentField
  · rw [if_pos (by omega), Nat.min_eq_right (by omega)]
    exact Floating.toNat_narrowWord_overflow x.fields hover hspecial
  by_cases hnormal : 1009 ≤ x.exponentField
  · rw [if_pos hnormal, Nat.min_eq_left ?_]
    · exact Floating.toNat_narrowWord_normal x.fields (by omega) (by omega)
    · have hle := roundDiv_le x.fraction (2 ^ 42)
      omega
  rw [if_neg hnormal]
  by_cases htiny : x.exponentField < 998
  · have hpow : 2 ^ 54 ≤ 2 ^ (1051 - x.exponentField) := Nat.pow_le_pow_right two_pos (by omega)
    rw [roundDiv_eq_zero (by omega), Nat.zero_add]
    exact Floating.toNat_narrowWord_tiny x.fields htiny
  · exact Floating.toNat_narrowWord_subnormal x.fields (by omega) (by omega)

end

end FloatBits

end TypedStack
