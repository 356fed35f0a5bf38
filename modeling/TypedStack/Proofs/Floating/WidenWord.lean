import TypedStack.Proofs.Floating.Integers
import TypedStack.Proofs.Floating.NarrowWord
import TypedStack.Proofs.Floating.Widening

/-!
# Widening words of sixteen bits

The fields of a sixteen bit word are moved to the places that they have in thirty-two bits. A
number without a hidden bit is a small integer, divided by a power of two: the division is
exact. On the way to sixty-four bits and back the words are what conversion makes of them.
-/

namespace TypedStack

namespace Floating

theorem xor_two_pow_of_lt {a k : Nat} (h : a < 2 ^ k) : a ^^^ 2 ^ k = a + 2 ^ k := by
  have hor := Nat.two_pow_add_eq_or_of_lt h 1
  rw [Nat.mul_one] at hor
  rw [Nat.add_comm, hor]
  apply Nat.eq_of_testBit_eq
  intro i
  by_cases hi : k = i
  · subst hi
    simp [Nat.testBit_lt_two_pow h]
  · simp [Nat.testBit_two_pow_of_ne hi]

section

variable {word : BitVec 16} {negative : Bool} {exponent fraction : Nat}
  (h : Fields .binary16 word.toNat negative exponent fraction)

include h

theorem toNat_halfSign : ((word &&& 0x8000#16).setWidth 32 <<< 16 : BitVec 32).toNat =
    if negative then 2 ^ 31 else 0 := by
  have hmask : (0x8000#16).toNat = 2 ^ 15 := rfl
  have hsign : word.toNat / 2 ^ 15 = if negative then 1 else 0 := h.sign_eq
  rw [BitVec.toNat_shiftLeft, BitVec.toNat_setWidth, BitVec.toNat_and, hmask, Nat.and_two_pow,
    Nat.testBit_eq_decide_div_mod_eq, hsign]
  cases negative <;> rfl

theorem toNat_halfExponent :
    ((word >>> 10 &&& 0x1f#16).setWidth 32 : BitVec 32).toNat = exponent := by
  have hmask : (0x1f#16).toNat = 2 ^ 5 - 1 := rfl
  have hexponent : word.toNat / 2 ^ 10 % 2 ^ 5 = exponent := h.exponent_eq
  rw [BitVec.toNat_setWidth, BitVec.toNat_and, hmask, Nat.and_two_pow_sub_one_eq_mod,
    BitVec.toNat_ushiftRight, Nat.shiftRight_eq_div_pow, hexponent]
  omega

theorem toNat_halfFraction :
    ((word &&& 0x03ff#16).setWidth 32 : BitVec 32).toNat = fraction := by
  have hmask : (0x03ff#16).toNat = 2 ^ 10 - 1 := rfl
  have hfraction : word.toNat % 2 ^ 10 = fraction := h.fraction_eq
  rw [BitVec.toNat_setWidth, BitVec.toNat_and, hmask, Nat.and_two_pow_sub_one_eq_mod, hfraction]
  omega

theorem halfExponent_eq_iff {n : Nat} (hn : n < 2 ^ 32) :
    (word >>> 10 &&& 0x1f#16).setWidth 32 = BitVec.ofNat 32 n ↔ exponent = n := by
  rw [← BitVec.toNat_inj, toNat_halfExponent h, BitVec.toNat_ofNat, Nat.mod_eq_of_lt hn]

theorem halfFraction_eq_zero :
    (word &&& 0x03ff#16).setWidth 32 = 0#32 ↔ fraction = 0 := by
  rw [← BitVec.toNat_inj, toNat_halfFraction h, BitVec.toNat_ofNat, Nat.zero_mod]

end

/-- A number with its sign turned if it has one. -/
theorem toNat_negateIf {sign magnitude : BitVec 32} {negative : Bool} {n : Nat}
    (hsign : sign.toNat = if negative then 2 ^ 31 else 0) (hmagnitude : magnitude.toNat = n)
    (hn : n < 2 ^ 31) :
    (if sign ≠ 0#32 then magnitude ^^^ 0x80000000#32 else magnitude).toNat =
      n + if negative then 2 ^ 31 else 0 := by
  cases negative with
  | false =>
    have hzero : sign = 0#32 := BitVec.eq_of_toNat_eq hsign
    rw [if_neg (not_not.2 hzero), hmagnitude]
    rfl
  | true =>
    have hone : sign ≠ 0#32 := by
      rintro rfl
      exact absurd hsign (by decide)
    rw [if_pos hone, BitVec.toNat_xor, hmagnitude]
    exact xor_two_pow_of_lt hn

/-- Three fields put together. -/
theorem toNat_fields {sign exponent fraction : BitVec 32} {negative : Bool} {e f : Nat}
    (hsign : sign.toNat = if negative then 2 ^ 31 else 0) (hexponent : exponent.toNat = 2 ^ 23 * e)
    (he : e < 2 ^ 8) (hfraction : fraction.toNat = f) (hf : f < 2 ^ 23) :
    (sign ||| exponent ||| fraction).toNat = 2 ^ 23 * e + f + if negative then 2 ^ 31 else 0 := by
  rw [BitVec.or_assoc, BitVec.toNat_or, BitVec.toNat_or, hsign, hexponent, hfraction,
    ← Nat.two_pow_add_eq_or_of_lt hf, sign_or]
  omega

section

variable {word : BitVec 16} {negative : Bool} {exponent fraction : Nat}
  (h : Fields .binary16 word.toNat negative exponent fraction)

include h

theorem toNat_widenedFraction :
    ((word &&& 0x03ff#16).setWidth 32 <<< 13 : BitVec 32).toNat = fraction * 2 ^ 13 := by
  have hlt : fraction < 2 ^ 10 := h.fraction_lt
  rw [BitVec.toNat_shiftLeft, toNat_halfFraction h, Nat.shiftLeft_eq]
  omega

theorem toNat_widenWord_special (hexponent : exponent = 31) :
    (widenWord word).toNat = 2 ^ 23 * 255 + fraction * 2 ^ 13 + if negative then 2 ^ 31 else 0 := by
  have hlt : fraction < 2 ^ 10 := h.fraction_lt
  have hfield := (halfExponent_eq_iff h (by decide)).2 hexponent
  simp only [widenWord, hfield]
  rw [if_neg (by decide), if_pos trivial]
  exact toNat_fields (toNat_halfSign h) rfl (by decide) (toNat_widenedFraction h) (by omega)

theorem toNat_widenWord_normal (hpos : exponent ≠ 0) (hlt : exponent < 31) :
    (widenWord word).toNat =
      2 ^ 23 * (exponent + 112) + fraction * 2 ^ 13 + if negative then 2 ^ 31 else 0 := by
  have hfraction : fraction < 2 ^ 10 := h.fraction_lt
  have hzero := mt (halfExponent_eq_iff h (by decide)).1 hpos
  have htop := mt (halfExponent_eq_iff h (by decide)).1 hlt.ne
  simp only [widenWord]
  rw [if_neg hzero, if_neg htop]
  refine toNat_fields (toNat_halfSign h) ?_ (by omega) (toNat_widenedFraction h) (by omega)
  rw [BitVec.toNat_shiftLeft, BitVec.toNat_sub, BitVec.toNat_add, toNat_halfExponent h,
    Nat.shiftLeft_eq]
  simp
  omega

theorem toNat_widenWord_zero (hexponent : exponent = 0) (hfraction : fraction = 0) :
    (widenWord word).toNat = if negative then 2 ^ 31 else 0 := by
  have hfield := (halfExponent_eq_iff h (by decide)).2 hexponent
  have hzero := (halfFraction_eq_zero h).2 hfraction
  simp only [widenWord, hfield, hzero, if_true]
  exact toNat_halfSign h

end

end Floating

namespace FloatBits

theorem exists_finiteParts_ofInt {format : FloatFormat} {n : Nat}
    (h : Represents format (n : Int)) :
    ∃ (m : Nat) (e : Int), (ofInt format n).finiteParts = (m, e) ∧ (m * 2 ^ e : ℚ) = n := by
  obtain ⟨m, e, hdecode, -, -, -, hq⟩ := exists_canonical_of_number (quantity_ofInt h)
  refine ⟨m, e, by rw [finiteParts, hdecode], ?_⟩
  have habs := congrArg abs hq
  rw [abs_signed, abs_mantissa, Int.cast_natCast, Nat.abs_cast] at habs
  exact habs.symm

/-- A small number divided by the power of two that it is a multiple of. -/
theorem divFinite_sixteenMillion {n : Nat} (h : n < 2 ^ 10) :
    divFinite .binary32 (ofInt .binary32 n).finiteParts (ofInt .binary32 16777216).finiteParts =
      ofMagnitude .binary32 false (roundMagnitude .binary32 n (-24)) := by
  have hrepresents : Represents .binary32 (n : Int) :=
    FloatFormat.represents_int (by decide) (by decide) (by simp [FloatFormat.fractionBits]; omega)
  obtain ⟨m, e, hparts, hvalue⟩ := exists_finiteParts_ofInt hrepresents
  have hdivisor : (ofInt .binary32 16777216).finiteParts = (2 ^ 23, 1) := by decide
  have hdividend : m * Nat.pow 2 quotientBits = m * 2 ^ 105 * 2 ^ 23 := by
    rw [Nat.mul_assoc, ← Nat.pow_add]
    rfl
  have hexact : ((2 * (m * 2 ^ 105) + 0 : Nat) * 2 ^ (e - 1 - quotientBits - 1) : ℚ) =
      n * 2 ^ (-24 : Int) := by
    have hpow : (2 : ℚ) ^ (e - 1 - quotientBits - 1) = 2 ^ e * 2 ^ (-130 : Int) := by
      rw [← zpow_add₀ two_ne_zero]
      congr 1
      have : quotientBits = 128 := rfl
      omega
    rw [hpow, ← hvalue]
    push_cast
    ring_nf
  rw [hparts, hdivisor]
  simp only [divFinite, hdividend, Nat.mul_mod_left, if_true]
  rw [Nat.mul_div_cancel _ (by decide), round, roundMagnitude_congr .binary32 hexact]

theorem toNat_widenWord_subnormal
    {word : BitVec 16} {negative : Bool} {fraction : Nat}
    (h : Floating.Fields .binary16 word.toNat negative 0 fraction) (hfraction : fraction ≠ 0) :
    (Floating.widenWord word).toNat =
      roundMagnitude .binary32 fraction (-24) + if negative then 2 ^ 31 else 0 := by
  have hfield := (Floating.halfExponent_eq_iff h (by decide)).2 rfl
  have hne := mt (Floating.halfFraction_eq_zero h).1 hfraction
  have hlt : roundMagnitude .binary32 fraction (-24) < 2 ^ 31 := roundMagnitude_lt _ _ _
  have hquotient := congrArg BitVec.toNat (divFinite_sixteenMillion (h.fraction_lt))
  rw [toNat_ofMagnitude hlt, if_neg Bool.false_ne_true, Nat.add_zero] at hquotient
  simp only [Floating.widenWord, hfield, if_true, if_neg hne, Floating.toNat_halfFraction h]
  exact Floating.toNat_negateIf (Floating.toNat_halfSign h) hquotient hlt

section

variable {x : FloatBits .binary16}

theorem toNat_widen_special (h : x.exponentField = 31) :
    (x.widen .binary32).toNat =
      2 ^ 23 * 255 + x.fraction * 2 ^ 13 + if x.isNegative then 2 ^ 31 else 0 := by
  have haligned : x.alignedFraction .binary32 = x.fraction * 2 ^ 13 := by
    show x.fraction * 2 ^ 23 / 2 ^ 10 = x.fraction * 2 ^ 13
    omega
  have hwiden : x.widen .binary32 = ofMagnitude .binary32 x.isNegative
      (FloatFormat.binary32.infinity + x.alignedFraction .binary32) := by
    have htop : FloatFormat.binary16.maxField = 31 := rfl
    by_cases hzero : x.fraction = 0
    · have hdecode : x.decode = .infinite x.isNegative := by
        rw [decode, htop, if_pos h, if_pos hzero]
      have hnan : x.quantity ≠ .nan := by
        rw [quantity, hdecode]
        exact Quantity.noConfusion
      rw [widen_of_quantity_ne_nan hnan, convert, hdecode, haligned, hzero]
      rfl
    · have hnan : x.quantity = .nan := by
        rw [quantity, decode, htop, if_pos h, if_neg hzero]
        rfl
      rw [widen_of_isNaN (quantity_eq_nan.1 hnan)]
  rw [hwiden, toNat_ofMagnitude (FloatFormat.infinity_add_lt (x.alignedFraction_lt _)), haligned]
  rfl

theorem toNat_widen_finite {m : Nat} {e : Int} (h : x.decode = .finite x.isNegative m e) :
    (x.widen .binary32).toNat =
      roundMagnitude .binary32 m e + if x.isNegative then 2 ^ 31 else 0 := by
  have hnan : x.quantity ≠ .nan := by
    rw [quantity, h]
    exact Quantity.noConfusion
  rw [widen_of_quantity_ne_nan hnan, toNat_convert_of_finite h]
  rfl

theorem roundMagnitude_widened {exponent fraction : Nat} (hlt : exponent < 31)
    (hfraction : fraction < 2 ^ 10) :
    roundMagnitude .binary32 (2 ^ 10 + fraction) (exponent - 25) =
      2 ^ 23 * (exponent + 112) + fraction * 2 ^ 13 := by
  have hmin : FloatFormat.binary32.minExponent = -149 := by decide
  have hbits : FloatFormat.binary32.fractionBits = 23 := rfl
  have hcanonical :
      FloatFormat.binary32.Canonical ((2 ^ 10 + fraction) * 2 ^ 13) (exponent - 38) := by
    refine ⟨?_, ?_, ?_⟩
    · rw [hbits]
      omega
    · omega
    · intro hsubnormal
      rw [hbits] at hsubnormal
      omega
  have hmagnitude : FloatFormat.binary32.magnitude ((2 ^ 10 + fraction) * 2 ^ 13) (exponent - 38) =
      2 ^ 23 * (exponent + 112) + fraction * 2 ^ 13 := by
    have hfield : ((exponent : Int) - 38 - -149).toNat = exponent + 111 := by omega
    rw [FloatFormat.magnitude, hmin, hbits, hfield, Nat.pow_eq]
    omega
  have hfinite : 2 ^ 23 * (exponent + 112) + fraction * 2 ^ 13 < FloatFormat.binary32.infinity := by
    have hinfinity : FloatFormat.binary32.infinity = 2 ^ 23 * 255 := by decide
    omega
  have hsame : ((2 ^ 10 + fraction : Nat) * 2 ^ (exponent - 25 : Int) : ℚ) =
      ((2 ^ 10 + fraction) * 2 ^ 13 : Nat) * 2 ^ (exponent - 38 : Int) := by
    have hpow : (2 : ℚ) ^ (exponent - 25 : Int) = 2 ^ 13 * 2 ^ (exponent - 38 : Int) := by
      rw [← zpow_natCast, ← zpow_add₀ two_ne_zero]
      congr 1
      omega
    rw [hpow]
    push_cast
    ring
  rw [← hmagnitude] at hfinite ⊢
  exact hcanonical.roundMagnitude hfinite hsame

/-- The words are widened as the numbers they stand for. -/
theorem singleOfHalf_eq_widen (x : FloatBits .binary16) : x.singleOfHalf = x.widen .binary32 := by
  have hfields := x.fields
  have hlt : x.exponentField < 32 := hfields.exponent_eq ▸ Nat.mod_lt _ (Nat.pow_pos two_pos)
  have hmin : FloatFormat.binary16.minExponent = -24 := by decide
  have htop : FloatFormat.binary16.maxField = 31 := rfl
  apply BitVec.eq_of_toNat_eq
  show (Floating.widenWord x).toNat = (x.widen .binary32).toNat
  by_cases hspecial : x.exponentField = 31
  · exact (Floating.toNat_widenWord_special hfields hspecial).trans
      (toNat_widen_special hspecial).symm
  by_cases hzero : x.exponentField = 0
  · have hdecode : x.decode = .finite x.isNegative x.fraction (-24) := by
      rw [decode, htop, if_neg hspecial, if_pos hzero, hmin]
    refine Eq.trans ?_ (toNat_widen_finite hdecode).symm
    by_cases hfraction : x.fraction = 0
    · rw [hfraction]
      exact (Floating.toNat_widenWord_zero hfields hzero hfraction).trans (Nat.zero_add _).symm
    · rw [hzero] at hfields
      exact toNat_widenWord_subnormal hfields hfraction
  · have hexponent : FloatFormat.binary16.minExponent + (x.exponentField - 1 : Nat) =
        (x.exponentField : Int) - 25 := by
      omega
    have hdecode : x.decode =
        .finite x.isNegative (2 ^ 10 + x.fraction) ((x.exponentField : Int) - 25) := by
      rw [decode, htop, if_neg hspecial, if_neg hzero, hexponent]
      rfl
    refine Eq.trans ?_ (toNat_widen_finite hdecode).symm
    rw [roundMagnitude_widened (by omega) hfields.fraction_lt]
    exact Floating.toNat_widenWord_normal hfields hzero (by omega)

end

theorem narrower_binary32 : FloatFormat.binary16.Narrower .binary32 :=
  ⟨by decide, by decide, by decide⟩

/-- The way of a sixteen bit pattern to sixty-four bits. -/
theorem convert_singleOfHalf (x : FloatBits .binary16) :
    x.singleOfHalf.convert .binary64 = x.convert .binary64 := by
  rw [singleOfHalf_eq_widen, convert_widen narrower_binary32]

/-- The way of a thirty-two bit pattern to sixteen bits rounds once. -/
theorem halfOfSingle_eq_convert (x : FloatBits .binary32) :
    x.halfOfSingle = x.convert .binary16 := by
  rw [halfOfSingle, halfOfDouble_eq_convert,
    convert_convert_of_narrower (FloatFormat.narrower_binary64 (by decide))]

end FloatBits

end TypedStack
