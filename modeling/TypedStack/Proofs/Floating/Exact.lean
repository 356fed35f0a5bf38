import Mathlib.Algebra.Order.Field.Power
import Mathlib.Algebra.Order.Field.Rat
import Mathlib.Data.Nat.Log
import Mathlib.Tactic.Positivity
import TypedStack.Floating.Rounding

/-!
# Exact rounding

A pattern stands for a rational number, an infinity or no number, its `quantity`. A finite
pattern holds its number in canonical form, and the magnitude of a number in canonical form
is what rounding gives for every other way to write it. So rounding, and with it conversion
between formats and of integers, changes nothing about a number that the target format has,
and every number of a format is one of the sixty-four bit format.
-/

namespace TypedStack

/-- What a number is, apart from how it is written: a rational number, or one of the
things that floating-point formats have besides. There is one zero. -/
inductive Quantity where
  | number (q : ℚ)
  | infinity (negative : Bool)
  | nan
  deriving DecidableEq

/-- The number with a sign. -/
def signed (negative : Bool) (q : ℚ) : ℚ :=
  if negative then -q else q

def Datum.quantity : Datum → Quantity
  | nan => .nan
  | infinite negative => .infinity negative
  | finite negative mantissa exponent => .number (signed negative (mantissa * 2 ^ exponent))

@[simp] theorem abs_signed (negative : Bool) (q : ℚ) : |signed negative q| = |q| := by
  cases negative <;> simp [signed]

theorem abs_mantissa (mantissa : Nat) (exponent : Int) :
    |(mantissa * 2 ^ exponent : ℚ)| = mantissa * 2 ^ exponent :=
  abs_of_nonneg (by positivity)

/-- Of two ways to write a number, the one with the lesser exponent has the greater mantissa. -/
theorem mantissa_eq_mul {m m' : Nat} {e e' : Int} (h : (m * 2 ^ e : ℚ) = m' * 2 ^ e')
    (he : e ≤ e') : m = m' * 2 ^ (e' - e).toNat := by
  have hpow : (2 : ℚ) ^ e' = 2 ^ (e' - e).toNat * 2 ^ e := by
    rw [← zpow_natCast, ← zpow_add₀ two_ne_zero]
    congr 1
    omega
  have hpos : (2 : ℚ) ^ e ≠ 0 := by positivity
  rw [hpow, ← mul_assoc] at h
  exact_mod_cast mul_right_cancel₀ hpos h

theorem log2_mul_two_pow {m : Nat} (hm : m ≠ 0) (k : Nat) : (m * 2 ^ k).log2 = m.log2 + k := by
  rw [Nat.log2_eq_log_two, Nat.log2_eq_log_two]
  induction k with
  | zero => simp
  | succ k ih =>
    rw [Nat.pow_succ, ← Nat.mul_assoc, Nat.log_mul_base one_lt_two (by positivity), ih,
      Nat.add_assoc]

theorem mantissa_ne_zero {m m' : Nat} {e e' : Int} (h : (m * 2 ^ e : ℚ) = m' * 2 ^ e')
    (hm : m ≠ 0) : m' ≠ 0 := by
  have hpos : (0 : ℚ) < m * 2 ^ e := by positivity
  rintro rfl
  rw [h, Nat.cast_zero, zero_mul] at hpos
  exact lt_irrefl _ hpos

/-- The place of the leading bit does not depend on how a number is written. -/
theorem leading_eq {m m' : Nat} {e e' : Int} (h : (m * 2 ^ e : ℚ) = m' * 2 ^ e') (hm : m ≠ 0) :
    e + m.log2 = e' + m'.log2 := by
  have hm' := mantissa_ne_zero h hm
  rcases Int.le_total e e' with he | he
  · rw [mantissa_eq_mul h he, log2_mul_two_pow hm']
    omega
  · rw [mantissa_eq_mul h.symm he, log2_mul_two_pow hm]
    omega

theorem roundDiv_mul (m : Nat) {d : Nat} (hd : 0 < d) : roundDiv (m * d) d = m := by
  simp [roundDiv, Nat.mul_div_cancel _ hd, hd.ne]

theorem roundDiv_mul_mul (m d : Nat) {k : Nat} (hk : 0 < k) :
    roundDiv (m * k) (d * k) = roundDiv m d := by
  have htie : 2 * (m % d * k) = d * k ↔ 2 * (m % d) = d := by
    rw [← Nat.mul_assoc, Nat.mul_left_inj hk.ne']
  have hup : d * k < 2 * (m % d * k) ↔ d < 2 * (m % d) := by
    rw [← Nat.mul_assoc, Nat.mul_lt_mul_right hk]
  simp only [roundDiv, Nat.mul_div_mul_right _ _ hk, Nat.mul_mod_mul_right, htie, hup]

/-- Rounding looks at the number only, not at the way it is written. -/
theorem FloatBits.roundMagnitude_congr (format : FloatFormat) {m m' : Nat} {e e' : Int}
    (h : (m * 2 ^ e : ℚ) = m' * 2 ^ e') :
    FloatBits.roundMagnitude format m e = FloatBits.roundMagnitude format m' e' := by
  wlog he : e ≤ e' generalizing m m' e e'
  · exact (this h.symm (Int.le_of_not_le he)).symm
  have hm := mantissa_eq_mul h he
  by_cases hzero : m' = 0
  · rw [hzero, Nat.zero_mul] at hm
    rw [FloatBits.roundMagnitude, FloatBits.roundMagnitude, if_pos hm, if_pos hzero]
  have hne : m ≠ 0 := mantissa_ne_zero h.symm hzero
  simp only [FloatBits.roundMagnitude, hne, hzero, if_false, leading_eq h hne]
  generalize max (e' + m'.log2 - format.fractionBits) format.minExponent = quantum
  have hsignificand : (if quantum ≤ e then m * Nat.pow 2 (e - quantum).toNat
      else roundDiv m (Nat.pow 2 (quantum - e).toNat)) =
        if quantum ≤ e' then m' * Nat.pow 2 (e' - quantum).toNat
        else roundDiv m' (Nat.pow 2 (quantum - e').toNat) := by
    simp only [Nat.pow_eq, hm]
    by_cases hlow : quantum ≤ e
    · have hexponent : (e' - quantum).toNat = (e' - e).toNat + (e - quantum).toNat := by omega
      rw [if_pos hlow, if_pos (hlow.trans he), hexponent, Nat.pow_add, Nat.mul_assoc]
    rw [if_neg hlow]
    by_cases hhigh : quantum ≤ e'
    · have hexponent : (e' - e).toNat = (e' - quantum).toNat + (quantum - e).toNat := by omega
      rw [if_pos hhigh, hexponent, Nat.pow_add, ← Nat.mul_assoc,
        roundDiv_mul _ (Nat.pow_pos two_pos)]
    · have hexponent : (quantum - e).toNat = (quantum - e').toNat + (e' - e).toNat := by omega
      rw [if_neg hhigh, hexponent, Nat.pow_add, roundDiv_mul_mul _ _ (Nat.pow_pos two_pos)]
  rw [hsignificand]

namespace FloatFormat

variable (format : FloatFormat)

theorem width_eq : format.width - 1 = format.exponentBits + format.fractionBits := by
  cases format <;> rfl

theorem width_pos : 0 < format.width := by
  cases format <;> decide

/-- Mantissa and exponent in the form that a format has for them: the leading bit in its
place, or the least exponent. -/
structure Canonical (mantissa : Nat) (exponent : Int) : Prop where
  mantissa_lt : mantissa < 2 ^ (format.fractionBits + 1)
  le_exponent : format.minExponent ≤ exponent
  subnormal : mantissa < 2 ^ format.fractionBits → exponent = format.minExponent

/-- The magnitude of a number in canonical form. -/
def magnitude (mantissa : Nat) (exponent : Int) : Nat :=
  (exponent - format.minExponent).toNat * Nat.pow 2 format.fractionBits + mantissa

variable {format} {m : Nat} {e : Int}

/-- The target format has room for every number of the source format: as many fraction bits,
lesser exponents even when the leading bit of a small number is in its place, and greater
exponents. -/
structure Narrower (source target : FloatFormat) : Prop where
  fractionBits_le : source.fractionBits ≤ target.fractionBits
  minExponent_le : target.minExponent + target.fractionBits ≤ source.minExponent
  exponent_lt : source.minExponent + source.maxField < target.minExponent + target.maxField

theorem narrower_binary64 (h : format ≠ .binary64) : format.Narrower .binary64 := by
  cases format with
  | binary16 => exact ⟨by decide, by decide, by decide⟩
  | binary32 => exact ⟨by decide, by decide, by decide⟩
  | binary64 => exact absurd rfl h

theorem Canonical.quantum (h : format.Canonical m e) (hm : m ≠ 0) :
    max (e + m.log2 - format.fractionBits) format.minExponent = e := by
  have hle := h.le_exponent
  by_cases hsub : m < 2 ^ format.fractionBits
  · have hlog := (Nat.log2_lt hm).2 hsub
    have := h.subnormal hsub
    omega
  · have hlog : m.log2 = format.fractionBits := by
      have hlt := (Nat.log2_lt hm).2 h.mantissa_lt
      have hge := (Nat.le_log2 hm).2 (Nat.le_of_not_lt hsub)
      omega
    omega

/-- A number that a format has is rounded to itself. -/
theorem Canonical.roundMagnitude {m' : Nat} {e' : Int} (h : format.Canonical m e)
    (hfinite : format.magnitude m e < format.infinity) (hsame : (m' * 2 ^ e' : ℚ) = m * 2 ^ e) :
    FloatBits.roundMagnitude format m' e' = format.magnitude m e := by
  rw [FloatBits.roundMagnitude_congr format hsame]
  by_cases hm : m = 0
  · have he := h.subnormal (by rw [hm]; positivity)
    simp [FloatBits.roundMagnitude, magnitude, hm, he]
  · simp only [FloatBits.roundMagnitude, hm, if_false, h.quantum hm, Int.le_refl, if_true,
      Int.sub_self, Int.toNat_zero, Nat.pow_eq, Nat.pow_zero, Nat.mul_one]
    exact Nat.min_eq_left hfinite.le

theorem canonical_zero (format : FloatFormat) : format.Canonical 0 format.minExponent :=
  ⟨Nat.pow_pos two_pos, Int.le_refl _, fun _ => rfl⟩

theorem magnitude_zero (format : FloatFormat) : format.magnitude 0 format.minExponent = 0 := by
  simp [magnitude]

theorem infinity_pos (format : FloatFormat) : 0 < format.infinity := by
  cases format <;> decide

theorem maxField_add_one (format : FloatFormat) :
    format.maxField + 1 = 2 ^ format.exponentBits :=
  Nat.sub_add_cancel (Nat.pow_pos two_pos)

/-- Above the infinity there is room for what is not a number. -/
theorem infinity_add (format : FloatFormat) :
    format.infinity + 2 ^ format.fractionBits = 2 ^ (format.width - 1) := by
  rw [width_eq, Nat.pow_add, ← maxField_add_one, Nat.add_mul, Nat.one_mul]
  rfl

theorem infinity_add_lt {n : Nat} (h : n < 2 ^ format.fractionBits) :
    format.infinity + n < 2 ^ (format.width - 1) := by
  rw [← infinity_add]
  exact Nat.add_lt_add_left h _

theorem infinity_lt (format : FloatFormat) : format.infinity < 2 ^ (format.width - 1) :=
  infinity_add_lt (Nat.pow_pos two_pos)

/-- Every magnitude is that of a mantissa and an exponent in canonical form. -/
theorem exists_canonical (format : FloatFormat) (n : Nat) :
    ∃ m e, format.Canonical m e ∧ format.magnitude m e = n := by
  have hfraction := Nat.mod_lt n (Nat.pow_pos two_pos : 0 < 2 ^ format.fractionBits)
  have hdiv := Nat.div_add_mod' n (2 ^ format.fractionBits)
  cases hfield : n / 2 ^ format.fractionBits with
  | zero =>
    refine ⟨n % 2 ^ format.fractionBits, format.minExponent, ⟨?_, Int.le_refl _, fun _ => rfl⟩, ?_⟩
    · rw [Nat.pow_succ]
      omega
    · rw [hfield] at hdiv
      simpa [magnitude] using hdiv
  | succ field =>
    refine ⟨2 ^ format.fractionBits + n % 2 ^ format.fractionBits, format.minExponent + field,
      ⟨?_, by omega, by omega⟩, ?_⟩
    · rw [Nat.pow_succ]
      omega
    · rw [hfield, Nat.succ_mul] at hdiv
      have hfield : (format.minExponent + field - format.minExponent).toNat = field := by omega
      rw [magnitude, hfield, Nat.pow_eq]
      omega

end FloatFormat

namespace FloatBits

variable {format : FloatFormat} {negative : Bool} {magnitude : Nat}

theorem magnitude_lt (bits : FloatBits format) : bits.magnitude < 2 ^ (format.width - 1) :=
  Nat.mod_lt _ (Nat.pow_pos two_pos)

/-- A pattern is its sign and its magnitude. -/
theorem toNat_eq (bits : FloatBits format) :
    bits.toNat = bits.magnitude + if bits.isNegative then 2 ^ (format.width - 1) else 0 := by
  have hlt : bits.toNat / 2 ^ (format.width - 1) < 2 := by
    rw [Nat.div_lt_iff_lt_mul (Nat.pow_pos two_pos), ← Nat.pow_succ',
      Nat.succ_eq_add_one, Nat.sub_add_cancel format.width_pos]
    exact bits.isLt
  have hdiv := Nat.mod_add_div bits.toNat (2 ^ (format.width - 1))
  rcases Nat.lt_succ_iff_lt_or_eq.1 hlt with hq | hq
  · have hsign : bits.isNegative = false := by simp [isNegative, Nat.lt_one_iff.1 hq]
    simpa [hsign, FloatBits.magnitude, Nat.lt_one_iff.1 hq] using hdiv.symm
  · have hsign : bits.isNegative = true := by simp [isNegative, hq]
    simpa [hsign, FloatBits.magnitude, hq] using hdiv.symm

theorem ofMagnitude_self (bits : FloatBits format) :
    ofMagnitude format bits.isNegative bits.magnitude = bits := by
  apply BitVec.eq_of_toNat_eq
  rw [ofMagnitude, BitVec.toNat_ofNat, Nat.pow_eq, ← toNat_eq]
  exact Nat.mod_eq_of_lt bits.isLt

section

variable (h : magnitude < 2 ^ (format.width - 1))
include h

theorem toNat_ofMagnitude :
    (ofMagnitude format negative magnitude).toNat =
      magnitude + if negative then 2 ^ (format.width - 1) else 0 := by
  have hpow : 2 ^ format.width = 2 ^ (format.width - 1) + 2 ^ (format.width - 1) := by
    rw [← Nat.two_mul, ← Nat.pow_succ', Nat.succ_eq_add_one, Nat.sub_add_cancel format.width_pos]
  rw [ofMagnitude, BitVec.toNat_ofNat, Nat.pow_eq, hpow]
  apply Nat.mod_eq_of_lt
  split <;> omega

@[simp] theorem magnitude_ofMagnitude :
    (ofMagnitude format negative magnitude).magnitude = magnitude := by
  rw [FloatBits.magnitude, toNat_ofMagnitude h]
  cases negative <;> simp [Nat.mod_eq_of_lt h]

@[simp] theorem isNegative_ofMagnitude :
    (ofMagnitude format negative magnitude).isNegative = negative := by
  have hpos : 0 < 2 ^ (format.width - 1) := Nat.pow_pos two_pos
  rw [isNegative, toNat_ofMagnitude h]
  cases negative <;> simp [Nat.div_eq_of_lt h, Nat.add_div_right _ hpos]

end

theorem decode_of_canonical
    {bits : FloatBits format} {m : Nat} {e : Int} (h : format.Canonical m e)
    (hmagnitude : bits.magnitude = format.magnitude m e)
    (hfinite : bits.magnitude < format.infinity) :
    bits.decode = .finite bits.isNegative m e := by
  have hpos : 0 < 2 ^ format.fractionBits := Nat.pow_pos two_pos
  have hfield : bits.exponentField ≠ format.maxField :=
    Nat.ne_of_lt ((Nat.div_lt_iff_lt_mul hpos).2 hfinite)
  have hmantissa := h.mantissa_lt
  have hexponent := h.le_exponent
  rw [Nat.pow_succ] at hmantissa
  by_cases hsub : m < 2 ^ format.fractionBits
  · have hmin := h.subnormal hsub
    have hm : bits.magnitude = m := by
      rw [hmagnitude, hmin, FloatFormat.magnitude, Int.sub_self, Int.toNat_zero, Nat.zero_mul,
        Nat.zero_add]
    have hzero : bits.exponentField = 0 := by
      rw [exponentField, hm]
      exact Nat.div_eq_of_lt hsub
    have hfraction : bits.fraction = m := by
      rw [fraction, hm]
      exact Nat.mod_eq_of_lt hsub
    rw [decode, if_neg hfield, if_pos hzero, hfraction, hmin]
  · have hm : bits.magnitude =
        (m - 2 ^ format.fractionBits) +
          ((e - format.minExponent).toNat + 1) * 2 ^ format.fractionBits := by
      rw [hmagnitude, FloatFormat.magnitude, Nat.add_mul, Nat.one_mul, Nat.pow_eq]
      omega
    have hlow : m - 2 ^ format.fractionBits < 2 ^ format.fractionBits := by omega
    have hfieldEq : bits.exponentField = (e - format.minExponent).toNat + 1 := by
      rw [exponentField, hm, Nat.pow_eq, Nat.add_mul_div_right _ _ hpos, Nat.div_eq_of_lt hlow,
        Nat.zero_add]
    have hfraction : bits.fraction = m - 2 ^ format.fractionBits := by
      rw [fraction, hm, Nat.pow_eq, Nat.add_mul_mod_self_right, Nat.mod_eq_of_lt hlow]
    rw [decode, if_neg hfield, if_neg (by omega), hfraction, hfieldEq, Nat.pow_eq]
    congr 1 <;> omega

theorem decode_of_eq_infinity
    {bits : FloatBits format} (h : bits.magnitude = format.infinity) :
    bits.decode = .infinite bits.isNegative := by
  have hpos : 0 < 2 ^ format.fractionBits := Nat.pow_pos two_pos
  have hfield : bits.exponentField = format.maxField := by
    rw [exponentField, h]
    exact Nat.mul_div_cancel _ hpos
  have hfraction : bits.fraction = 0 := by
    rw [fraction, h]
    exact Nat.mul_mod_left _ _
  rw [decode, if_pos hfield, if_pos hfraction]

theorem decode_of_infinity_lt
    {bits : FloatBits format} (h : format.infinity < bits.magnitude) : bits.decode = .nan := by
  have hlt := bits.magnitude_lt
  rw [← FloatFormat.infinity_add] at hlt
  have hm : bits.magnitude =
      (bits.magnitude - format.infinity) + format.maxField * 2 ^ format.fractionBits := by
    exact (Nat.sub_add_cancel h.le).symm
  have hlow : bits.magnitude - format.infinity < 2 ^ format.fractionBits := by omega
  have hfield : bits.exponentField = format.maxField := by
    rw [exponentField, hm, Nat.pow_eq, Nat.add_mul_div_right _ _ (Nat.pow_pos two_pos),
      Nat.div_eq_of_lt hlow, Nat.zero_add]
  have hfraction : bits.fraction ≠ 0 := by
    rw [fraction, hm, Nat.pow_eq, Nat.add_mul_mod_self_right, Nat.mod_eq_of_lt hlow]
    omega
  rw [decode, if_pos hfield, if_neg hfraction]

/-- What a pattern can be: the pattern of a number in canonical form, an infinity, or
no number. -/
theorem decode_cases (bits : FloatBits format) :
    (∃ m e, bits.decode = .finite bits.isNegative m e ∧ format.Canonical m e ∧
      bits.magnitude = format.magnitude m e ∧ bits.magnitude < format.infinity) ∨
    (bits.decode = .infinite bits.isNegative ∧ bits.magnitude = format.infinity) ∨
    (bits.decode = .nan ∧ format.infinity < bits.magnitude) := by
  rcases Nat.lt_trichotomy bits.magnitude format.infinity with hlt | heq | hgt
  · obtain ⟨m, e, hcanonical, hmagnitude⟩ := format.exists_canonical bits.magnitude
    exact .inl ⟨m, e, decode_of_canonical hcanonical hmagnitude.symm hlt, hcanonical,
      hmagnitude.symm, hlt⟩
  · exact .inr (.inl ⟨decode_of_eq_infinity heq, heq⟩)
  · exact .inr (.inr ⟨decode_of_infinity_lt hgt, hgt⟩)

/-! ## Quantities -/

def quantity (bits : FloatBits format) : Quantity :=
  bits.decode.quantity

/-- A pattern that stands for a number has it in canonical form. -/
theorem exists_canonical_of_number
    {bits : FloatBits format} {q : ℚ} (h : bits.quantity = .number q) :
    ∃ m e, bits.decode = .finite bits.isNegative m e ∧ format.Canonical m e ∧
      bits.magnitude = format.magnitude m e ∧ bits.magnitude < format.infinity ∧
      q = signed bits.isNegative (m * 2 ^ e) := by
  unfold quantity at h
  rcases bits.decode_cases with
    ⟨m, e, hdecode, hcanonical, hmagnitude, hfinite⟩ | ⟨hdecode, -⟩ | ⟨hdecode, -⟩
  · rw [hdecode] at h
    exact ⟨m, e, hdecode, hcanonical, hmagnitude, hfinite, (Quantity.number.inj h).symm⟩
  · rw [hdecode] at h
    cases h
  · rw [hdecode] at h
    cases h

theorem quantity_eq_nan {bits : FloatBits format} :
    bits.quantity = .nan ↔ bits.isNaN = true := by
  rw [isNaN, decide_eq_true_iff, quantity]
  rcases bits.decode_cases with
    ⟨m, e, hdecode, -, -, hfinite⟩ | ⟨hdecode, hinfinite⟩ | ⟨hdecode, hnan⟩
  · simp [hdecode, Datum.quantity, hfinite.le]
  · simp [hdecode, Datum.quantity, hinfinite]
  · simp [hdecode, Datum.quantity, hnan]

/-- A number that a pattern stands for. -/
def Represents (format : FloatFormat) (q : ℚ) : Prop :=
  ∃ bits : FloatBits format, bits.quantity = .number q

theorem quantity_ofMagnitude
    {m : Nat} {e : Int} (h : format.Canonical m e)
    (hfinite : format.magnitude m e < format.infinity) :
    (ofMagnitude format negative (format.magnitude m e)).quantity =
      .number (signed negative (m * 2 ^ e)) := by
  have hlt : format.magnitude m e < 2 ^ (format.width - 1) := by
    rw [← FloatFormat.infinity_add]
    exact Nat.lt_add_right _ hfinite
  have hmagnitude := @magnitude_ofMagnitude format negative _ hlt
  rw [quantity, decode_of_canonical h hmagnitude (hmagnitude.trans_lt hfinite),
    isNegative_ofMagnitude hlt, Datum.quantity]

/-- Rounding a number that the format has gives a pattern for it. -/
theorem quantity_round
    {m : Nat} {e : Int} (h : Represents format (signed negative (m * 2 ^ e))) :
    (round format negative m e).quantity = .number (signed negative (m * 2 ^ e)) := by
  obtain ⟨bits, hbits⟩ := h
  obtain ⟨m', e', -, hcanonical, hmagnitude, hfinite, hq⟩ := exists_canonical_of_number hbits
  have hsame : (m * 2 ^ e : ℚ) = m' * 2 ^ e' := by
    have habs := congrArg abs hq
    rwa [abs_signed, abs_signed, abs_mantissa, abs_mantissa] at habs
  rw [hmagnitude] at hfinite
  rw [round, hcanonical.roundMagnitude hfinite hsame, quantity_ofMagnitude hcanonical hfinite,
    hsame]

/-- Patterns for one number differ in the sign of zero at most. -/
theorem magnitude_eq_of_number
    {a b : FloatBits format} {q : ℚ} (ha : a.quantity = .number q) (hb : b.quantity = .number q) :
    a.magnitude = b.magnitude := by
  obtain ⟨m, e, -, hcanonical, hmagnitude, hfinite, rfl⟩ := exists_canonical_of_number ha
  obtain ⟨m', e', -, hcanonical', hmagnitude', hfinite', hq⟩ := exists_canonical_of_number hb
  have hsame : (m * 2 ^ e : ℚ) = m' * 2 ^ e' := by
    have habs := congrArg abs hq
    rwa [abs_signed, abs_signed, abs_mantissa, abs_mantissa] at habs
  rw [hmagnitude] at hfinite ⊢
  rw [hmagnitude'] at hfinite' ⊢
  rw [← hcanonical.roundMagnitude hfinite rfl, hcanonical'.roundMagnitude hfinite' hsame]

theorem quantity_of_magnitude_eq_zero
    {bits : FloatBits format} (h : bits.magnitude = 0) : bits.quantity = .number 0 := by
  have hfinite : bits.magnitude < format.infinity := by
    rw [h]
    exact format.infinity_pos
  rw [quantity,
    decode_of_canonical format.canonical_zero (h.trans format.magnitude_zero.symm) hfinite,
    Datum.quantity]
  cases bits.isNegative <;> simp [signed]

theorem magnitude_eq_zero {bits : FloatBits format} (h : bits.quantity = .number 0) :
    bits.magnitude = 0 := by
  have hzero : (0 : FloatBits format).magnitude = 0 := by
    simp [FloatBits.magnitude]
  rw [magnitude_eq_of_number h (quantity_of_magnitude_eq_zero hzero), hzero]

theorem quantity_eq_infinity {bits : FloatBits format} :
    bits.quantity = .infinity negative ↔ bits = ofMagnitude format negative format.infinity := by
  have hlt := format.infinity_lt
  constructor
  · intro h
    unfold quantity at h
    rcases bits.decode_cases with ⟨m, e, hdecode, -⟩ | ⟨hdecode, hmagnitude⟩ | ⟨hdecode, -⟩
    · rw [hdecode] at h
      cases h
    · rw [hdecode] at h
      rw [← hmagnitude, ← Quantity.infinity.inj h, ofMagnitude_self]
    · rw [hdecode] at h
      cases h
  · rintro rfl
    rw [quantity, decode_of_eq_infinity (magnitude_ofMagnitude hlt), isNegative_ofMagnitude hlt,
      Datum.quantity]

theorem sign_of_number {bits : FloatBits format} {q : ℚ} (h : bits.quantity = .number q) :
    if bits.isNegative then q ≤ 0 else 0 ≤ q := by
  obtain ⟨m, e, -, -, -, -, rfl⟩ := exists_canonical_of_number h
  have hpos : (0 : ℚ) ≤ m * 2 ^ e := by positivity
  cases bits.isNegative with
  | true => simpa [signed] using hpos
  | false => simpa [signed] using hpos

/-- Patterns compare as numbers, infinities and zeros do. -/
theorem numEq_iff {a b : FloatBits format} :
    a.numEq b = true ↔ a.quantity ≠ .nan ∧ a.quantity = b.quantity := by
  simp only [numEq, Bool.and_eq_true, Bool.not_eq_true', Bool.or_eq_true, beq_iff_eq]
  rw [Ne, quantity_eq_nan, Bool.not_eq_true]
  constructor
  · rintro ⟨⟨hnan, -⟩, rfl | ⟨ha, hb⟩⟩
    · exact ⟨hnan, rfl⟩
    · exact ⟨hnan, by rw [quantity_of_magnitude_eq_zero ha, quantity_of_magnitude_eq_zero hb]⟩
  · rintro ⟨hnan, hsame⟩
    have hnan' : b.isNaN = false := by
      rwa [← Bool.not_eq_true, ← quantity_eq_nan, ← hsame, quantity_eq_nan, Bool.not_eq_true]
    refine ⟨⟨hnan, hnan'⟩, ?_⟩
    cases hq : a.quantity with
    | nan => rw [quantity_eq_nan.1 hq] at hnan; cases hnan
    | infinity negative =>
      rw [hq] at hsame
      exact .inl ((quantity_eq_infinity.1 hq).trans (quantity_eq_infinity.1 hsame.symm).symm)
    | number q =>
      rw [hq] at hsame
      have hmagnitude := magnitude_eq_of_number hq hsame.symm
      by_cases hsign : a.isNegative = b.isNegative
      · left
        rw [← ofMagnitude_self a, ← ofMagnitude_self b, hsign, hmagnitude]
      · -- of both signs there is nothing but zero
        have ha := sign_of_number hq
        have hb := sign_of_number hsame.symm
        have hzero : q = 0 := by
          cases hna : a.isNegative with
          | true =>
            have hnb : b.isNegative = false := by simpa [hna] using hsign
            simp only [hna, hnb] at ha hb
            exact le_antisymm ha hb
          | false =>
            have hnb : b.isNegative = true := by simpa [hna] using hsign
            simp only [hna, hnb] at ha hb
            exact le_antisymm hb ha
        rw [hzero] at hq hsame
        exact .inr ⟨magnitude_eq_zero hq, magnitude_eq_zero hsame.symm⟩

theorem numEq_number {a b : FloatBits format} {q : ℚ} (h : b.quantity = .number q) :
    a.numEq b = true ↔ a.quantity = .number q := by
  rw [numEq_iff, h]
  constructor
  · exact And.right
  · intro ha
    exact ⟨by rw [ha]; exact Quantity.noConfusion, ha⟩

/-! ## Conversion between formats -/

theorem alignedFraction_lt {source : FloatFormat} (target : FloatFormat) (bits : FloatBits source) :
    bits.alignedFraction target < 2 ^ target.fractionBits := by
  have hfraction : bits.fraction < 2 ^ source.fractionBits := Nat.mod_lt _ (Nat.pow_pos two_pos)
  rw [alignedFraction, Nat.pow_eq, Nat.pow_eq, Nat.div_lt_iff_lt_mul (Nat.pow_pos two_pos),
    Nat.mul_comm]
  exact Nat.mul_lt_mul_of_pos_left hfraction (Nat.pow_pos two_pos)

/-- The fraction of what is not a number, with the bit that makes it quiet. -/
def quietFraction {source : FloatFormat} (target : FloatFormat) (bits : FloatBits source) : Nat :=
  bits.alignedFraction target ||| Nat.pow 2 (target.fractionBits - 1)

theorem quietFraction_lt {source : FloatFormat} (target : FloatFormat) (bits : FloatBits source) :
    bits.quietFraction target < 2 ^ target.fractionBits := by
  apply Nat.or_lt_two_pow (bits.alignedFraction_lt target)
  cases target <;> decide

theorem le_quietFraction {source : FloatFormat} (target : FloatFormat) (bits : FloatBits source) :
    2 ^ (target.fractionBits - 1) ≤ bits.quietFraction target :=
  Nat.right_le_or

/-- What conversion makes of a pattern, by what it is. -/
theorem convert_cases {source : FloatFormat} (target : FloatFormat) (bits : FloatBits source) :
    (∃ (m : Nat) (e : Int), bits.quantity = .number (signed bits.isNegative (m * 2 ^ e)) ∧
      bits.convert target = round target bits.isNegative m e) ∨
    (bits.quantity = .infinity bits.isNegative ∧
      bits.convert target = ofMagnitude target bits.isNegative target.infinity) ∨
    (bits.quantity = .nan ∧
      bits.convert target =
        ofMagnitude target bits.isNegative (target.infinity + bits.quietFraction target)) := by
  unfold quantity convert
  rcases bits.decode_cases with ⟨m, e, hdecode, -⟩ | ⟨hdecode, -⟩ | ⟨hdecode, -⟩
  · rw [hdecode]
    exact .inl ⟨m, e, rfl, rfl⟩
  · rw [hdecode]
    exact .inr (.inl ⟨rfl, rfl⟩)
  · rw [hdecode]
    exact .inr (.inr ⟨rfl, rfl⟩)

theorem quantity_convert
    {source target : FloatFormat} {bits : FloatBits source}
    (h : ∀ q, bits.quantity = .number q → Represents target q) :
    (bits.convert target).quantity = bits.quantity := by
  rcases bits.convert_cases target with
    ⟨m, e, hbits, hconvert⟩ | ⟨hbits, hconvert⟩ | ⟨hbits, hconvert⟩
  · rw [hconvert, quantity_round (h _ hbits), hbits]
  · rw [hconvert, quantity_eq_infinity.2 rfl, hbits]
  · have hroom := FloatFormat.infinity_add_lt (bits.quietFraction_lt target)
    have hquiet := bits.le_quietFraction target
    have hpos : 0 < 2 ^ (target.fractionBits - 1) := Nat.pow_pos two_pos
    rw [hconvert, hbits, quantity_eq_nan, isNaN, decide_eq_true_iff, magnitude_ofMagnitude hroom]
    omega

theorem roundMagnitude_lt (format : FloatFormat) (m : Nat) (e : Int) :
    roundMagnitude format m e < 2 ^ (format.width - 1) := by
  unfold roundMagnitude
  split
  · exact Nat.pow_pos two_pos
  · exact Nat.lt_of_le_of_lt (Nat.min_le_right _ _) format.infinity_lt

/-- Conversion keeps the sign, of zeros and of what is not a number as well. -/
theorem isNegative_convert {source : FloatFormat} (target : FloatFormat) (bits : FloatBits source) :
    (bits.convert target).isNegative = bits.isNegative := by
  rcases bits.convert_cases target with ⟨m, e, -, hconvert⟩ | ⟨-, hconvert⟩ | ⟨-, hconvert⟩
  · rw [hconvert]
    exact isNegative_ofMagnitude (roundMagnitude_lt target m e)
  · rw [hconvert]
    exact isNegative_ofMagnitude target.infinity_lt
  · rw [hconvert]
    exact isNegative_ofMagnitude (FloatFormat.infinity_add_lt (bits.quietFraction_lt target))

/-- A pattern that is a number or an infinity is known by its quantity and its sign. -/
theorem eq_of_quantity_eq
    {a b : FloatBits format} (hnan : a.quantity ≠ .nan) (h : a.quantity = b.quantity)
    (hsign : a.isNegative = b.isNegative) : a = b := by
  cases hq : a.quantity with
  | nan => exact absurd hq hnan
  | infinity negative =>
    rw [hq] at h
    rw [quantity_eq_infinity.1 hq, quantity_eq_infinity.1 h.symm]
  | number q =>
    rw [hq] at h
    rw [← ofMagnitude_self a, ← ofMagnitude_self b, hsign, magnitude_eq_of_number hq h.symm]

/-- The way back from a format that has the number. -/
theorem convert_convert
    {source target : FloatFormat} {bits : FloatBits source} (hnan : bits.quantity ≠ .nan)
    (h : (bits.convert target).quantity = bits.quantity) :
    (bits.convert target).convert source = bits := by
  have hback : ((bits.convert target).convert source).quantity = bits.quantity := by
    rw [quantity_convert, h]
    intro q hq
    exact ⟨bits, h.symm.trans hq⟩
  refine eq_of_quantity_eq (hback ▸ hnan) hback ?_
  rw [isNegative_convert, isNegative_convert]

theorem represents_zero (format : FloatFormat) : Represents format 0 := by
  have hmagnitude : (0 : FloatBits format).magnitude = 0 := by
    simp [FloatBits.magnitude]
  exact ⟨0, quantity_of_magnitude_eq_zero hmagnitude⟩

theorem Represents.of_narrower
    {target : FloatFormat} {q : ℚ} (h : Represents format q) (hnarrower : format.Narrower target) :
    Represents target q := by
  obtain ⟨bits, hbits⟩ := h
  obtain ⟨m, e, -, hcanonical, hmagnitude, hfinite, rfl⟩ := exists_canonical_of_number hbits
  by_cases hm : m = 0
  · have hzero : signed bits.isNegative (m * 2 ^ e) = 0 := by
      cases bits.isNegative <;> simp [signed, hm]
    rw [hzero]
    exact represents_zero target
  -- the leading bit goes to its place, which takes as much from the exponent
  obtain ⟨k, hk⟩ : ∃ k, m.log2 + k = target.fractionBits := by
    have hlt := (Nat.log2_lt hm).2 hcanonical.mantissa_lt
    have hle := hnarrower.fractionBits_le
    exact ⟨target.fractionBits - m.log2, by omega⟩
  have hsame : ((m * 2 ^ k : Nat) * 2 ^ (e - k) : ℚ) = m * 2 ^ e := by
    push_cast
    rw [mul_assoc, ← zpow_natCast, ← zpow_add₀ two_ne_zero, add_sub_cancel]
  have hfield : (e - format.minExponent).toNat < format.maxField := by
    rw [hmagnitude] at hfinite
    exact Nat.lt_of_mul_lt_mul_right (Nat.lt_of_le_of_lt (Nat.le_add_right _ m) hfinite)
  have hexponent := hcanonical.le_exponent
  have hmin := hnarrower.minExponent_le
  have hmax := hnarrower.exponent_lt
  have hne : m * 2 ^ k ≠ 0 := by positivity
  have hlog : (m * 2 ^ k).log2 = target.fractionBits := (log2_mul_two_pow hm k).trans hk
  have hlow : 2 ^ target.fractionBits ≤ m * 2 ^ k := (Nat.le_log2 hne).1 hlog.ge
  have hhigh : m * 2 ^ k < 2 ^ (target.fractionBits + 1) := (Nat.log2_lt hne).1 (by omega)
  have hwide : target.Canonical (m * 2 ^ k) (e - k) :=
    ⟨hhigh, by omega, fun hsub => absurd hsub (Nat.not_lt.2 hlow)⟩
  have hwideFinite : target.magnitude (m * 2 ^ k) (e - k) < target.infinity := by
    obtain ⟨field, hfield⟩ := Int.eq_ofNat_of_zero_le (sub_nonneg.2 hwide.le_exponent)
    rw [FloatFormat.magnitude, hfield, Int.toNat_natCast]
    calc field * Nat.pow 2 target.fractionBits + m * 2 ^ k <
          (field + 2) * 2 ^ target.fractionBits := by
          rw [Nat.add_mul, Nat.mul_comm 2, ← Nat.pow_succ]
          exact Nat.add_lt_add_left hhigh _
      _ ≤ target.infinity := Nat.mul_le_mul_right _ (by omega)
  rw [← hsame]
  exact ⟨_, quantity_ofMagnitude hwide hwideFinite⟩

/-- The sixty-four bit format has every number that another format has. -/
theorem Represents.binary64 {q : ℚ} (h : Represents format q) : Represents .binary64 q := by
  by_cases hformat : format = .binary64
  · exact hformat ▸ h
  · exact h.of_narrower (FloatFormat.narrower_binary64 hformat)

/-- Widening keeps what a pattern stands for. -/
theorem quantity_convert_binary64 (bits : FloatBits format) :
    (bits.convert .binary64).quantity = bits.quantity :=
  quantity_convert fun _ hq => Represents.binary64 ⟨bits, hq⟩

theorem signed_int (n : Int) : signed (n < 0) (n.natAbs * 2 ^ (0 : Int)) = n := by
  rw [zpow_zero, mul_one]
  by_cases hn : n < 0
  · have habs : (n.natAbs : Int) = -n := Int.ofNat_natAbs_of_nonpos hn.le
    simp only [signed, hn, decide_true, if_true]
    rw [← Int.cast_natCast, habs, Int.cast_neg, neg_neg]
  · have habs : (n.natAbs : Int) = n := Int.natAbs_of_nonneg (by omega)
    simp only [signed, hn, decide_false, Bool.false_eq_true, if_false]
    rw [← Int.cast_natCast, habs]

/-- An integer that the format has is rounded to itself. -/
theorem quantity_ofInt {n : Int} (h : Represents format n) :
    (ofInt format n).quantity = .number n := by
  rw [← signed_int n] at h ⊢
  exact quantity_round h

end FloatBits

/-! ## Whole numbers -/

namespace Datum

variable {m k : Nat} {e : Int}

/-- The natural number that a mantissa and an exponent stand for. -/
theorem scaled_eq_some :
    (if 0 ≤ e then some (m * Nat.pow 2 e.toNat)
      else if m % Nat.pow 2 (-e).toNat = 0 then some (m / Nat.pow 2 (-e).toNat)
      else none) = some k ↔ (m * 2 ^ e : ℚ) = k := by
  split
  · rename_i he
    obtain ⟨i, rfl⟩ := Int.eq_ofNat_of_zero_le he
    rw [Option.some.injEq, ← @Nat.cast_inj ℚ]
    simp
  · rename_i he
    obtain ⟨i, rfl⟩ : ∃ i : Nat, e = -i := ⟨(-e).toNat, by omega⟩
    have hpos : 0 < 2 ^ i := Nat.pow_pos two_pos
    have hmul : (m * 2 ^ (-i : Int) : ℚ) = k ↔ m = k * 2 ^ i := by
      rw [zpow_neg, zpow_natCast, mul_inv_eq_iff_eq_mul₀ (by positivity)]
      norm_cast
    rw [hmul, Int.neg_neg, Int.toNat_natCast, Nat.pow_eq, Option.ite_none_right_eq_some,
      Option.some.injEq]
    constructor
    · rintro ⟨hmod, rfl⟩
      exact (Nat.div_mul_cancel (Nat.dvd_of_mod_eq_zero hmod)).symm
    · rintro rfl
      exact ⟨Nat.mul_mod_left _ _, Nat.mul_div_cancel _ hpos⟩

theorem toInt?_eq_some {datum : Datum} {n : Int} :
    datum.toInt? = some n ↔ datum.quantity = .number n := by
  cases datum with
  | nan => simp [toInt?, quantity]
  | infinite negative => simp [toInt?, quantity]
  | finite negative m e =>
    have hpos : (0 : ℚ) ≤ m * 2 ^ e := by positivity
    simp only [toInt?, quantity, Option.map_eq_some_iff, Option.bind_eq_bind,
      Option.bind_eq_some_iff, Option.pure_def, scaled_eq_some, Option.some.injEq,
      Quantity.number.injEq]
    constructor
    · rintro ⟨_, ⟨k, hk, rfl⟩, rfl⟩
      rw [hk]
      cases negative <;> simp [signed]
    · intro hq
      have habs : (m * 2 ^ e : ℚ) = n.natAbs := by
        have := congrArg abs hq
        rwa [abs_signed, abs_mantissa, ← Int.cast_abs, ← Int.natCast_natAbs,
          Int.cast_natCast] at this
      refine ⟨_, ⟨n.natAbs, habs, rfl⟩, ?_⟩
      cases negative with
      | true =>
        have hn : n ≤ 0 := by
          have : (n : ℚ) ≤ 0 := by rw [← hq]; simpa [signed] using hpos
          exact_mod_cast this
        simp only [if_true]
        omega
      | false =>
        have hn : 0 ≤ n := by
          have : (0 : ℚ) ≤ n := by rw [← hq]; simpa [signed] using hpos
          exact_mod_cast this
        simp only [Bool.false_eq_true, if_false]
        omega

variable {datum : Datum} {n low high : Int}

/-- The cut toward zero leaves a whole number as it is, so only the bounds matter. -/
theorem clamp_of_toInt? (h : datum.toInt? = some n) :
    datum.clamp low high = max low (min high n) := by
  cases datum with
  | nan => cases h
  | infinite negative => cases h
  | finite negative m e =>
    simp only [toInt?, Option.map_eq_some_iff, Option.bind_eq_bind, Option.bind_eq_some_iff,
      Option.pure_def, Option.some.injEq] at h
    obtain ⟨_, ⟨k, hk, rfl⟩, rfl⟩ := h
    have hwhole : m * Nat.pow 2 e.toNat / Nat.pow 2 (-e).toNat = k := by
      split at hk
      · rename_i he
        rw [Int.toNat_of_nonpos (Int.neg_nonpos_of_nonneg he)]
        exact (Nat.div_one _).trans (Option.some.inj hk)
      · rename_i he
        obtain ⟨-, hk⟩ := Option.ite_none_right_eq_some.1 hk
        rw [Int.toNat_of_nonpos (Int.le_of_not_le he), Nat.pow_eq, Nat.pow_zero, Nat.mul_one]
        exact Option.some.inj hk
    rw [clamp, hwhole]

/-- Bounds within the wide type make the bounds of the type superfluous. -/
theorem clamp_clamp (datum : Datum) (hlow : wideMin ≤ low) (hhigh : high ≤ wideMax)
    (hmin : low ≤ 0) (hmax : 0 ≤ high) :
    max low (min high (datum.clamp wideMin wideMax)) = datum.clamp low high := by
  cases datum with
  | nan => simp only [clamp]; omega
  | infinite negative => simp only [clamp]; split <;> omega
  | finite negative m e => simp only [clamp]; omega

theorem clamp_range (datum : Datum) (hmin : low ≤ 0) (hmax : 0 ≤ high) :
    low ≤ datum.clamp low high ∧ datum.clamp low high ≤ high := by
  cases datum with
  | nan => exact ⟨hmin, hmax⟩
  | infinite negative => simp only [clamp]; split <;> omega
  | finite negative m e => simp only [clamp]; omega

theorem integral?_eq_map (datum : Datum) :
    datum.integral? = datum.toInt?.map fun n => max wideMin (min wideMax n) := by
  cases hn : datum.toInt? with
  | none => simp [integral?, hn]
  | some n => simp [integral?, hn, clamp_of_toInt? hn]

/-- An integer that is none of the two bounds cannot come from a number outside of them. -/
theorem integral?_eq_some (hlow : wideMin < n) (hhigh : n < wideMax) :
    datum.integral? = some n ↔ datum.quantity = .number n := by
  rw [integral?_eq_map, ← toInt?_eq_some, Option.map_eq_some_iff]
  constructor
  · rintro ⟨k, hk, hbounded⟩
    obtain rfl : k = n := by omega
    exact hk
  · intro hn
    exact ⟨n, hn, by omega⟩

end Datum

end TypedStack
