import Mathlib.Tactic.Linarith
import Mathlib.Tactic.Ring
import TypedStack.Proofs.Floating.Exact

/-!
# Rounding to the nearest number

A number is rounded to a multiple of a unit, the `quantum`, that is chosen by the place of
its leading bit. The numbers of the format are either multiples of that unit as well, or
lie below the least multiple that has the leading bit in the same place. So the nearest
multiple is the nearest number of the format. It may have one bit too many, and is then
the least one with the next greater exponent. Only what lies half a unit or more above the
greatest number of the format becomes an infinity.
-/

namespace TypedStack

/-! ## Multiples of a unit -/

/-- A multiple of a unit at most half a unit away from a number, and an even one if it is
half a unit away. -/
structure RoundsTo (x unit : ℚ) (n : Nat) : Prop where
  near : 2 * |x - n * unit| ≤ unit
  even : 2 * |x - n * unit| = unit → Even n

namespace RoundsTo

variable {x unit : ℚ} {n : Nat}

theorem of_eq (hunit : 0 < unit) (h : x = n * unit) : RoundsTo x unit n := by
  have hzero : |x - n * unit| = 0 := by rw [h, sub_self, abs_zero]
  refine ⟨?_, ?_⟩
  · rw [hzero, mul_zero]
    exact hunit.le
  · rw [hzero, mul_zero]
    intro hnone
    exact absurd hnone hunit.ne

/-- No multiple is nearer, and a multiple that is as near is another one only if this one
is even. -/
theorem nearest (h : RoundsTo x unit n) (k : Int) :
    |x - n * unit| ≤ |x - k * unit| ∧
      (|x - n * unit| = |x - k * unit| → (k : ℚ) * unit = n * unit ∨ Even n) := by
  by_cases hk : k = n
  · rw [hk, Int.cast_natCast]
    exact ⟨le_refl _, fun _ => .inl rfl⟩
  have hunit : 0 ≤ unit := le_trans (by positivity) h.near
  have hapart : unit ≤ |x - n * unit| + |x - k * unit| := by
    have hone : (1 : ℚ) ≤ |(n : ℚ) - k| := by
      have hint : 1 ≤ |(n : Int) - k| := Int.one_le_abs (by omega)
      exact_mod_cast hint
    calc unit ≤ |(n : ℚ) - k| * unit := le_mul_of_one_le_left hunit hone
      _ = |(x - k * unit) - (x - n * unit)| := by
        rw [← abs_of_nonneg hunit, ← abs_mul, abs_of_nonneg hunit]
        congr 1
        ring
      _ ≤ |x - k * unit| + |x - n * unit| := abs_sub _ _
      _ = |x - n * unit| + |x - k * unit| := add_comm _ _
  have hnear := h.near
  refine ⟨by linarith, fun htie => .inr (h.even ?_)⟩
  rw [← htie] at hapart
  linarith

theorem lower (h : RoundsTo x unit n) : (n - 1 / 2) * unit ≤ x := by
  have hnear := h.near
  have habs := neg_abs_le (x - n * unit)
  linarith

theorem upper (h : RoundsTo x unit n) : x ≤ (n + 1 / 2) * unit := by
  have hnear := h.near
  have habs := le_abs_self (x - n * unit)
  linarith

theorem le_of_le (h : RoundsTo x unit n) (hunit : 0 < unit) {k : Nat} (hk : k * unit ≤ x) :
    k ≤ n := by
  have hupper := h.upper
  have hlt : (k : ℚ) < n + 1 := by
    have := le_of_mul_le_mul_right (hk.trans hupper) hunit
    linarith
  exact Nat.lt_succ_iff.1 (by exact_mod_cast hlt)

theorem le_of_lt (h : RoundsTo x unit n) (hunit : 0 < unit) {k : Nat} (hk : x < k * unit) :
    n ≤ k := by
  have hlower := h.lower
  have hlt : (n : ℚ) < k + 1 := by
    have := lt_of_mul_lt_mul_right (hlower.trans_lt hk) hunit.le
    linarith
  exact Nat.lt_succ_iff.1 (by exact_mod_cast hlt)

/-- The number in the middle below an even multiple is rounded up to it. -/
theorem lt_iff (h : RoundsTo x unit n) (hunit : 0 < unit) {k : Nat} (hk : Even k) :
    n < k ↔ x < (k - 1 / 2) * unit := by
  constructor
  · intro hlt
    have hle : (n : ℚ) + 1 ≤ k := by exact_mod_cast hlt
    have hstep : ((n : ℚ) + 1 / 2) * unit ≤ (k - 1 / 2) * unit :=
      mul_le_mul_of_nonneg_right (by linarith) hunit.le
    refine lt_of_le_of_ne (h.upper.trans hstep) ?_
    intro hmiddle
    have hupper := h.upper
    rw [hmiddle] at hupper
    have hnk : (k : ℚ) = n + 1 := by
      have := le_of_mul_le_mul_right hupper hunit
      linarith
    have hdiff : x - n * unit = unit / 2 := by
      rw [hmiddle, hnk]
      ring
    have heven := h.even (by rw [hdiff, abs_of_pos (by positivity)]; ring)
    have hsucc : k = n + 1 := by exact_mod_cast hnk
    rw [hsucc] at hk
    exact absurd hk (Nat.not_even_iff_odd.2 heven.add_one)
  · intro hlt
    have hlower := h.lower
    have := lt_of_mul_lt_mul_right (hlower.trans_lt hlt) hunit.le
    exact_mod_cast (by linarith : (n : ℚ) < k)

end RoundsTo

theorem roundDiv_near (m : Nat) {d : Nat} (hd : 0 < d) :
    2 * |(m : Int) - roundDiv m d * d| ≤ d ∧
      (2 * |(m : Int) - roundDiv m d * d| = d → Even (roundDiv m d)) := by
  have hdiv := Nat.div_add_mod' m d
  have hmod := Nat.mod_lt m hd
  have hm : (m : Int) = (m / d : Nat) * d + (m % d : Nat) := by exact_mod_cast hdiv.symm
  rw [Nat.even_iff]
  unfold roundDiv
  dsimp only
  split
  · rename_i hup
    have hdistance : (m : Int) - (m / d + 1 : Nat) * d = (m % d : Nat) - d := by
      rw [hm]
      push_cast
      ring
    rw [hdistance, abs_of_nonpos (by omega)]
    omega
  · rename_i hdown
    have hdistance : (m : Int) - (m / d : Nat) * d = (m % d : Nat) := by
      rw [hm]
      push_cast
      ring
    rw [hdistance, abs_of_nonneg (by omega)]
    omega

/-! ## Units and significands -/

/-- The multiple of `2 ^ quantum` that is nearest to `mantissa * 2 ^ exponent`. -/
def significand (mantissa : Nat) (exponent quantum : Int) : Nat :=
  if quantum ≤ exponent then mantissa * Nat.pow 2 (exponent - quantum).toNat
  else roundDiv mantissa (Nat.pow 2 (quantum - exponent).toNat)

theorem two_zpow_eq {low high : Int} (h : low ≤ high) :
    (2 : ℚ) ^ high = (2 ^ (high - low).toNat : Nat) * 2 ^ low := by
  push_cast
  rw [← zpow_natCast, ← zpow_add₀ two_ne_zero]
  congr 1
  omega

theorem roundsTo_significand (m : Nat) (e quantum : Int) :
    RoundsTo (m * 2 ^ e) (2 ^ quantum) (significand m e quantum) := by
  unfold significand
  split
  · rename_i hle
    apply RoundsTo.of_eq (by positivity)
    rw [two_zpow_eq hle, Nat.pow_eq]
    push_cast
    ring
  · rename_i hlt
    have hpos : (0 : ℚ) < 2 ^ e := by positivity
    rw [two_zpow_eq (Int.le_of_not_le hlt), Nat.pow_eq]
    generalize hd : 2 ^ (quantum - e).toNat = d
    obtain ⟨hnear, heven⟩ := roundDiv_near m (hd ▸ Nat.pow_pos two_pos : 0 < d)
    -- the distance of the numbers is that of the mantissas, in units of the lesser power
    have hdistance : 2 * |(m * 2 ^ e : ℚ) - roundDiv m d * (d * 2 ^ e)| =
        (2 * |(m : Int) - roundDiv m d * d| : Int) * 2 ^ e := by
      push_cast
      rw [mul_assoc, ← abs_of_pos hpos, ← abs_mul, abs_of_pos hpos]
      congr 2
      ring
    refine ⟨?_, ?_⟩
    · rw [hdistance]
      exact mul_le_mul_of_nonneg_right (by exact_mod_cast hnear) hpos.le
    · rw [hdistance]
      intro htie
      exact heven (by exact_mod_cast mul_right_cancel₀ hpos.ne' htie)

theorem leading_bounds {m : Nat} (hm : m ≠ 0) (e : Int) :
    (2 : ℚ) ^ (e + m.log2) ≤ m * 2 ^ e ∧ (m * 2 ^ e : ℚ) < 2 ^ (e + m.log2 + 1) := by
  have hpos : (0 : ℚ) < 2 ^ e := by positivity
  have hlow : (2 : ℚ) ^ m.log2 ≤ m := by exact_mod_cast Nat.log2_self_le hm
  have hhigh : (m : ℚ) < 2 ^ (m.log2 + 1) := by exact_mod_cast Nat.lt_log2_self
  constructor
  · rw [add_comm, zpow_add₀ two_ne_zero, zpow_natCast]
    exact mul_le_mul_of_nonneg_right hlow hpos.le
  · rw [add_assoc, add_comm, zpow_add₀ two_ne_zero, ← Nat.cast_succ, zpow_natCast]
    exact mul_lt_mul_of_pos_right hhigh hpos

namespace FloatFormat

variable (format : FloatFormat)

/-- The exponent of the unit that a number is counted in when it is rounded. -/
def quantum (mantissa : Nat) (exponent : Int) : Int :=
  max (exponent + mantissa.log2 - format.fractionBits) format.minExponent

variable {format} {m m' : Nat} {e e' : Int}

theorem lt_quantum (hm : m ≠ 0) :
    (m * 2 ^ e : ℚ) < (2 ^ (format.fractionBits + 1) : Nat) * 2 ^ format.quantum m e := by
  refine (leading_bounds hm e).2.trans_le ?_
  rw [Nat.cast_pow, Nat.cast_ofNat, ← zpow_natCast, ← zpow_add₀ two_ne_zero]
  apply zpow_le_zpow_right₀ one_le_two
  unfold quantum
  push_cast
  omega

theorem quantum_le (hm : m ≠ 0) (h : format.minExponent < format.quantum m e) :
    ((2 ^ format.fractionBits : Nat) * 2 ^ format.quantum m e : ℚ) ≤ m * 2 ^ e := by
  refine le_trans (le_of_eq ?_) (leading_bounds hm e).1
  rw [Nat.cast_pow, Nat.cast_ofNat, ← zpow_natCast, ← zpow_add₀ two_ne_zero]
  congr 1
  unfold quantum at h ⊢
  omega

/-- Numbers of the format are multiples of the unit, or less than what has its leading bit in
the place that the unit asks for. -/
theorem Canonical.multiple_or_lt (h : format.Canonical m' e') (negative : Bool) (quantum : Int) :
    (∃ k : Int, signed negative (m' * 2 ^ e') = k * 2 ^ quantum) ∨
      (format.minExponent < quantum ∧
        signed negative (m' * 2 ^ e') < (2 ^ format.fractionBits : Nat) * 2 ^ quantum) := by
  by_cases hle : quantum ≤ e'
  · refine .inl ⟨if negative then -(m' * 2 ^ (e' - quantum).toNat : Nat)
      else (m' * 2 ^ (e' - quantum).toNat : Nat), ?_⟩
    rw [two_zpow_eq hle]
    cases negative with
    | true =>
      simp only [signed, if_true]
      push_cast
      ring
    | false =>
      simp only [signed, Bool.false_eq_true, if_false]
      push_cast
      ring
  · have hlt := Int.lt_of_not_ge hle
    refine .inr ⟨h.le_exponent.trans_lt hlt, ?_⟩
    have hpos : (0 : ℚ) < 2 ^ e' := by positivity
    have hmantissa : (m' : ℚ) < 2 ^ (format.fractionBits + 1) := by exact_mod_cast h.mantissa_lt
    calc signed negative (m' * 2 ^ e') ≤ |signed negative (m' * 2 ^ e')| := le_abs_self _
      _ = m' * 2 ^ e' := by rw [abs_signed, abs_mantissa]
      _ < 2 ^ (format.fractionBits + 1) * 2 ^ e' := mul_lt_mul_of_pos_right hmantissa hpos
      _ = 2 ^ format.fractionBits * 2 ^ (e' + 1) := by
        rw [pow_succ, zpow_add₀ two_ne_zero, zpow_one]
        ring
      _ ≤ (2 ^ format.fractionBits : Nat) * 2 ^ quantum := by
        push_cast
        apply mul_le_mul_of_nonneg_left _ (by positivity)
        exact zpow_le_zpow_right₀ one_le_two hlt

/-- The nearest multiple of the unit is the nearest number of the format. -/
theorem Canonical.significand_nearest
    (h : format.Canonical m' e') (negative : Bool) (hm : m ≠ 0) {n : Nat}
    (hn : RoundsTo (m * 2 ^ e) (2 ^ format.quantum m e) n) :
    |(m * 2 ^ e : ℚ) - n * 2 ^ format.quantum m e| ≤
        |m * 2 ^ e - signed negative (m' * 2 ^ e')| ∧
      (|(m * 2 ^ e : ℚ) - n * 2 ^ format.quantum m e| =
          |m * 2 ^ e - signed negative (m' * 2 ^ e')| →
        signed negative (m' * 2 ^ e') = n * 2 ^ format.quantum m e ∨ Even n) := by
  rcases h.multiple_or_lt negative (format.quantum m e) with ⟨k, hk⟩ | ⟨hmin, hlt⟩
  · rw [hk]
    exact hn.nearest k
  · have hle := quantum_le hm hmin
    have hbelow := (hn.nearest (2 ^ format.fractionBits : Nat)).1
    rw [Int.cast_natCast, abs_of_nonneg (sub_nonneg.2 hle)] at hbelow
    have hstrict : |(m * 2 ^ e : ℚ) - n * 2 ^ format.quantum m e| <
        |m * 2 ^ e - signed negative (m' * 2 ^ e')| := by
      rw [abs_of_pos (sub_pos.2 (hlt.trans_le hle))]
      linarith
    exact ⟨hstrict.le, fun htie => absurd htie hstrict.ne⟩

/-! ## The range of the format -/

theorem three_le_maxField (format : FloatFormat) : 3 ≤ format.maxField := by
  cases format <;> decide

/-- The exponent of the greatest numbers. -/
def topExponent (format : FloatFormat) : Int :=
  format.minExponent + format.maxField - 2

/-- Half a unit of the last place above the greatest number: the least number that is rounded
to an infinity. -/
def overflow (format : FloatFormat) : ℚ :=
  ((2 ^ (format.fractionBits + 1) : Nat) - 1 / 2) * 2 ^ format.topExponent

theorem overflow_pos (format : FloatFormat) : 0 < format.overflow := by
  have hone : (1 : ℚ) ≤ (2 ^ (format.fractionBits + 1) : Nat) := by
    exact_mod_cast Nat.one_le_two_pow
  exact mul_pos (by linarith) (by positivity)

theorem lt_overflow_of_quantum_lt (hm : m ≠ 0) (h : format.quantum m e < format.topExponent) :
    (m * 2 ^ e : ℚ) < format.overflow := by
  have hone : (1 : ℚ) ≤ 2 ^ format.fractionBits := one_le_pow₀ one_le_two
  calc (m * 2 ^ e : ℚ) < (2 ^ (format.fractionBits + 1) : Nat) * 2 ^ format.quantum m e :=
        lt_quantum hm
    _ = 2 ^ format.fractionBits * 2 ^ (format.quantum m e + 1) := by
      rw [zpow_add₀ two_ne_zero, zpow_one]
      push_cast
      ring
    _ ≤ 2 ^ format.fractionBits * 2 ^ format.topExponent :=
      mul_le_mul_of_nonneg_left (zpow_le_zpow_right₀ one_le_two h) (by positivity)
    _ ≤ format.overflow := by
      apply mul_le_mul_of_nonneg_right _ (by positivity)
      rw [Nat.cast_pow, Nat.cast_ofNat, pow_succ]
      linarith

theorem overflow_le_of_lt_quantum (hm : m ≠ 0) (h : format.topExponent < format.quantum m e) :
    format.overflow ≤ m * 2 ^ e := by
  have hfield := format.three_le_maxField
  have hmin : format.minExponent < format.quantum m e := by
    unfold topExponent at h
    omega
  calc format.overflow ≤ (2 ^ (format.fractionBits + 1) : Nat) * 2 ^ format.topExponent :=
        mul_le_mul_of_nonneg_right (by linarith) (by positivity)
    _ = 2 ^ format.fractionBits * 2 ^ (format.topExponent + 1) := by
      rw [zpow_add₀ two_ne_zero, zpow_one]
      push_cast
      ring
    _ ≤ 2 ^ format.fractionBits * 2 ^ format.quantum m e :=
      mul_le_mul_of_nonneg_left (zpow_le_zpow_right₀ one_le_two h) (by positivity)
    _ ≤ m * 2 ^ e := by exact_mod_cast quantum_le hm hmin

section

variable {n : Nat} (hm : m ≠ 0) (hn : RoundsTo (m * 2 ^ e) (2 ^ format.quantum m e) n)
include hm hn

theorem significand_le : n ≤ 2 ^ (format.fractionBits + 1) :=
  hn.le_of_lt (by positivity) (lt_quantum hm)

theorem le_significand (h : format.minExponent < format.quantum m e) :
    2 ^ format.fractionBits ≤ n :=
  hn.le_of_le (by positivity) (quantum_le hm h)

/-- A significand that has one bit too many is that of the next greater exponent. -/
theorem exists_canonical_significand :
    ∃ m' e', format.Canonical m' e' ∧
      format.magnitude m' e' = format.magnitude n (format.quantum m e) ∧
      (m' * 2 ^ e' : ℚ) = n * 2 ^ format.quantum m e ∧ (Even n → Even m') := by
  have hmin : format.minExponent ≤ format.quantum m e := le_max_right _ _
  rcases (significand_le hm hn).lt_or_eq with hlt | heq
  · refine ⟨n, format.quantum m e, ⟨hlt, hmin, ?_⟩, rfl, rfl, id⟩
    intro hsub
    by_contra hne
    have hle := le_significand hm hn (lt_of_le_of_ne hmin (Ne.symm hne))
    exact absurd hsub (Nat.not_lt.2 hle)
  · refine ⟨2 ^ format.fractionBits, format.quantum m e + 1, ⟨?_, by omega, ?_⟩, ?_, ?_, ?_⟩
    · exact Nat.pow_lt_pow_right one_lt_two (Nat.lt_succ_self _)
    · exact fun hsub => absurd hsub (lt_irrefl _)
    · have hfield : (format.quantum m e + 1 - format.minExponent).toNat =
          (format.quantum m e - format.minExponent).toNat + 1 := by omega
      rw [magnitude, magnitude, hfield, heq, Nat.pow_eq, Nat.pow_succ]
      ring
    · rw [heq, zpow_add₀ two_ne_zero, zpow_one]
      push_cast
      ring
    · intro _
      have hfraction : format.fractionBits ≠ 0 := by cases format <;> decide
      exact even_two.pow_of_ne_zero hfraction

/-- The magnitude that a number is rounded to stays below the infinity just as long as the
number does not overflow. -/
theorem magnitude_lt_infinity_iff :
    format.magnitude n (format.quantum m e) < format.infinity ↔
      (m * 2 ^ e : ℚ) < format.overflow := by
  have hmin : format.minExponent ≤ format.quantum m e := le_max_right _ _
  obtain ⟨t, ht⟩ := Int.eq_ofNat_of_zero_le (sub_nonneg.2 hmin)
  have hpos : 0 < 2 ^ format.fractionBits := Nat.pow_pos two_pos
  have hbound := significand_le hm hn
  rw [Nat.pow_succ, Nat.mul_comm] at hbound
  rw [magnitude, infinity, ht, Int.toNat_natCast, Nat.pow_eq]
  rcases Nat.lt_trichotomy (t + 2) format.maxField with hbelow | htop | habove
  · refine iff_of_true ?_ (lt_overflow_of_quantum_lt hm (by unfold topExponent; omega))
    calc t * 2 ^ format.fractionBits + n ≤ (t + 2) * 2 ^ format.fractionBits := by
          rw [Nat.add_mul]
          exact Nat.add_le_add_left hbound _
      _ < format.maxField * 2 ^ format.fractionBits := Nat.mul_lt_mul_of_pos_right hbelow hpos
  · -- the unit is that of the greatest numbers, so only a carry leads to the infinity
    have hquantum : format.quantum m e = format.topExponent := by
      unfold topExponent
      omega
    have heven : Even (2 ^ (format.fractionBits + 1)) :=
      even_two.pow_of_ne_zero (Nat.succ_ne_zero _)
    rw [← htop, Nat.add_mul, Nat.add_lt_add_iff_left, Nat.mul_comm, ← Nat.pow_succ,
      hn.lt_iff (by positivity) heven, hquantum]
    rfl
  · refine iff_of_false ?_ (not_lt.2 (overflow_le_of_lt_quantum hm (by unfold topExponent; omega)))
    have hfield := format.three_le_maxField
    have hleading := le_significand hm hn (by omega)
    rw [Nat.not_lt]
    calc format.maxField * 2 ^ format.fractionBits ≤ (t + 1) * 2 ^ format.fractionBits :=
          Nat.mul_le_mul_right _ (Nat.le_of_lt_succ habove)
      _ ≤ t * 2 ^ format.fractionBits + n := by
        rw [Nat.succ_mul]
        exact Nat.add_le_add_left hleading _

end

end FloatFormat

/-! ## Rounding -/

theorem signed_signed (negative negative' : Bool) (q : ℚ) :
    signed negative (signed negative' q) = signed (negative ^^ negative') q := by
  cases negative <;> cases negative' <;> simp [signed]

theorem abs_signed_sub (negative : Bool) (p q : ℚ) :
    |signed negative p - q| = |p - signed negative q| := by
  cases negative with
  | true =>
    simp only [signed, if_true]
    rw [← abs_neg, neg_sub, sub_neg_eq_add, sub_neg_eq_add, add_comm]
  | false => rfl

open FloatBits (Represents)

namespace FloatFormat

variable {format : FloatFormat} {m : Nat} {e : Int} {q r : ℚ} {mantissa : Nat}

theorem represents_signed (negative : Bool) (h : Represents format r) :
    Represents format (signed negative r) := by
  obtain ⟨bits, hbits⟩ := h
  obtain ⟨m, e, -, hcanonical, hmagnitude, hfinite, rfl⟩ :=
    FloatBits.exists_canonical_of_number hbits
  rw [hmagnitude] at hfinite
  exact ⟨_, (FloatBits.quantity_ofMagnitude hcanonical hfinite).trans
    (congrArg Quantity.number (signed_signed negative _ _).symm)⟩

/-- No number of the format is nearer to `q` than `r` is, and one that is as near is another
one only if the mantissa of `r` is even. -/
def Closest (format : FloatFormat) (q r : ℚ) (mantissa : Nat) : Prop :=
  ∀ s, Represents format s →
    |q - r| ≤ |q - s| ∧ (|q - r| = |q - s| → s = r ∨ Even mantissa)

theorem closest_zero (format : FloatFormat) : format.Closest 0 0 0 := by
  intro s _
  rw [sub_self, abs_zero]
  refine ⟨abs_nonneg _, fun htie => .inl ?_⟩
  rw [eq_comm, abs_eq_zero, zero_sub, neg_eq_zero] at htie
  exact htie

theorem closest_significand
    {n : Nat} (hm : m ≠ 0) (hn : RoundsTo (m * 2 ^ e) (2 ^ format.quantum m e) n) :
    format.Closest (m * 2 ^ e) (n * 2 ^ format.quantum m e) n := by
  rintro s ⟨bits, hbits⟩
  obtain ⟨m', e', -, hcanonical, -, -, rfl⟩ := FloatBits.exists_canonical_of_number hbits
  exact hcanonical.significand_nearest bits.isNegative hm hn

theorem Closest.of_even
    (h : format.Closest q r mantissa) {mantissa' : Nat} (heven : Even mantissa → Even mantissa') :
    format.Closest q r mantissa' := by
  intro s hs
  obtain ⟨hle, htie⟩ := h s hs
  exact ⟨hle, fun hsame => (htie hsame).imp_right heven⟩

theorem Closest.signed (h : format.Closest q r mantissa) (negative : Bool) :
    format.Closest (signed negative q) (signed negative r) mantissa := by
  intro s hs
  obtain ⟨hle, htie⟩ := h _ (represents_signed negative hs)
  rw [abs_signed_sub, abs_signed_sub, signed_signed, Bool.xor_self]
  refine ⟨hle, fun hsame => (htie hsame).imp_left ?_⟩
  rintro rfl
  rw [signed_signed, Bool.xor_self]
  rfl

end FloatFormat

namespace FloatBits

variable {format : FloatFormat} {m : Nat} {e : Int} {negative : Bool}

/-- A pattern for the number nearest to `q`. If another number of the format is as near, the
significand is even. -/
def IsNearest (bits : FloatBits format) (q : ℚ) : Prop :=
  ∃ mantissa exponent, bits.decode = .finite bits.isNegative mantissa exponent ∧
    format.Closest q (signed bits.isNegative (mantissa * 2 ^ exponent)) mantissa

theorem isNearest_ofMagnitude
    {q : ℚ} (h : format.Canonical m e) (hfinite : format.magnitude m e < format.infinity)
    (hclosest : format.Closest q (m * 2 ^ e) m) :
    (ofMagnitude format negative (format.magnitude m e)).IsNearest (signed negative q) := by
  have hlt : format.magnitude m e < 2 ^ (format.width - 1) := by
    rw [← FloatFormat.infinity_add]
    exact Nat.lt_add_right _ hfinite
  have hmagnitude := @magnitude_ofMagnitude format negative _ hlt
  refine ⟨m, e, decode_of_canonical h hmagnitude (hmagnitude.trans_lt hfinite), ?_⟩
  rw [isNegative_ofMagnitude hlt]
  exact hclosest.signed negative

theorem roundMagnitude_eq (hm : m ≠ 0) :
    roundMagnitude format m e =
      min (format.magnitude (significand m e (format.quantum m e)) (format.quantum m e))
        format.infinity := by
  rw [roundMagnitude, if_neg hm]
  rfl

/-- What does not overflow is rounded to the nearest number, ties to even. -/
theorem isNearest_round (h : (m * 2 ^ e : ℚ) < format.overflow) :
    (round format negative m e).IsNearest (signed negative (m * 2 ^ e)) := by
  by_cases hm : m = 0
  · have hzero : roundMagnitude format m e = format.magnitude 0 format.minExponent := by
      rw [format.magnitude_zero, roundMagnitude, if_pos hm]
    rw [round, hzero, hm, Nat.cast_zero, zero_mul]
    apply isNearest_ofMagnitude format.canonical_zero
    · rw [format.magnitude_zero]
      exact format.infinity_pos
    · rw [Nat.cast_zero, zero_mul]
      exact format.closest_zero
  · have hn := roundsTo_significand m e (format.quantum m e)
    obtain ⟨m', e', hcanonical, hmagnitude, hvalue, heven⟩ :=
      FloatFormat.exists_canonical_significand hm hn
    have hfinite := (FloatFormat.magnitude_lt_infinity_iff hm hn).2 h
    rw [round, roundMagnitude_eq hm, min_eq_left hfinite.le, ← hmagnitude]
    apply isNearest_ofMagnitude hcanonical (hmagnitude ▸ hfinite)
    rw [hvalue]
    exact (FloatFormat.closest_significand hm hn).of_even heven

/-- What overflows is rounded to an infinity. -/
theorem round_of_overflow_le (h : format.overflow ≤ m * 2 ^ e) :
    round format negative m e = ofMagnitude format negative format.infinity := by
  have hm : m ≠ 0 := by
    rintro rfl
    rw [Nat.cast_zero, zero_mul] at h
    exact absurd h (not_le.2 format.overflow_pos)
  have hn := roundsTo_significand m e (format.quantum m e)
  have hinfinite := mt (FloatFormat.magnitude_lt_infinity_iff hm hn).1 (not_lt.2 h)
  rw [round, roundMagnitude_eq hm, min_eq_right (Nat.le_of_not_lt hinfinite)]

/-! ## Conversion between formats -/

section

variable {source target : FloatFormat} {bits : FloatBits source} {q : ℚ}

theorem number_cases (target : FloatFormat) (h : bits.quantity = .number q) :
    ∃ (m : Nat) (e : Int), q = signed bits.isNegative (m * 2 ^ e) ∧
      bits.convert target = round target bits.isNegative m e := by
  rcases bits.convert_cases target with ⟨m, e, hbits, hconvert⟩ | ⟨hbits, -⟩ | ⟨hbits, -⟩
  · exact ⟨m, e, Quantity.number.inj (h.symm.trans hbits), hconvert⟩
  · cases h.symm.trans hbits
  · cases h.symm.trans hbits

theorem isNearest_convert (h : bits.quantity = .number q) (hq : |q| < target.overflow) :
    (bits.convert target).IsNearest q := by
  obtain ⟨m, e, rfl, hconvert⟩ := number_cases target h
  rw [abs_signed, abs_mantissa] at hq
  rw [hconvert]
  exact isNearest_round hq

theorem quantity_convert_of_overflow_le
    (h : bits.quantity = .number q) (hq : target.overflow ≤ |q|) :
    (bits.convert target).quantity = .infinity bits.isNegative := by
  obtain ⟨m, e, rfl, hconvert⟩ := number_cases target h
  rw [abs_signed, abs_mantissa] at hq
  rw [hconvert, round_of_overflow_le hq, quantity_eq_infinity]

/-- A pattern that is not a number and has the leading bit of its fraction set. -/
def IsQuiet (bits : FloatBits source) : Prop :=
  bits.isNaN = true ∧ 2 ^ (source.fractionBits - 1) ≤ bits.fraction

theorem isQuiet_convert (target : FloatFormat) (h : bits.quantity = .nan) :
    (bits.convert target).IsQuiet := by
  rcases bits.convert_cases target with ⟨m, e, hbits, -⟩ | ⟨hbits, -⟩ | ⟨-, hconvert⟩
  · cases h.symm.trans hbits
  · cases h.symm.trans hbits
  · have hnan : (bits.convert target).quantity = .nan := by
      rw [quantity_convert, h]
      intro q hq
      cases h.symm.trans hq
    refine ⟨quantity_eq_nan.1 hnan, ?_⟩
    have hlt := bits.quietFraction_lt target
    rw [hconvert, fraction, magnitude_ofMagnitude (FloatFormat.infinity_add_lt hlt),
      FloatFormat.infinity, Nat.pow_eq, Nat.mul_add_mod_self_right, Nat.mod_eq_of_lt hlt]
    exact bits.le_quietFraction target

end

end FloatBits

end TypedStack
