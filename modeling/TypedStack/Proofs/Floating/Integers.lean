import TypedStack.Proofs.Floating.Nearest

/-!
# Integers among the numbers of a format

A format has all integers up to the power of two above its significands, so these are not
rounded at all. A greater integer becomes the nearest number of the format. Zero and the
powers of two are numbers of the format as well, and no further from the integer than
they are can its nearest number be: this bounds the result on both sides without
computing it.
-/

namespace TypedStack

open FloatBits (Represents)

namespace FloatFormat

variable {format : FloatFormat} {m : Nat} {e n : Int}

/-! ## What a format has -/

/-- A significand of few enough bits is not rounded. -/
theorem significand_exact (hm : m < 2 ^ (format.fractionBits + 1))
    (hne : m ≠ 0) (he : format.minExponent ≤ e) :
    (significand m e (format.quantum m e) * 2 ^ format.quantum m e : ℚ) = m * 2 ^ e := by
  have hlog : m.log2 < format.fractionBits + 1 := (Nat.log2_lt hne).2 hm
  have hle : format.quantum m e ≤ e := by
    unfold quantum
    omega
  rw [significand, if_pos hle, two_zpow_eq hle, Nat.pow_eq]
  push_cast
  ring

theorem represents_of_lt (hm : m < 2 ^ (format.fractionBits + 1))
    (he : format.minExponent ≤ e) (hfinite : (m * 2 ^ e : ℚ) < format.overflow) :
    Represents format (m * 2 ^ e) := by
  by_cases hne : m = 0
  · rw [hne, Nat.cast_zero, zero_mul]
    exact FloatBits.represents_zero format
  · have hn := roundsTo_significand m e (format.quantum m e)
    obtain ⟨m', e', hcanonical, hmagnitude, hvalue, -⟩ := exists_canonical_significand hne hn
    have hbelow := (magnitude_lt_infinity_iff hne hn).2 hfinite
    rw [← hmagnitude] at hbelow
    have hquantity : (FloatBits.ofMagnitude format false (format.magnitude m' e')).quantity =
        .number (m' * 2 ^ e') := FloatBits.quantity_ofMagnitude hcanonical hbelow
    rw [← significand_exact hm hne he, ← hvalue]
    exact ⟨_, hquantity⟩

theorem two_zpow_le_overflow (format : FloatFormat) : 2 ^ format.topExponent ≤ format.overflow := by
  have hone : (1 : ℚ) ≤ 2 ^ format.fractionBits := one_le_pow₀ one_le_two
  rw [overflow, Nat.cast_pow, Nat.cast_ofNat, pow_succ]
  apply le_mul_of_one_le_left (by positivity)
  linarith

theorem represents_two_pow {k : Nat} (hk : (k : Int) < format.topExponent)
    (hmin : format.minExponent ≤ 0) : Represents format (2 ^ k) := by
  have hone : 1 < 2 ^ (format.fractionBits + 1) := Nat.one_lt_two_pow (Nat.succ_ne_zero _)
  have hlt : ((1 : Nat) * 2 ^ (k : Int) : ℚ) < format.overflow := by
    rw [Nat.cast_one, one_mul]
    exact (zpow_lt_zpow_right₀ one_lt_two hk).trans_le format.two_zpow_le_overflow
  have hrepresents := represents_of_lt hone (by omega) hlt
  rwa [Nat.cast_one, one_mul, zpow_natCast] at hrepresents

/-- All integers that need no more bits than a significand has, and the power of two that
comes next, are numbers of the format. -/
theorem represents_int (hmin : format.minExponent ≤ 0)
    (htop : (format.fractionBits + 1 : Nat) < format.topExponent)
    (hn : n.natAbs ≤ 2 ^ (format.fractionBits + 1)) : Represents format n := by
  have habs : Represents format (n.natAbs * 2 ^ (0 : Int)) := by
    rcases hn.lt_or_eq with hlt | heq
    · apply represents_of_lt hlt hmin
      rw [zpow_zero, mul_one]
      calc (n.natAbs : ℚ) < 2 ^ ((format.fractionBits + 1 : Nat) : Int) := by
            rw [zpow_natCast]
            exact_mod_cast hlt
        _ ≤ 2 ^ format.topExponent := zpow_le_zpow_right₀ one_le_two htop.le
        _ ≤ format.overflow := format.two_zpow_le_overflow
    · rw [heq, zpow_zero, mul_one, Nat.cast_pow, Nat.cast_ofNat]
      exact represents_two_pow htop hmin
  rw [← FloatBits.signed_int n]
  exact represents_signed _ habs

end FloatFormat

namespace FloatBits

variable {format : FloatFormat} {bits : FloatBits format} {n : Int} {q r s : ℚ}

/-! ## Bounds on the nearest number -/

theorem IsNearest.exists_number (h : bits.IsNearest q) :
    ∃ r, bits.quantity = .number r ∧ ∀ s, Represents format s → |q - r| ≤ |q - s| := by
  obtain ⟨m, e, hdecode, hclosest⟩ := h
  refine ⟨_, ?_, fun s hs => (hclosest s hs).1⟩
  rw [quantity, hdecode]
  rfl

/-- Zero is a number of the format. -/
theorem abs_le_of_closest (h : ∀ s, Represents format s → |q - r| ≤ |q - s|) :
    |r| ≤ 2 * |q| := by
  have hzero := h 0 (represents_zero format)
  rw [sub_zero] at hzero
  have htriangle : |r| ≤ |q| + |q - r| := by
    calc |r| = |q - (q - r)| := by rw [sub_sub_cancel]
      _ ≤ |q| + |q - r| := abs_sub _ _
  linarith

/-- A number of the format that is less in magnitude, taken with the sign of `q`. -/
theorem le_abs_of_closest (h : ∀ s, Represents format s → |q - r| ≤ |q - s|)
    (hs : Represents format s) (hle : s ≤ |q|) : s ≤ |r| := by
  have hnear := h _ (FloatFormat.represents_signed (q < 0) hs)
  have hdistance : |q - signed (q < 0) s| = |q| - s := by
    by_cases hq : q < 0
    · rw [abs_of_neg hq] at hle ⊢
      simp only [signed, hq, decide_true, if_true]
      rw [sub_neg_eq_add, abs_of_nonpos (by linarith)]
      ring
    · rw [abs_of_nonneg (not_lt.1 hq)] at hle ⊢
      simp only [signed, hq, decide_false, Bool.false_eq_true, if_false]
      exact abs_of_nonneg (sub_nonneg.2 hle)
  rw [hdistance] at hnear
  have htriangle : |q| ≤ |q - r| + |r| := by
    calc |q| = |(q - r) + r| := by rw [sub_add_cancel]
      _ ≤ |q - r| + |r| := abs_add_le _ _
  linarith

/-! ## Rounding an integer -/

theorem isNegative_ofInt (format : FloatFormat) (n : Int) :
    (ofInt format n).isNegative = decide (n < 0) :=
  isNegative_ofMagnitude (roundMagnitude_lt format n.natAbs 0)

theorem isNearest_ofInt (h : |(n : ℚ)| < format.overflow) : (ofInt format n).IsNearest n := by
  rw [← signed_int n, abs_signed, abs_mantissa] at h
  rw [← signed_int n]
  exact isNearest_round h

end FloatBits

end TypedStack
