import TypedStack.Proofs.Floating.WidenWord

/-!
# The sixteen bit format

The words of sixty-four bits are rounded once to sixteen bits: to the nearest number, ties to
the even significand, and to an infinity from 65520 on. The way from sixteen over thirty-two to
sixty-four bits is exact, so rounding leads back from there.
-/

namespace TypedStack

namespace FloatBits

theorem overflow_binary16 : FloatFormat.binary16.overflow = 65520 := by
  have htop : FloatFormat.binary16.topExponent = 5 := by decide
  rw [FloatFormat.overflow, htop]
  norm_num [FloatFormat.fractionBits]

/-- Rounding to sixteen bits is correct. The sign is kept. What is not a number becomes a quiet
one of this kind. Infinities and all from 65520 on become infinite, and every other number
becomes the nearest one of the sixteen bit format, with an even significand if two are as
near. Widening to thirty-two bits is exact, and rounding leads back to every pattern that
was widened and then taken to sixty-four bits. -/
theorem half_rounding_correct :
    (∀ x : FloatBits .binary64,
      x.halfOfDouble.isNegative = x.isNegative ∧
      (x.quantity = .nan → x.halfOfDouble.IsQuiet) ∧
      ((∃ negative, x.quantity = .infinity negative) ∨
          (∃ q, x.quantity = .number q ∧ 65520 ≤ |q|) →
        x.halfOfDouble.quantity = .infinity x.isNegative) ∧
      (∀ q, x.quantity = .number q → |q| < 65520 → x.halfOfDouble.IsNearest q)) ∧
    (∀ h : FloatBits .binary16,
      h.singleOfHalf.isNegative = h.isNegative ∧
      h.singleOfHalf.quantity = h.quantity ∧
      (h.quantity ≠ .nan → (h.singleOfHalf.convert .binary64).halfOfDouble = h)) := by
  constructor
  · intro x
    rw [halfOfDouble_eq_convert]
    refine ⟨isNegative_convert _ x, isQuiet_convert _, ?_, ?_⟩
    · rintro (⟨negative, hx⟩ | ⟨q, hx, hq⟩)
      · rcases x.convert_cases .binary16 with ⟨m, e, hnumber, -⟩ | ⟨-, hconvert⟩ | ⟨hnan, -⟩
        · cases hx.symm.trans hnumber
        · rw [hconvert, quantity_eq_infinity]
        · cases hx.symm.trans hnan
      · exact quantity_convert_of_overflow_le hx (overflow_binary16 ▸ hq)
    · intro q hx hq
      exact isNearest_convert hx (overflow_binary16 ▸ hq)
  · intro h
    refine ⟨?_, ?_, fun hnan => ?_⟩
    · rw [singleOfHalf_eq_widen, isNegative_widen]
    · rw [singleOfHalf_eq_widen, quantity_widen narrower_binary32]
    · rw [halfOfDouble_eq_convert, convert_singleOfHalf]
      exact convert_convert hnan (quantity_convert_binary64 h)

theorem quantity_of_decode
    {format : FloatFormat} {bits : FloatBits format} {m : Nat} {e : Int} {q : ℚ}
    (h : bits.decode = .finite false m e) (hq : (m * 2 ^ e : ℚ) = q) :
    bits.quantity = .number q := by
  rw [quantity, h, ← hq]
  rfl

/-- Half of the least positive number is as near to zero, which is even. Just below 65520 the
greatest number is still the nearest, and at 65520 there is none. The least positive number
is kept. -/
theorem half_rounding_correct_boundaries :
    (0x0000 : FloatBits .binary16).IsNearest (2 ^ (-25 : Int)) ∧
    (0x7bff : FloatBits .binary16).IsNearest (65520 - 2 ^ (-37 : Int)) ∧
    (halfOfDouble 0x40effe0000000000).quantity = .infinity false ∧
    ((singleOfHalf 0x0001).convert .binary64).halfOfDouble = 0x0001 := by
  have htie : (0x3e60000000000000 : FloatBits .binary64).quantity = .number (2 ^ (-25 : Int)) :=
    quantity_of_decode (m := 2 ^ 52) (e := -77) (by decide) (by norm_num)
  have hbelow : (0x40effdffffffffff : FloatBits .binary64).quantity =
      .number (65520 - 2 ^ (-37 : Int)) :=
    quantity_of_decode (m := 65520 * 2 ^ 37 - 1) (e := -37) (by decide) (by norm_num)
  have hover : (0x40effe0000000000 : FloatBits .binary64).quantity = .number 65520 :=
    quantity_of_decode (m := 65520 * 2 ^ 37) (e := -37) (by decide) (by norm_num)
  obtain ⟨hround, hwiden⟩ := half_rounding_correct
  refine ⟨?_, ?_, ?_, ?_⟩
  · exact (hround 0x3e60000000000000).2.2.2 _ htie (by norm_num [abs_of_pos])
  · exact (hround 0x40effdffffffffff).2.2.2 _ hbelow (by norm_num [abs_of_pos])
  · exact (hround 0x40effe0000000000).2.2.1 (.inr ⟨_, hover, by norm_num⟩)
  · exact (hwiden 0x0001).2.2 (by decide)

end FloatBits

end TypedStack
