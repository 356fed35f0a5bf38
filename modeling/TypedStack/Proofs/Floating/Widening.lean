import Mathlib.Data.Nat.Bitwise
import TypedStack.Proofs.Floating.Exact

/-!
# Wider formats on the way

Widening keeps sign and quantity. A conversion by way of a wider format is the direct one, also
for what is not a number: the wider format has room for its fraction, and a bit that makes it
quiet does so once and for all.
-/

namespace TypedStack

namespace FloatBits

/-! ## Widening -/

section

variable {source target : FloatFormat} {bits : FloatBits source}

/-- The pattern of a wider format with the same meaning. Unlike `convert` it
leaves the payload of what is not a number as it is. -/
def widen (target : FloatFormat) (bits : FloatBits source) : FloatBits target :=
  if bits.isNaN then
    ofMagnitude target bits.isNegative (target.infinity + bits.alignedFraction target)
  else bits.convert target

theorem fraction_le_alignedFraction
    (h : source.fractionBits ≤ target.fractionBits) (bits : FloatBits source) :
    bits.fraction ≤ bits.alignedFraction target := by
  rw [alignedFraction, Nat.pow_eq, Nat.pow_eq, Nat.le_div_iff_mul_le (Nat.pow_pos two_pos)]
  exact Nat.mul_le_mul_left _ (Nat.pow_le_pow_right two_pos h)

theorem fraction_pos_of_isNaN (h : bits.isNaN = true) : 0 < bits.fraction := by
  rw [isNaN, decide_eq_true_iff] at h
  have hlt := bits.magnitude_lt
  rw [← FloatFormat.infinity_add] at hlt
  have hfraction : bits.fraction = bits.magnitude - source.infinity := by
    have hsplit : bits.magnitude =
        (bits.magnitude - source.infinity) + source.maxField * 2 ^ source.fractionBits :=
      (Nat.sub_add_cancel h.le).symm
    rw [fraction, Nat.pow_eq, hsplit, Nat.add_mul_mod_self_right, Nat.mod_eq_of_lt (by omega),
      ← hsplit]
  omega

theorem widen_of_isNaN (h : bits.isNaN = true) :
    bits.widen target =
      ofMagnitude target bits.isNegative (target.infinity + bits.alignedFraction target) := by
  rw [widen, if_pos h]

theorem widen_of_quantity_ne_nan (h : bits.quantity ≠ .nan) :
    bits.widen target = bits.convert target := by
  rw [Ne, quantity_eq_nan] at h
  rw [widen, if_neg h]

theorem isNegative_widen (target : FloatFormat) (bits : FloatBits source) :
    (bits.widen target).isNegative = bits.isNegative := by
  by_cases hnan : bits.isNaN = true
  · rw [widen_of_isNaN hnan,
      isNegative_ofMagnitude (FloatFormat.infinity_add_lt (bits.alignedFraction_lt target))]
  · rw [widen, if_neg hnan, isNegative_convert]

theorem quantity_widen (h : source.Narrower target) (bits : FloatBits source) :
    (bits.widen target).quantity = bits.quantity := by
  by_cases hnan : bits.quantity = .nan
  · have hisNaN := quantity_eq_nan.1 hnan
    have hpos := fraction_pos_of_isNaN hisNaN
    have hle := fraction_le_alignedFraction h.fractionBits_le bits
    rw [hnan, quantity_eq_nan, widen_of_isNaN hisNaN, isNaN, decide_eq_true_iff,
      magnitude_ofMagnitude (FloatFormat.infinity_add_lt (bits.alignedFraction_lt target))]
    omega
  · rw [widen_of_quantity_ne_nan hnan]
    exact quantity_convert fun _ hq => Represents.of_narrower ⟨bits, hq⟩ h

end

/-! ## Conversion by way of a wider format -/

theorem signed_injective (negative : Bool) {p q : ℚ} (h : signed negative p = signed negative q) :
    p = q := by
  cases negative with
  | false => exact h
  | true => exact neg_injective h

section

variable {source : FloatFormat} {x : FloatBits source}

theorem exists_convert_of_number {q : ℚ} (h : x.quantity = .number q) :
    ∃ (m : Nat) (e : Int), q = signed x.isNegative (m * 2 ^ e) ∧
      ∀ target, x.convert target =
        ofMagnitude target x.isNegative (roundMagnitude target m e) := by
  obtain ⟨m, e, hdecode, -, -, -, hq⟩ := exists_canonical_of_number h
  refine ⟨m, e, hq, fun target => ?_⟩
  simp only [convert, hdecode, round]

theorem convert_of_infinity
    {negative : Bool} (h : x.quantity = .infinity negative) (target : FloatFormat) :
    x.convert target = ofMagnitude target negative target.infinity := by
  rcases x.convert_cases target with ⟨m, e, hx, -⟩ | ⟨hx, hconvert⟩ | ⟨hx, -⟩
  · cases h.symm.trans hx
  · cases h.symm.trans hx
    exact hconvert
  · cases h.symm.trans hx

theorem convert_of_nan (h : x.quantity = .nan) (target : FloatFormat) :
    x.convert target =
      ofMagnitude target x.isNegative (target.infinity + x.quietFraction target) := by
  rcases x.convert_cases target with ⟨m, e, hx, -⟩ | ⟨hx, -⟩ | ⟨-, hconvert⟩
  · cases h.symm.trans hx
  · cases h.symm.trans hx
  · exact hconvert

theorem fraction_ofMagnitude {format : FloatFormat} {n : Nat} (h : n < 2 ^ format.fractionBits)
    (negative : Bool) : (ofMagnitude format negative (format.infinity + n)).fraction = n := by
  rw [fraction, magnitude_ofMagnitude (FloatFormat.infinity_add_lt h), FloatFormat.infinity,
    Nat.pow_eq, Nat.mul_add_mod_self_right, Nat.mod_eq_of_lt h]

end

section

variable {source wide target : FloatFormat} {x : FloatBits source}

/-- Conversion sees the quantity and the sign of a pattern, and of what is not a number the
fraction. -/
theorem convert_congr
    {y : FloatBits wide} (h : y.quantity = x.quantity) (hsign : y.isNegative = x.isNegative)
    (hquiet : x.quantity = .nan → y.quietFraction target = x.quietFraction target) :
    y.convert target = x.convert target := by
  cases hx : x.quantity with
  | nan => rw [convert_of_nan hx, convert_of_nan (h.trans hx), hsign, hquiet hx]
  | infinity negative => rw [convert_of_infinity hx, convert_of_infinity (h.trans hx)]
  | number q =>
    obtain ⟨m, e, hq, hconvert⟩ := exists_convert_of_number hx
    obtain ⟨m', e', hq', hconvert'⟩ := exists_convert_of_number (h.trans hx)
    rw [hsign] at hq' hconvert'
    rw [hconvert, hconvert',
      roundMagnitude_congr target (signed_injective _ (hq'.symm.trans hq))]

/-- A fraction that is moved twice. -/
theorem alignedFraction_mul_div (h : source.fractionBits ≤ wide.fractionBits)
    (target : FloatFormat) (x : FloatBits source) :
    x.alignedFraction wide * 2 ^ target.fractionBits / 2 ^ wide.fractionBits =
      x.alignedFraction target := by
  obtain ⟨k, hk⟩ := Nat.exists_eq_add_of_le h
  have hwide : x.alignedFraction wide = x.fraction * 2 ^ k := by
    rw [alignedFraction, Nat.pow_eq, Nat.pow_eq, hk, Nat.pow_add, ← Nat.mul_assoc,
      Nat.mul_right_comm, Nat.mul_div_cancel _ (Nat.pow_pos two_pos)]
  rw [hwide, alignedFraction, Nat.pow_eq, Nat.pow_eq, hk, Nat.pow_add, Nat.mul_right_comm,
    Nat.mul_div_mul_right _ _ (Nat.pow_pos two_pos)]

theorem quietFraction_mul_div (h : source.fractionBits ≤ wide.fractionBits)
    (target : FloatFormat) (x : FloatBits source) :
    x.quietFraction wide * 2 ^ target.fractionBits / 2 ^ wide.fractionBits =
      x.quietFraction target := by
  have hquiet : 2 ^ (wide.fractionBits - 1) * 2 ^ target.fractionBits / 2 ^ wide.fractionBits =
      2 ^ (target.fractionBits - 1) := by
    cases wide <;> cases target <;> rfl
  have hor (a b i j : Nat) :
      (a ||| b) * 2 ^ i / 2 ^ j = a * 2 ^ i / 2 ^ j ||| b * 2 ^ i / 2 ^ j := by
    simp only [← Nat.shiftLeft_eq, ← Nat.shiftRight_eq_div_pow, Nat.shiftLeft_or_distrib,
      Nat.shiftRight_or_distrib]
  rw [quietFraction, quietFraction, Nat.pow_eq, Nat.pow_eq, hor, alignedFraction_mul_div h, hquiet]

theorem convert_widen (h : source.Narrower wide) (x : FloatBits source) :
    (x.widen wide).convert target = x.convert target := by
  refine convert_congr (quantity_widen h x) (isNegative_widen wide x) fun hnan => ?_
  rw [quietFraction, alignedFraction, widen_of_isNaN (quantity_eq_nan.1 hnan),
    fraction_ofMagnitude (x.alignedFraction_lt wide), Nat.pow_eq, Nat.pow_eq,
    alignedFraction_mul_div h.fractionBits_le]
  rfl

/-- A number is rounded once. What is not a number has its quiet bit from the first step. -/
theorem convert_convert_of_narrower (h : source.Narrower wide) (x : FloatBits source) :
    (x.convert wide).convert target = x.convert target := by
  have hquantity : (x.convert wide).quantity = x.quantity :=
    quantity_convert fun _ hq => Represents.of_narrower ⟨x, hq⟩ h
  refine convert_congr hquantity (isNegative_convert wide x) fun hnan => ?_
  rw [quietFraction, alignedFraction, convert_of_nan hnan,
    fraction_ofMagnitude (x.quietFraction_lt wide), Nat.pow_eq, Nat.pow_eq,
    quietFraction_mul_div h.fractionBits_le, quietFraction, Nat.or_assoc, Nat.pow_eq, Nat.or_self]

end

end FloatBits

end TypedStack
