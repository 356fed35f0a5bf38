import Mathlib.Algebra.Ring.Int.Defs
import Mathlib.Data.Int.ModEq
import TypedStack.Proofs.Conversion.Agreement

/-!
# Integers wrap around

Without a range check, an integer becomes the one value of the target kind that is congruent
to it modulo the number of values of the kind. What a kind keeps of an integer is thus its
residue, and a wider kind keeps more: the residue modulo a greater power of two, which is
known to be a multiple of the smaller one. So a stop at a wider kind loses nothing that the
target kind would have kept, whichever of the kinds have signs.
-/

namespace TypedStack

namespace Value

variable {value : Value} {kind : IntegerKind} {n a b : Int}

/-! ## Residues -/

/-- A value of an integer kind whose number is congruent to `n` modulo the number of values
of the kind. -/
def IsResidue (kind : IntegerKind) (n : Int) (value : Value) : Prop :=
  value.kind = .integer kind ∧ ∃ m, value.toInt? = some m ∧ m ≡ n [ZMOD 2 ^ (8 * kind.width)]

theorem intOfBits_ofInt_modEq (kind : IntegerKind) (n : Int) :
    intOfBits kind (BitVec.ofInt kind.bits n) ≡ n [ZMOD 2 ^ (8 * kind.width)] := by
  have hsize : (2 ^ (8 * kind.width) : Int) = (2 ^ kind.bits : Nat) := by
    rw [IntegerKind.bits]
    push_cast
    rfl
  have hpos : (2 ^ kind.bits : Nat) ≠ (0 : Int) := by positivity
  rw [hsize, Int.ModEq, intOfBits]
  split
  · rw [BitVec.toInt_ofInt, Int.bmod_emod]
  · rw [BitVec.toNat_ofInt, Int.toNat_of_nonneg (Int.emod_nonneg n hpos), Int.emod_emod]

/-- The bits that a kind keeps of an integer depend on its residue only. -/
theorem wrapInteger_congr (h : a ≡ b [ZMOD 2 ^ (8 * kind.width)]) :
    wrapInteger kind a = wrapInteger kind b := by
  have hsame : a % (2 ^ kind.bits : Nat) = b % (2 ^ kind.bits : Nat) := by
    push_cast
    exact h
  have hbits : BitVec.ofInt kind.bits a = BitVec.ofInt kind.bits b := by
    apply BitVec.eq_of_toNat_eq
    rw [BitVec.toNat_ofInt, BitVec.toNat_ofInt, hsame]
  rw [wrapInteger, wrapInteger, hbits]

theorem isResidue_wrapInteger (kind : IntegerKind) (n : Int) :
    IsResidue kind n (wrapInteger kind n) :=
  ⟨rfl, _, rfl, intOfBits_ofInt_modEq kind n⟩

theorem eq_wrapInteger_of_isResidue (h : IsResidue kind n value) :
    value = wrapInteger kind n := by
  obtain ⟨hkind, m, hm, hcongruent⟩ := h
  cases value with
  | integer kind' bits =>
    obtain rfl : kind' = kind := Kind.integer.inj hkind
    obtain rfl : intOfBits kind' bits = m := Option.some.inj hm
    rw [← wrapInteger_congr hcongruent, wrapInteger_intOfBits]
  | float format bits => cases hkind
  | bool b => cases hkind
  | ref reference => cases hkind

/-- What is congruent for a kind is so for every narrower one. -/
theorem modEq_of_width_le {narrow wide : IntegerKind} (hwidth : narrow.width ≤ wide.width)
    (h : a ≡ b [ZMOD 2 ^ (8 * wide.width)]) : a ≡ b [ZMOD 2 ^ (8 * narrow.width)] := by
  apply Int.ModEq.of_dvd _ h
  exact pow_dvd_pow 2 (Nat.mul_le_mul_left 8 hwidth)

/-! ## Conversion of integers -/

theorem scalar?_of_toInt? (h : value.toInt? = some n) : value.scalar? = some (.int n) := by
  cases value with
  | integer kind bits => rw [scalar?, Option.some.inj h]
  | float format bits => cases h
  | bool b => cases h
  | ref reference => cases h

theorem convertUnchecked_of_toInt? (h : value.toInt? = some n) (kind : IntegerKind) :
    value.convertUnchecked (.integer kind) = .ok (wrapInteger kind n) := by
  rw [convertUnchecked_of_scalar (scalar?_of_toInt? h)]
  rfl

/-- An integer is converted to another integer kind if it is in the range of that kind. -/
theorem convertChecked_of_toInt? {kind : IntegerKind} (h : value.toInt? = some n)
    (hkind : value.kind ≠ .integer kind) :
    value.convertChecked (.integer kind) =
      if kind.min ≤ n ∧ n ≤ kind.max then .ok (wrapInteger kind n)
      else .error (.overflow value (.integer kind)) := by
  have htarget : Kind.integer kind ≠ .ref := by
    intro hsame
    cases hsame
  rw [convertChecked_of_scalar htarget (scalar?_of_toInt? h), if_neg hkind, exactOf?,
    exactOfInt?, ofInteger?]
  split <;> rfl

/-- On the way to a kind, a stop at a kind that is at least as wide makes no difference. -/
theorem convertUnchecked_through_wider
    {narrow wide : IntegerKind} (hwidth : narrow.width ≤ wide.width) (n : Int) :
    (wrapInteger wide n).convertUnchecked (.integer narrow) = .ok (wrapInteger narrow n) := by
  obtain ⟨-, m, hm, hcongruent⟩ := isResidue_wrapInteger wide n
  rw [convertUnchecked_of_toInt? hm]
  exact congrArg Except.ok (wrapInteger_congr (modEq_of_width_le hwidth hcongruent))

/-- Without a range check, integers wrap around in two's complement. A kind of `w` bytes has
exactly one value that is congruent to the integer modulo `2 ^ (8 * w)`, and this is the
result. A conversion in two steps, the first one to a kind at least as wide as the target, is
the same as the direct one. So every value comes back from every kind at least as wide as
its own. -/
theorem convertUnchecked_wraps (h : value.toInt? = some n) :
    (∀ kind : IntegerKind, ∃ result, value.convertUnchecked (.integer kind) = .ok result ∧
      IsResidue kind n result ∧ ∀ other, IsResidue kind n other → other = result) ∧
    (∀ wide narrow : IntegerKind, narrow.width ≤ wide.width →
      ∃ middle, value.convertUnchecked (.integer wide) = .ok middle ∧
        middle.convertUnchecked (.integer narrow) = value.convertUnchecked (.integer narrow)) ∧
    (∀ own wide : IntegerKind, value.kind = .integer own → own.width ≤ wide.width →
      ∃ middle, value.convertUnchecked (.integer wide) = .ok middle ∧
        middle.convertUnchecked (.integer own) = .ok value) := by
  refine ⟨?_, ?_, ?_⟩
  · intro kind
    refine ⟨_, convertUnchecked_of_toInt? h kind, isResidue_wrapInteger kind n, ?_⟩
    exact fun other => eq_wrapInteger_of_isResidue
  · intro wide narrow hwidth
    refine ⟨_, convertUnchecked_of_toInt? h wide, ?_⟩
    rw [convertUnchecked_through_wider hwidth, convertUnchecked_of_toInt? h]
  · intro own wide hkind hwidth
    -- the value is the one of its own kind that is congruent to its number
    have hown : value = wrapInteger own n :=
      eq_wrapInteger_of_isResidue ⟨hkind, n, h, Int.ModEq.refl n⟩
    refine ⟨_, convertUnchecked_of_toInt? h wide, ?_⟩
    rw [convertUnchecked_through_wider hwidth, ← hown]

/-- A negative number of sixteen bits has its bits repeated to the left in an unsigned kind of
sixty-four bits, comes back from there, and is cut to its low byte on the way through
thirty-two bits as it is directly. -/
theorem convertUnchecked_wraps_negative :
    (∃ result, (integer .i16 0xfe80).convertUnchecked (.integer .u64) = .ok result ∧
      result = integer .u64 0xfffffffffffffe80 ∧
      result.convertUnchecked (.integer .i16) = .ok (integer .i16 0xfe80)) ∧
    (∃ middle, (integer .i16 0xfe80).convertUnchecked (.integer .u32) = .ok middle ∧
      middle.convertUnchecked (.integer .i8) = .ok (integer .i8 0x80)) := by
  have hnumber : (integer .i16 0xfe80).toInt? = some (-384) := by decide
  obtain ⟨hresidue, hthrough, hback⟩ := convertUnchecked_wraps hnumber
  constructor
  · obtain ⟨result, hresult, -, hunique⟩ := hresidue .u64
    obtain ⟨middle, hmiddle, hsame⟩ := hback .i16 .u64 (by decide) (by decide)
    obtain rfl : middle = result := Except.ok.inj (hmiddle.symm.trans hresult)
    exact ⟨middle, hmiddle, (hunique _ ⟨by decide, _, rfl, by decide⟩).symm, hsame⟩
  · obtain ⟨middle, hmiddle, hsame⟩ := hthrough .u32 .i8 (by decide)
    exact ⟨middle, hmiddle, hsame.trans (by decide)⟩

end Value

end TypedStack
