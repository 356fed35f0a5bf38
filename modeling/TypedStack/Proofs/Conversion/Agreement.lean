import TypedStack.Proofs.Conversion

/-!
# Unchecked conversion extends checked conversion

Where checked conversion gives a value, unchecked conversion gives the same one: an integer
that fits a kind is neither wrapped nor cut off, and numbers are rounded alike. Checked
conversion leaves a value of the target kind as it is, while unchecked conversion takes
floating-point values through sixty-four bits and back. That changes nothing but the payload
of what is not a number.
-/

namespace TypedStack

namespace Value

/-- Whether a value is of a floating-point kind and not a number. -/
def isNaN : Value → Bool
  | float _ bits => bits.isNaN
  | _ => false

/-- The second value is the first one, bit for bit, or both are of the kind `target` and not
numbers. -/
def AgreesWith (target : Kind) (a b : Value) : Prop :=
  b = a ∨ (a.kind = target ∧ b.kind = target ∧ a.isNaN = true ∧ b.isNaN = true)

variable {value result : Value} {target : Kind} {scalar : Scalar} {n : Int}
  {x : FloatBits .binary64}

/-! ## Exact answers -/

theorem wrapInteger_of_ofInteger? {kind : IntegerKind} (h : ofInteger? kind n = some result) :
    kind.min ≤ n ∧ n ≤ kind.max ∧ wrapInteger kind n = result := by
  obtain ⟨⟨hmin, hmax⟩, hresult⟩ := Option.ite_none_right_eq_some.1 h
  exact ⟨hmin, hmax, Option.some.inj hresult⟩

theorem castInt?_of_exactOfInt? (h : exactOfInt? target n = some result) :
    castInt? target n = some result := by
  cases target with
  | integer kind => exact congrArg some (wrapInteger_of_ofInteger? h).2.2
  | float format => exact (Option.ite_none_right_eq_some.1 h).2
  | bool =>
    simp only [exactOfInt?] at h
    split at h
    · rename_i hzero
      rw [← h, hzero]
      rfl
    · obtain ⟨rfl, hresult⟩ := Option.ite_none_right_eq_some.1 h
      exact hresult
  | ref => cases h

/-- A whole number within the range of a kind is cut off neither at the bounds of the kind
nor at those of the wide type. -/
theorem clamp_of_integral? {kind : IntegerKind} (h : x.decode.integral? = some n)
    (hmin : kind.min ≤ n) (hmax : n ≤ kind.max) : x.decode.clamp kind.min kind.max = n := by
  obtain ⟨hlow, hhigh⟩ := kind.within_wide
  rw [Datum.integral?_eq_map, Option.map_eq_some_iff] at h
  obtain ⟨whole, hwhole, hbounded⟩ := h
  rw [Datum.clamp_of_toInt? hwhole]
  omega

/-- A number that is cut off at the bounds of the wide type first is then cut off at those of
the kind as it would be without. -/
theorem castDouble?_integer (kind : IntegerKind) (x : FloatBits .binary64) :
    castDouble? (.integer kind) x = some (wrapInteger kind (x.decode.clamp kind.min kind.max)) := by
  obtain ⟨hlow, hhigh⟩ := kind.within_wide
  obtain ⟨hmin, hmax⟩ := kind.min_le_zero_le_max
  have hclamp := x.decode.clamp_clamp hlow.le hhigh.le hmin hmax
  obtain ⟨hge, hle⟩ := x.decode.clamp_range hmin hmax
  rw [castDouble?, hclamp, ofInteger?, if_pos ⟨hge, hle⟩]

theorem castDouble?_of_exactOfDouble? (h : exactOfDouble? target x = some result) :
    castDouble? target x = some result := by
  cases target with
  | integer kind =>
    obtain ⟨n, hn, hresult⟩ := Option.bind_eq_some_iff.1 h
    obtain ⟨hmin, hmax, rfl⟩ := wrapInteger_of_ofInteger? hresult
    rw [castDouble?_integer, clamp_of_integral? hn hmin hmax]
  | float format => exact (Option.ite_none_right_eq_some.1 h).2
  | bool =>
    simp only [exactOfDouble?] at h
    split at h
    · rename_i hzero
      rw [← h, castDouble?, hzero]
      rfl
    · rename_i hzero
      obtain ⟨-, hresult⟩ := Option.ite_none_right_eq_some.1 h
      rw [← hresult, castDouble?, Bool.eq_false_iff.2 hzero]
      rfl
  | ref => cases h

/-- The value of kind `target` that the number in a value becomes without a range check. -/
def castOf? (target : Kind) : Scalar → Option Value
  | .int n => castInt? target n
  | .float x => castDouble? target x
  | .bool b => castInt? target (boolInt b)

theorem castOf?_of_exactOf? (h : exactOf? target scalar = some result) :
    castOf? target scalar = some result := by
  cases scalar with
  | int n => exact castInt?_of_exactOfInt? h
  | float x => exact castDouble?_of_exactOfDouble? h
  | bool b => exact castInt?_of_exactOfInt? h

/-! ## Values of the target kind -/

theorem wrapInteger_intOfBits (kind : IntegerKind) (bits : BitVec kind.bits) :
    wrapInteger kind (intOfBits kind bits) = integer kind bits := by
  unfold wrapInteger intOfBits
  split
  · rw [BitVec.ofInt_toInt]
  · rw [BitVec.ofInt_natCast, BitVec.ofNat_toNat, BitVec.setWidth_eq]

theorem agreesWith_convert (format : FloatFormat) (bits : FloatBits format) :
    AgreesWith (.float format) (float format bits)
      (float format ((bits.convert .binary64).convert format)) := by
  have hwide := FloatBits.quantity_convert_binary64 bits
  by_cases hnan : bits.quantity = .nan
  · refine .inr ⟨rfl, rfl, FloatBits.quantity_eq_nan.1 hnan, ?_⟩
    rw [isNaN, ← FloatBits.quantity_eq_nan, FloatBits.quantity_convert, hwide, hnan]
    intro q hq
    cases hq.symm.trans (hwide.trans hnan)
  · rw [FloatBits.convert_convert hnan hwide]
    exact .inl rfl

/-- Through sixty-four bits and back, a floating-point value stays what it is. -/
theorem agreesWith_ofDouble
    {format : FloatFormat} {bits : FloatBits format}
    (h : (float format bits).toDouble? = some x) :
    AgreesWith (.float format) (float format bits) (ofDouble format x) := by
  cases format with
  | binary16 =>
    rw [toDouble?_eq_convert (by decide)] at h
    rw [← Option.some.inj h, ofDouble_eq_convert (by decide)]
    exact agreesWith_convert .binary16 bits
  | binary32 => exact Option.some.inj h ▸ agreesWith_convert .binary32 bits
  | binary64 => exact .inl (congrArg (float .binary64) (Option.some.inj h).symm)

theorem exists_castOf?_kind (h : value.scalar? = some scalar) :
    ∃ result, castOf? value.kind scalar = some result ∧ AgreesWith value.kind value result := by
  cases value with
  | integer kind bits =>
    cases h
    exact ⟨_, congrArg some (wrapInteger_intOfBits kind bits), .inl rfl⟩
  | float format bits =>
    obtain ⟨x, hx, rfl⟩ := Option.map_eq_some_iff.1 h
    exact ⟨_, rfl, agreesWith_ofDouble hx⟩
  | bool b =>
    cases h
    cases b with
    | false => exact ⟨_, rfl, .inl rfl⟩
    | true => exact ⟨_, rfl, .inl rfl⟩
  | ref reference => cases h

/-! ## Unchecked conversion -/

theorem convertUnchecked_of_scalar (h : value.scalar? = some scalar) :
    value.convertUnchecked target =
      (castOf? target scalar).elim (.error (.notNumeric value.kind target)) .ok := by
  simp only [convertUnchecked, h]
  cases scalar with
  | int n => cases hcast : castInt? target n <;> simp [castOf?, hcast]
  | float x => cases hcast : castDouble? target x <;> simp [castOf?, hcast]
  | bool b => cases hcast : castInt? target (boolInt b) <;> simp [castOf?, hcast]

theorem exists_castOf? (h : target ≠ .ref) (scalar : Scalar) :
    ∃ result, castOf? target scalar = some result := by
  cases target with
  | ref => exact absurd rfl h
  | integer kind =>
    cases scalar with
    | float x => exact ⟨_, castDouble?_integer kind x⟩
    | int n => exact ⟨_, rfl⟩
    | bool b => exact ⟨_, rfl⟩
  | float format => cases scalar <;> exact ⟨_, rfl⟩
  | bool => cases scalar <;> exact ⟨_, rfl⟩

/-- Between kinds of numbers, unchecked conversion gives a value. -/
theorem exists_convertUnchecked (hvalue : value.kind ≠ .ref) (htarget : target ≠ .ref) :
    ∃ result, value.convertUnchecked target = .ok result := by
  obtain ⟨scalar, -, hscalar, -⟩ := exists_answers target hvalue
  obtain ⟨result, hresult⟩ := exists_castOf? htarget scalar
  exact ⟨result, by rw [convertUnchecked_of_scalar hscalar, hresult]; rfl⟩

theorem convertUnchecked_notNumeric (h : value.kind = .ref ∨ target = .ref) :
    value.convertUnchecked target = .error (.notNumeric value.kind target) := by
  cases hscalar : value.scalar? with
  | none => simp only [convertUnchecked, hscalar]
  | some scalar =>
    have htarget : target = .ref := by
      refine h.resolve_left fun hkind => ?_
      cases value with
      | ref reference => cases hscalar
      | _ => cases hkind
    rw [convertUnchecked_of_scalar hscalar, htarget]
    cases scalar <;> rfl

theorem convertUnchecked_eq_error {e : ConversionError} :
    value.convertUnchecked target = .error e ↔
      (value.kind = .ref ∨ target = .ref) ∧ e = .notNumeric value.kind target := by
  constructor
  · intro h
    have href : value.kind = .ref ∨ target = .ref := by
      by_contra hnot
      obtain ⟨hvalue, htarget⟩ := not_or.1 hnot
      obtain ⟨result, hresult⟩ := exists_convertUnchecked hvalue htarget
      cases h.symm.trans hresult
    exact ⟨href, Except.error.inj (h.symm.trans (convertUnchecked_notNumeric href))⟩
  · rintro ⟨href, rfl⟩
    exact convertUnchecked_notNumeric href

theorem convertUnchecked_of_convertChecked (h : value.convertChecked target = .ok result) :
    ∃ result', value.convertUnchecked target = .ok result' ∧ AgreesWith target result result' := by
  have hnumeric : value.kind ≠ .ref ∧ target ≠ .ref := by
    refine not_or.1 fun href => ?_
    cases h.symm.trans (convertChecked_notNumeric href)
  obtain ⟨scalar, -, hscalar, -⟩ := exists_answers target hnumeric.1
  rw [convertChecked_of_scalar hnumeric.2 hscalar] at h
  rw [convertUnchecked_of_scalar hscalar]
  by_cases hkind : value.kind = target
  · rw [if_pos hkind] at h
    cases h
    obtain ⟨result', hcast, hagrees⟩ := exists_castOf?_kind hscalar
    rw [hkind] at hcast hagrees
    exact ⟨result', by rw [hcast]; rfl, hagrees⟩
  · rw [if_neg hkind] at h
    cases hexact : exactOf? target scalar with
    | none =>
      rw [hexact] at h
      cases h
    | some found =>
      rw [hexact] at h
      cases h
      exact ⟨_, by rw [castOf?_of_exactOf? hexact]; rfl, .inl rfl⟩

/-- Checked and unchecked conversion agree. Where the checked one gives a value, the unchecked
one gives the same pattern, or both give what is not a number. The unchecked one never
finds that a number does not fit. Both refuse references, as values and as targets, with
the same error and nothing else for this reason; so what the unchecked one refuses the
checked one refuses as well. -/
theorem convertUnchecked_agrees (value : Value) (target : Kind) :
    (∀ result, value.convertChecked target = .ok result →
      ∃ result', value.convertUnchecked target = .ok result' ∧ AgreesWith target result result') ∧
    (∀ culprit kind, value.convertUnchecked target ≠ .error (.overflow culprit kind)) ∧
    (∀ source kind, value.convertChecked target = .error (.notNumeric source kind) ↔
      (value.kind = .ref ∨ target = .ref) ∧ source = value.kind ∧ kind = target) ∧
    (∀ source kind, value.convertUnchecked target = .error (.notNumeric source kind) ↔
      (value.kind = .ref ∨ target = .ref) ∧ source = value.kind ∧ kind = target) ∧
    (∀ e, value.convertUnchecked target = .error e → value.convertChecked target = .error e) := by
  refine ⟨fun _ => convertUnchecked_of_convertChecked, ?_,
    fun _ _ => convertChecked_eq_notNumeric, ?_, ?_⟩
  · intro culprit kind h
    cases (convertUnchecked_eq_error.1 h).2
  · intro source kind
    rw [convertUnchecked_eq_error, ConversionError.notNumeric.injEq]
  · intro e h
    obtain ⟨href, rfl⟩ := convertUnchecked_eq_error.1 h
    exact convertChecked_notNumeric href

/-- A negative zero stays one, and what is not a number stays so. -/
theorem convertUnchecked_agrees_zero_and_nan :
    (float .binary16 0x8000).convertUnchecked (.float .binary32) =
      .ok (float .binary32 0x80000000) ∧
    ∃ result', (float .binary32 0x7f800001).convertUnchecked (.float .binary32) = .ok result' ∧
      result'.isNaN = true := by
  constructor
  · obtain ⟨result', hresult, rfl | ⟨-, -, hnan, -⟩⟩ :=
      (convertUnchecked_agrees (float .binary16 0x8000) (.float .binary32)).1
        (float .binary32 0x80000000) (by decide)
    · exact hresult
    · cases hnan
  · obtain ⟨result', hresult, rfl | ⟨-, -, -, hnan⟩⟩ :=
      (convertUnchecked_agrees (float .binary32 0x7f800001) (.float .binary32)).1
        (float .binary32 0x7f800001) (by decide)
    · exact ⟨_, hresult, rfl⟩
    · exact ⟨_, hresult, hnan⟩

/-- The pattern need not be the same: a signalling one becomes quiet. -/
example : (float .binary32 0x7f800001).convertUnchecked (.float .binary32) =
    .ok (float .binary32 0x7fc00001) := by
  decide

end Value

end TypedStack
