import TypedStack.Conversion
import TypedStack.Proofs.Floating.WidenWord

/-!
# Checked conversion keeps the number

Values of different kinds are compared by their quantity. Each of the two exact conversions,
of integers and of floating-point numbers, answers with a value of the target kind that has
the same quantity, and with nothing only if the kind has none. For the floating-point
kinds this does not need the rounding to be right, only that it leaves alone what the kind
has: the result is read back and compared. Whole numbers are read back into a wide type
with bounds, which no kind of integers reaches.
-/

namespace TypedStack

open FloatBits (Represents)

/-- The quantity of a value that is not a reference. -/
def Value.quantity? : Value → Option Quantity
  | integer kind bits => some (.number (intOfBits kind bits))
  | float _ bits => some bits.quantity
  | bool b => some (.number (boolInt b))
  | ref _ => none

/-- Whether a kind has a value of the given quantity. -/
def Kind.Holds (kind : Kind) (quantity : Quantity) : Prop :=
  ∃ value : Value, value.kind = kind ∧ value.quantity? = some quantity

theorem Value.intOfBits_range (kind : IntegerKind) (bits : BitVec kind.bits) :
    kind.min ≤ intOfBits kind bits ∧ intOfBits kind bits ≤ kind.max := by
  unfold intOfBits IntegerKind.min IntegerKind.max
  by_cases hsigned : kind.isSigned = true
  · have hlow := BitVec.le_toInt bits
    have hhigh := BitVec.toInt_lt (x := bits)
    simp only [hsigned, if_true, Nat.pow_eq, Int.natCast_pow]
    exact ⟨hlow, Int.le_sub_one_of_lt hhigh⟩
  · have hhigh : (bits.toNat : Int) < (2 ^ kind.bits : Nat) := Int.ofNat_lt.2 bits.isLt
    simp only [hsigned, if_false, Bool.false_eq_true, Nat.pow_eq]
    exact ⟨Int.natCast_nonneg _, Int.le_sub_one_of_lt hhigh⟩

/-- Every kind of integers lies strictly within the wide type. -/
theorem IntegerKind.within_wide (kind : IntegerKind) :
    Datum.wideMin < kind.min ∧ kind.max < Datum.wideMax := by
  cases kind <;> decide

theorem IntegerKind.min_le_zero_le_max (kind : IntegerKind) : kind.min ≤ 0 ∧ 0 ≤ kind.max := by
  cases kind <;> decide

namespace Kind

variable {quantity : Quantity}

theorem represents_of_holds {format : FloatFormat} {q : ℚ} (h : (float format).Holds (.number q)) :
    Represents format q := by
  obtain ⟨value, hkind, hquantity⟩ := h
  cases value with
  | float format' bits =>
    cases hkind
    exact ⟨bits, Option.some.inj hquantity⟩
  | integer kind bits => cases hkind
  | bool b => cases hkind
  | ref reference => cases hkind

theorem exists_int_of_holds {kind : IntegerKind} (h : (integer kind).Holds quantity) :
    ∃ n : Int, quantity = .number n ∧ kind.min ≤ n ∧ n ≤ kind.max := by
  obtain ⟨value, hkind, hquantity⟩ := h
  cases value with
  | integer kind' bits =>
    cases hkind
    exact ⟨_, (Option.some.inj hquantity).symm, Value.intOfBits_range kind bits⟩
  | float format bits => cases hkind
  | bool b => cases hkind
  | ref reference => cases hkind

theorem exists_bool_of_holds (h : bool.Holds quantity) :
    ∃ b, quantity = .number (Value.boolInt b) := by
  obtain ⟨value, hkind, hquantity⟩ := h
  cases value with
  | bool b => exact ⟨b, (Option.some.inj hquantity).symm⟩
  | integer kind bits => cases hkind
  | float format bits => cases hkind
  | ref reference => cases hkind

theorem not_holds_ref : ¬ ref.Holds quantity := by
  rintro ⟨value, hkind, hquantity⟩
  cases value with
  | ref reference => cases hquantity
  | integer kind bits => cases hkind
  | float format bits => cases hkind
  | bool b => cases hkind

end Kind

namespace Value

variable {target : Kind} {quantity : Quantity} {n : Int} {x : FloatBits .binary64}

/-! ## Reading floating-point values -/

theorem toDouble?_eq_convert
    {format : FloatFormat} (h : format ≠ .binary64) (bits : FloatBits format) :
    (float format bits).toDouble? = some (bits.convert .binary64) := by
  cases format with
  | binary16 => exact congrArg some (FloatBits.convert_singleOfHalf bits)
  | binary32 => rfl
  | binary64 => exact absurd rfl h

theorem ofDouble_eq_convert
    {format : FloatFormat} (h : format ≠ .binary64) (x : FloatBits .binary64) :
    ofDouble format x = float format (x.convert format) := by
  cases format with
  | binary16 => exact congrArg (float .binary16) (FloatBits.halfOfDouble_eq_convert x)
  | binary32 => rfl
  | binary64 => exact absurd rfl h

theorem exists_toDouble? (format : FloatFormat) (bits : FloatBits format) :
    ∃ x, (float format bits).toDouble? = some x ∧ x.quantity = bits.quantity := by
  cases format with
  | binary16 =>
    exact ⟨_, toDouble?_eq_convert (by decide) bits, FloatBits.quantity_convert_binary64 bits⟩
  | binary32 => exact ⟨_, rfl, FloatBits.quantity_convert_binary64 bits⟩
  | binary64 => exact ⟨bits, rfl, rfl⟩

theorem exists_ofDouble (format : FloatFormat) (x : FloatBits .binary64) :
    ∃ bits, ofDouble format x = float format bits ∧
      ((∀ q, x.quantity = .number q → Represents format q) → bits.quantity = x.quantity) := by
  cases format with
  | binary16 => exact ⟨_, ofDouble_eq_convert (by decide) x, FloatBits.quantity_convert⟩
  | binary32 => exact ⟨_, rfl, FloatBits.quantity_convert⟩
  | binary64 => exact ⟨x, rfl, fun _ => rfl⟩

theorem wholeNumber?_float
    {format : FloatFormat} {bits : FloatBits format} (hlow : Datum.wideMin < n)
    (hhigh : n < Datum.wideMax) :
    (float format bits).wholeNumber? = some n ↔ bits.quantity = .number n := by
  obtain ⟨x, hx, hquantity⟩ := exists_toDouble? format bits
  rw [wholeNumber?, hx, Option.bind_some, Datum.integral?_eq_some hlow hhigh,
    ← FloatBits.quantity, hquantity]

/-! ## Exact answers -/

/-- What an exact conversion answers: a value of the target kind, or nothing if no value of
the kind has the quantity. -/
inductive Answers (target : Kind) (quantity : Quantity) : Option Value → Prop
  | held {value : Value} (kind_eq : value.kind = target)
      (quantity_eq : value.quantity? = some quantity) : Answers target quantity (some value)
  | missing (not_holds : ¬ target.Holds quantity) : Answers target quantity none

/-- An integer outside of the wide type stays outside of the kind when it is replaced with a
bound of the type. -/
theorem ofInteger?_bounded (kind : IntegerKind) (n : Int) :
    ofInteger? kind (max Datum.wideMin (min Datum.wideMax n)) = ofInteger? kind n := by
  obtain ⟨hlow, hhigh⟩ := kind.within_wide
  by_cases hwide : Datum.wideMin ≤ n ∧ n ≤ Datum.wideMax
  · rw [min_eq_right hwide.2, max_eq_right hwide.1]
  · unfold ofInteger?
    rw [if_neg (by omega), if_neg (by omega)]

theorem answers_ofInteger? (kind : IntegerKind) (n : Int) :
    Answers (.integer kind) (.number n) (ofInteger? kind n) := by
  unfold ofInteger?
  split
  · rename_i hrange
    have hn := Option.some.inj (toInt?_wrapInteger hrange.1 hrange.2)
    exact .held rfl (congrArg (fun n : Int => some (Quantity.number n)) hn)
  · rename_i hrange
    refine .missing fun hholds => hrange ?_
    obtain ⟨n', hn', hmin, hmax⟩ := Kind.exists_int_of_holds hholds
    obtain rfl : n = n' := by exact_mod_cast Quantity.number.inj hn'
    exact ⟨hmin, hmax⟩

/-- Integers strictly within the wide type are converted exactly. The greatest integer of the
type is not: the power of two next to it is read back as that integer. -/
theorem answers_exactOfInt?
    (target : Kind) (hlow : Datum.wideMin < n) (hhigh : n < Datum.wideMax) :
    Answers target (.number n) (exactOfInt? target n) := by
  cases target with
  | integer kind => exact answers_ofInteger? kind n
  | float format =>
    obtain ⟨bits, hbits, hexact⟩ := exists_ofDouble format (.ofInt .binary64 n)
    simp only [exactOfInt?, hbits, wholeNumber?_float hlow hhigh]
    split
    · rename_i hquantity
      exact .held rfl (congrArg some hquantity)
    · rename_i hquantity
      refine .missing fun hholds => hquantity ?_
      have hrepresents := Kind.represents_of_holds hholds
      have hdouble := FloatBits.quantity_ofInt hrepresents.binary64
      rw [hexact, hdouble]
      intro q hq
      rw [hdouble] at hq
      exact Quantity.number.inj hq ▸ hrepresents
  | bool =>
    simp only [exactOfInt?]
    split
    · rename_i hn
      exact .held rfl (by simp [quantity?, boolInt, hn])
    · split
      · rename_i hn
        exact .held rfl (by simp [quantity?, boolInt, hn])
      · rename_i hzero hone
        refine .missing fun hholds => ?_
        obtain ⟨b, hb⟩ := Kind.exists_bool_of_holds hholds
        have hn : n = boolInt b := by exact_mod_cast Quantity.number.inj hb
        cases b with
        | false => exact hzero hn
        | true => exact hone hn
  | ref => exact .missing Kind.not_holds_ref

theorem quantity_one : (FloatBits.ofInt .binary64 1).quantity = .number (boolInt true) :=
  Datum.toInt?_eq_some.1 (by decide)

theorem quantity_zero : (0 : FloatBits .binary64).quantity = .number (boolInt false) :=
  FloatBits.quantity_of_magnitude_eq_zero rfl

theorem answers_exactOfDouble? (target : Kind) (x : FloatBits .binary64) :
    Answers target x.quantity (exactOfDouble? target x) := by
  cases target with
  | integer kind =>
    simp only [exactOfDouble?, Datum.integral?_eq_map]
    cases hn : x.decode.toInt? with
    | some n =>
      rw [FloatBits.quantity, Datum.toInt?_eq_some.1 hn, Option.map_some, Option.bind_some,
        ofInteger?_bounded]
      exact answers_ofInteger? kind n
    | none =>
      refine .missing fun hholds => ?_
      obtain ⟨n, hquantity, -⟩ := Kind.exists_int_of_holds hholds
      rw [Datum.toInt?_eq_some.2 hquantity] at hn
      cases hn
  | float format =>
    obtain ⟨bits, hbits, hexact⟩ := exists_ofDouble format x
    obtain ⟨y, hy, hquantity⟩ := exists_toDouble? format bits
    simp only [exactOfDouble?, hbits, hy, Option.any_some, Bool.or_eq_true,
      ← FloatBits.quantity_eq_nan, FloatBits.numEq_iff, hquantity]
    split
    · rename_i hsame
      rcases hsame with hnan | ⟨-, hsame⟩
      · have hkept := hexact fun q hq => absurd (hnan.symm.trans hq) Quantity.noConfusion
        exact .held rfl (congrArg some hkept)
      · exact .held rfl (congrArg some hsame)
    · rename_i hsame
      refine .missing fun hholds => hsame ?_
      have hkept : bits.quantity = x.quantity := by
        apply hexact
        intro q hq
        rw [hq] at hholds
        exact Kind.represents_of_holds hholds
      by_cases hnan : x.quantity = .nan
      · exact .inl hnan
      · exact .inr ⟨by rwa [hkept], hkept⟩
  | bool =>
    simp only [exactOfDouble?, FloatBits.numEq_number quantity_zero,
      FloatBits.numEq_number quantity_one]
    split
    · rename_i hzero
      exact .held rfl (congrArg some hzero.symm)
    · split
      · rename_i hone
        exact .held rfl (congrArg some hone.symm)
      · rename_i hzero hone
        refine .missing fun hholds => ?_
        obtain ⟨b, hb⟩ := Kind.exists_bool_of_holds hholds
        cases b with
        | false => exact hzero hb
        | true => exact hone hb
  | ref => exact .missing Kind.not_holds_ref

/-! ## Checked conversion -/

/-- The value of kind `target` that holds exactly the number in a value. -/
def exactOf? (target : Kind) : Scalar → Option Value
  | .int n => exactOfInt? target n
  | .float x => exactOfDouble? target x
  | .bool b => exactOfInt? target (boolInt b)

variable {value result : Value}

theorem answers_exactOfInt?_boolInt (target : Kind) (b : Bool) :
    Answers target (.number (boolInt b)) (exactOfInt? target (boolInt b)) := by
  cases b with
  | false => exact answers_exactOfInt? target (by decide) (by decide)
  | true => exact answers_exactOfInt? target (by decide) (by decide)

theorem exists_answers (target : Kind) (h : value.kind ≠ .ref) :
    ∃ scalar quantity, value.scalar? = some scalar ∧ value.quantity? = some quantity ∧
      Answers target quantity (exactOf? target scalar) := by
  cases value with
  | integer kind bits =>
    obtain ⟨hlow, hhigh⟩ := kind.within_wide
    obtain ⟨hmin, hmax⟩ := intOfBits_range kind bits
    have hanswers :=
      answers_exactOfInt? target (hlow.trans_le hmin) (hmax.trans_lt hhigh)
    exact ⟨_, _, rfl, rfl, hanswers⟩
  | float format bits =>
    obtain ⟨x, hx, hquantity⟩ := exists_toDouble? format bits
    refine ⟨.float x, _, ?_, rfl, hquantity ▸ answers_exactOfDouble? target x⟩
    rw [scalar?, hx, Option.map_some]
  | bool b => exact ⟨_, _, rfl, rfl, answers_exactOfInt?_boolInt target b⟩
  | ref reference => exact absurd rfl h

theorem convertChecked_of_scalar
    {scalar : Scalar} (htarget : target ≠ .ref) (hscalar : value.scalar? = some scalar) :
    value.convertChecked target =
      if value.kind = target then .ok value
      else (exactOf? target scalar).elim (.error (.overflow value target)) .ok := by
  simp only [convertChecked, htarget, if_false, hscalar]
  congr 1
  cases scalar with
  | int n => cases hanswer : exactOfInt? target n <;> simp [exactOf?, hanswer]
  | float x => cases hanswer : exactOfDouble? target x <;> simp [exactOf?, hanswer]
  | bool b => cases hanswer : exactOfInt? target (boolInt b) <;> simp [exactOf?, hanswer]

/-- Between kinds of numbers, a conversion gives a value of the same quantity, unless the
target kind has none. -/
theorem convertChecked_cases (hvalue : value.kind ≠ .ref) (htarget : target ≠ .ref) :
    ∃ quantity, value.quantity? = some quantity ∧
      ((∃ result, value.convertChecked target = .ok result ∧ result.kind = target ∧
          result.quantity? = some quantity) ∨
        (value.convertChecked target = .error (.overflow value target) ∧
          ¬ target.Holds quantity)) := by
  obtain ⟨scalar, quantity, hscalar, hquantity, hanswers⟩ := exists_answers target hvalue
  refine ⟨quantity, hquantity, ?_⟩
  rw [convertChecked_of_scalar htarget hscalar]
  by_cases hkind : value.kind = target
  · rw [if_pos hkind]
    exact .inl ⟨value, rfl, hkind, hquantity⟩
  · rw [if_neg hkind]
    generalize exactOf? target scalar = answer at hanswers
    cases hanswers with
    | held hresult hresultQuantity => exact .inl ⟨_, rfl, hresult, hresultQuantity⟩
    | missing hmissing => exact .inr ⟨rfl, hmissing⟩

theorem convertChecked_notNumeric (h : value.kind = .ref ∨ target = .ref) :
    value.convertChecked target = .error (.notNumeric value.kind target) := by
  unfold convertChecked
  split
  · rfl
  · rename_i htarget
    have hkind := h.resolve_right htarget
    cases value with
    | ref reference => rfl
    | integer kind bits => cases hkind
    | float format bits => cases hkind
    | bool b => cases hkind

theorem convertChecked_eq_notNumeric {source kind : Kind} :
    value.convertChecked target = .error (.notNumeric source kind) ↔
      (value.kind = .ref ∨ target = .ref) ∧ source = value.kind ∧ kind = target := by
  constructor
  · intro h
    have href : value.kind = .ref ∨ target = .ref := by
      by_contra hnot
      obtain ⟨hvalue, htarget⟩ := not_or.1 hnot
      obtain ⟨_, -, ⟨result, hok, -⟩ | ⟨herror, -⟩⟩ := convertChecked_cases hvalue htarget
      · cases h.symm.trans hok
      · cases h.symm.trans herror
    cases h.symm.trans (convertChecked_notNumeric href)
    exact ⟨href, rfl, rfl⟩
  · rintro ⟨href, rfl, rfl⟩
    exact convertChecked_notNumeric href

/-- Checked conversion is exact and complete. A value that is not a reference is converted to
another kind of numbers just when that kind has a value of the same quantity; then the
result has the kind, the quantity, and the way back. Otherwise the number does not fit, and
with references nothing is converted. -/
theorem convertChecked_exact_and_complete (value : Value) (target : Kind) :
    (∀ source kind, value.convertChecked target = .error (.notNumeric source kind) ↔
      (value.kind = .ref ∨ target = .ref) ∧ source = value.kind ∧ kind = target) ∧
    (value.kind ≠ .ref → target ≠ .ref → ∃ quantity, value.quantity? = some quantity ∧
      ((∃ result, value.convertChecked target = .ok result) ↔ target.Holds quantity) ∧
      (∀ result, value.convertChecked target = .ok result →
        result.kind = target ∧ result.quantity? = some quantity ∧
        ∃ back, result.convertChecked value.kind = .ok back ∧ back.quantity? = some quantity) ∧
      (¬ target.Holds quantity →
        value.convertChecked target = .error (.overflow value target))) := by
  refine ⟨fun _ _ => convertChecked_eq_notNumeric, ?_⟩
  intro hvalue htarget
  obtain ⟨quantity, hquantity, ⟨result, hok, hkind, hresult⟩ | ⟨herror, hnot⟩⟩ :=
    convertChecked_cases hvalue htarget
  · have hholds : target.Holds quantity := ⟨result, hkind, hresult⟩
    refine ⟨quantity, hquantity, ⟨fun _ => hholds, fun _ => ⟨result, hok⟩⟩, ?_,
      fun hnot => absurd hholds hnot⟩
    intro result' hok'
    obtain rfl : result' = result := Except.ok.inj (hok'.symm.trans hok)
    refine ⟨hkind, hresult, ?_⟩
    -- the value itself is what the way back has to find
    have hback : value.kind.Holds quantity := ⟨value, rfl, hquantity⟩
    obtain ⟨quantity', hquantity', ⟨back, hok, -, hsame⟩ | ⟨-, hnot⟩⟩ :=
      convertChecked_cases (hkind ▸ htarget) hvalue
    · exact ⟨back, hok, by rw [hsame, ← hquantity', hresult]⟩
    · rw [hresult] at hquantity'
      exact absurd hback (Option.some.inj hquantity' ▸ hnot)
  · refine ⟨quantity, hquantity, ⟨?_, fun hholds => absurd hholds hnot⟩, ?_, fun _ => herror⟩
    · rintro ⟨result, hok⟩
      rw [herror] at hok
      cases hok
    · intro result hok
      rw [herror] at hok
      cases hok

/-- The greatest half-precision number is an integer, and the next integer is no
half-precision number. -/
theorem convertChecked_exact_and_complete_half :
    (∃ back, (float .binary16 0x7bff).convertChecked (.integer .u32) = .ok back ∧
      back.quantity? = some (.number 65504)) ∧
    ¬ (Kind.float .binary16).Holds (.number 65505) := by
  constructor
  · obtain ⟨quantity, hquantity, -, hresult, -⟩ :=
      (convertChecked_exact_and_complete (integer .u32 65504) (.float .binary16)).2
        (by decide) (by decide)
    obtain ⟨-, -, back, hback, hsame⟩ := hresult (float .binary16 0x7bff) (by decide)
    exact ⟨back, hback, hsame.trans (hquantity.symm.trans (by decide))⟩
  · obtain ⟨quantity, hquantity, hiff, -⟩ :=
      (convertChecked_exact_and_complete (integer .u32 65505) (.float .binary16)).2
        (by decide) (by decide)
    have herror : (integer .u32 65505).convertChecked (.float .binary16) =
        .error (.overflow (integer .u32 65505) (.float .binary16)) := by decide
    intro hholds
    obtain rfl : quantity = .number 65505 :=
      Option.some.inj (hquantity.symm.trans (by decide))
    obtain ⟨result, hok⟩ := hiff.2 hholds
    rw [herror] at hok
    cases hok

end Value

end TypedStack
