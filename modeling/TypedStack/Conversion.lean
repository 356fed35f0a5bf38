import TypedStack.Value.Render

/-!
# Conversion between kinds

Checked conversion succeeds only if the target kind holds exactly the same
number. Unchecked conversion always gives a value for numbers: integers wrap,
floating-point numbers are cut toward zero and kept within the range, and
anything that is not zero is true. Neither touches references. Integers become
floating-point numbers by way of the sixty-four bit format.
-/

namespace TypedStack

/-- Why a value was not converted. -/
inductive ConversionError where
  | overflow (value : Value) (target : Kind)
  | notNumeric (source target : Kind)
  deriving DecidableEq, Repr

/-- The wording of a conversion error. -/
def ConversionError.message : ConversionError → String
  | overflow value target =>
    value.render ++ " is not representable as " ++ target.name
  | notNumeric source target =>
    "cannot convert " ++ source.name ++ " to " ++ target.name

/-- The number in a value that is not a reference. -/
inductive Scalar where
  | int (n : Int)
  | float (bits : FloatBits .binary64)
  | bool (b : Bool)
  deriving DecidableEq, Repr

namespace Value

/-- The number in a value, if it is not a reference. -/
def scalar? (value : Value) : Option Scalar :=
  match value with
  | integer kind bits => some (.int (intOfBits kind bits))
  | float _ _ => value.toDouble?.map .float
  | bool b => some (.bool b)
  | ref _ => none

/-- The value of a floating-point kind nearest to a sixty-four bit number. -/
def ofDouble (format : FloatFormat) (x : FloatBits .binary64) : Value :=
  match format with
  | .binary16 => float .binary16 x.halfOfDouble
  | .binary32 => float .binary32 (x.convert .binary32)
  | .binary64 => float .binary64 x

/-- The integer a truth value stands for. -/
def boolInt (b : Bool) : Int :=
  if b then 1 else 0

/-- The integer that a floating-point value is equal to. -/
def wholeNumber? (value : Value) : Option Int :=
  value.toDouble?.bind fun x => x.decode.integral?

/-- The value of kind `target` that holds exactly the integer `n`. -/
def exactOfInt? (target : Kind) (n : Int) : Option Value :=
  match target with
  | .integer kind => ofInteger? kind n
  | .float format =>
    let converted := ofDouble format (.ofInt .binary64 n)
    if converted.wholeNumber? = some n then some converted else none
  | .bool => if n = 0 then some (bool false) else if n = 1 then some (bool true) else none
  | .ref => none

/-- The value of kind `target` that holds exactly the number `x`. What is not a
number has a counterpart in every floating-point format. -/
def exactOfDouble? (target : Kind) (x : FloatBits .binary64) : Option Value :=
  match target with
  | .integer kind => x.decode.integral?.bind (ofInteger? kind)
  | .float format =>
    let converted := ofDouble format x
    if x.isNaN || converted.toDouble?.any (·.numEq x) then some converted else none
  | .bool =>
    if x.numEq 0 then some (bool false)
    else if x.numEq (.ofInt .binary64 1) then some (bool true)
    else none
  | .ref => none

/-- Convert a value, provided that no information is lost. -/
def convertChecked (value : Value) (target : Kind) : Except ConversionError Value :=
  if target = .ref then .error (.notNumeric value.kind target)
  else
    match value.scalar? with
    | none => .error (.notNumeric value.kind target)
    | some scalar =>
      if value.kind = target then .ok value
      else
        let converted :=
          match scalar with
          | .int n => exactOfInt? target n
          | .float x => exactOfDouble? target x
          | .bool b => exactOfInt? target (boolInt b)
        match converted with
        | some result => .ok result
        | none => .error (.overflow value target)

/-- The value of kind `target` that an integer becomes without a range check. -/
def castInt? (target : Kind) (n : Int) : Option Value :=
  match target with
  | .integer kind => some (wrapInteger kind n)
  | .float format => some (ofDouble format (.ofInt .binary64 n))
  | .bool => some (bool (n != 0))
  | .ref => none

/-- The value of kind `target` that a number becomes without a range check. It is cut
toward zero into the wide type first and then kept within the range of the kind. -/
def castDouble? (target : Kind) (x : FloatBits .binary64) : Option Value :=
  match target with
  | .integer kind =>
    ofInteger? kind (max kind.min (min kind.max (x.decode.clamp Datum.wideMin Datum.wideMax)))
  | .float format => some (ofDouble format x)
  | .bool => some (bool (!x.numEq 0))
  | .ref => none

/-- Convert a value without a range check. -/
def convertUnchecked (value : Value) (target : Kind) : Except ConversionError Value :=
  let converted :=
    match value.scalar? with
    | none => none
    | some (.int n) => castInt? target n
    | some (.float x) => castDouble? target x
    | some (.bool b) => castInt? target (boolInt b)
  match converted with
  | some result => .ok result
  | none => .error (.notNumeric value.kind target)

/-! ## Kinds of what is converted -/

section

variable {value result : Value} {target : Kind} {n : Int} {x : FloatBits .binary64}

@[simp] theorem kind_ofDouble (format : FloatFormat) :
    (ofDouble format x).kind = .float format := by
  cases format <;> rfl

theorem kind_of_ofInteger? {kind : IntegerKind} (h : ofInteger? kind n = some result) :
    result.kind = .integer kind := by
  obtain ⟨_, ⟨⟩⟩ := Option.ite_none_right_eq_some.1 h
  rfl

theorem kind_of_exactOfInt? (h : exactOfInt? target n = some result) :
    result.kind = target := by
  cases target with
  | integer kind => exact kind_of_ofInteger? h
  | float format =>
    obtain ⟨_, ⟨⟩⟩ := Option.ite_none_right_eq_some.1 h
    exact kind_ofDouble format
  | bool =>
    simp only [exactOfInt?] at h
    split at h
    · exact Option.some.inj h ▸ rfl
    · obtain ⟨_, ⟨⟩⟩ := Option.ite_none_right_eq_some.1 h
      rfl
  | ref => simp [exactOfInt?] at h

theorem kind_of_exactOfDouble? (h : exactOfDouble? target x = some result) :
    result.kind = target := by
  cases target with
  | integer kind =>
    obtain ⟨n, _, hn⟩ := Option.bind_eq_some_iff.1 h
    exact kind_of_ofInteger? hn
  | float format =>
    obtain ⟨_, ⟨⟩⟩ := Option.ite_none_right_eq_some.1 h
    exact kind_ofDouble format
  | bool =>
    simp only [exactOfDouble?] at h
    split at h
    · exact Option.some.inj h ▸ rfl
    · obtain ⟨_, ⟨⟩⟩ := Option.ite_none_right_eq_some.1 h
      rfl
  | ref => simp [exactOfDouble?] at h

theorem kind_of_castInt? (h : castInt? target n = some result) : result.kind = target := by
  cases target with
  | integer kind => exact Option.some.inj h ▸ rfl
  | float format => exact Option.some.inj h ▸ kind_ofDouble format
  | bool => exact Option.some.inj h ▸ rfl
  | ref => simp [castInt?] at h

theorem kind_of_castDouble? (h : castDouble? target x = some result) :
    result.kind = target := by
  cases target with
  | integer kind => exact kind_of_ofInteger? h
  | float format => exact Option.some.inj h ▸ kind_ofDouble format
  | bool => exact Option.some.inj h ▸ rfl
  | ref => simp [castDouble?] at h

theorem kind_of_convertChecked (h : value.convertChecked target = .ok result) :
    result.kind = target := by
  unfold convertChecked at h
  split at h
  · cases h
  · cases hscalar : value.scalar? with
    | none => simp [hscalar] at h
    | some scalar =>
      simp only [hscalar] at h
      split at h
      · rename_i hkind
        cases h
        exact hkind
      · split at h
        · rename_i hconverted
          cases h
          cases scalar with
          | int n => exact kind_of_exactOfInt? hconverted
          | float x => exact kind_of_exactOfDouble? hconverted
          | bool b => exact kind_of_exactOfInt? hconverted
        · cases h

theorem kind_of_convertUnchecked (h : value.convertUnchecked target = .ok result) :
    result.kind = target := by
  unfold convertUnchecked at h
  cases hscalar : value.scalar? with
  | none => simp [hscalar] at h
  | some scalar =>
    simp only [hscalar] at h
    split at h
    · rename_i hconverted
      cases h
      cases scalar with
      | int n => exact kind_of_castInt? hconverted
      | float x => exact kind_of_castDouble? hconverted
      | bool b => exact kind_of_castInt? hconverted
    · cases h

/-- Nothing becomes a reference by conversion. -/
theorem kind_ne_ref_of_convertChecked (h : value.convertChecked target = .ok result) :
    result.kind ≠ .ref := by
  rw [kind_of_convertChecked h]
  rintro rfl
  simp [convertChecked] at h

theorem kind_ne_ref_of_convertUnchecked (h : value.convertUnchecked target = .ok result) :
    result.kind ≠ .ref := by
  rw [kind_of_convertUnchecked h]
  rintro rfl
  unfold convertUnchecked at h
  cases hscalar : value.scalar? with
  | none => simp [hscalar] at h
  | some scalar => cases scalar <;> simp [hscalar, castInt?, castDouble?] at h

end

end Value

end TypedStack
