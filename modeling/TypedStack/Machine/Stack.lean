import TypedStack.Trap

/-!
# Operand stacks

A stack of values with a limit on its depth. Operations either succeed or name
the cause of a trap, and a failing one leaves nothing changed, since it returns
no stack.
-/

namespace TypedStack

/-- Values with the top first, and how many there may be. -/
structure OperandStack where
  limit : Nat
  values : List Value
  deriving DecidableEq, Repr

namespace OperandStack

/-- The stack without values. -/
def empty (limit : Nat) : OperandStack :=
  ⟨limit, []⟩

/-- The number of values. -/
def depth (stack : OperandStack) : Nat :=
  stack.values.length

/-- Whether there is no value. -/
def isEmpty (stack : OperandStack) : Bool :=
  stack.values.isEmpty

/-- The values from the bottom up. -/
def toList (stack : OperandStack) : List Value :=
  stack.values.reverse

/-- Check that at least `n` values are there. -/
def require (stack : OperandStack) (n : Nat) : Except TrapKind Unit :=
  if n ≤ stack.depth then .ok () else .error .stackUnderflow

/-- Check that `n` more values fit. -/
def ensureRoom (stack : OperandStack) (n : Nat) : Except TrapKind Unit :=
  if stack.depth + n ≤ stack.limit then .ok () else .error .stackOverflow

/-- Put a value on top. -/
def push (stack : OperandStack) (value : Value) : Except TrapKind OperandStack :=
  if stack.depth + 1 ≤ stack.limit then .ok { stack with values := value :: stack.values }
  else .error .stackOverflow

/-- Take the top value off. -/
def pop (stack : OperandStack) : Except TrapKind (Value × OperandStack) :=
  match stack.values with
  | [] => .error .stackUnderflow
  | top :: rest => .ok (top, { stack with values := rest })

/-- The value `n` places below the top. -/
def below (stack : OperandStack) (n : Nat) : Except TrapKind Value :=
  match stack.values[n]? with
  | some value => .ok value
  | none => .error .stackUnderflow

/-- The top value. -/
def peek (stack : OperandStack) : Except TrapKind Value :=
  stack.below 0

/-- The reference `n` places below the top. -/
def referenceBelow (stack : OperandStack) (n : Nat) : Except TrapKind Reference :=
  match stack.below n with
  | .error kind => .error kind
  | .ok (.ref reference) => .ok reference
  | .ok _ => .error .stackTypeMismatch

/-- Put a value in the place of the top one, which is returned. -/
def replaceTop (stack : OperandStack) (value : Value) :
    Except TrapKind (Value × OperandStack) :=
  match stack.values with
  | [] => .error .stackUnderflow
  | top :: rest => .ok (top, { stack with values := value :: rest })

/-- Take the top `n` values off. They are returned with the top one last. -/
def popN (stack : OperandStack) (n : Nat) : Except TrapKind (List Value × OperandStack) :=
  if n ≤ stack.depth then
    .ok ((stack.values.take n).reverse, { stack with values := stack.values.drop n })
  else .error .stackUnderflow

/-- Push values, the last one ending on top, if they all fit. -/
def extend (stack : OperandStack) (values : List Value) : Except TrapKind OperandStack :=
  if stack.depth + values.length ≤ stack.limit then
    .ok { stack with values := values.reverse ++ stack.values }
  else .error .stackOverflow

/-- Whether no more values are there than may be. -/
def Fits (stack : OperandStack) : Prop :=
  stack.depth ≤ stack.limit

/-- The greatest machine word. -/
def maxWord : Nat := UInt64.size - 1

/-- The number of values that must be there for the one `n` places below the top
to exist, if a machine word can hold that number. -/
def reach? (n : Nat) : Option Nat :=
  if n < maxWord then some (n + 1) else none

/-- The value `n` places below the top, for a place counted by a machine word. A
place whose reach no machine word holds has no answer at all. -/
def peekNth? (stack : OperandStack) (n : Nat) : Option (Except TrapKind Value) :=
  (reach? n).map fun _ => stack.below n

/-- The reference `n` places below the top, for a place as in `peekNth?`. -/
def peekReference? (stack : OperandStack) (n : Nat) : Option (Except TrapKind Reference) :=
  (reach? n).map fun _ => stack.referenceBelow n

/-! ## When operations succeed and when they fail -/

section

variable {α : Type} {c : Prop} [Decidable c] {a b : α} {kind kind' : TrapKind}

theorem guard_eq_ok :
    (if c then Except.ok a else Except.error kind) = .ok b ↔ c ∧ b = a := by
  by_cases hc : c <;> simp [hc, eq_comm]

theorem map_guard {β : Type} (f : α → β) :
    (if c then Except.ok a else Except.error kind).map f =
      if c then .ok (f a) else .error kind := by
  by_cases hc : c <;> simp [hc, Except.map]

theorem guard_eq_error :
    (if c then Except.ok a else Except.error kind) = .error kind' ↔ ¬c ∧ kind' = kind := by
  by_cases hc : c <;> simp [hc, eq_comm]

end

section

variable {stack after : OperandStack} {value top : Value} {values : List Value} {n : Nat}
  {kind : TrapKind}

theorem require_eq_ok :
    stack.require n = .ok () ↔ n ≤ stack.depth := by
  simp [require]

theorem require_eq_error :
    stack.require n = .error kind ↔ stack.depth < n ∧ kind = .stackUnderflow := by
  rw [require, guard_eq_error, Nat.not_le]

theorem ensureRoom_eq_ok :
    stack.ensureRoom n = .ok () ↔ stack.depth + n ≤ stack.limit := by
  simp [ensureRoom]

theorem ensureRoom_eq_error :
    stack.ensureRoom n = .error kind ↔
      stack.limit < stack.depth + n ∧ kind = .stackOverflow := by
  rw [ensureRoom, guard_eq_error, Nat.not_le]

theorem push_eq_ok :
    stack.push value = .ok after ↔
      stack.depth < stack.limit ∧ after = ⟨stack.limit, value :: stack.values⟩ := by
  rw [push, guard_eq_ok, Nat.lt_iff_add_one_le]

theorem push_eq_error :
    stack.push value = .error kind ↔ stack.limit ≤ stack.depth ∧ kind = .stackOverflow := by
  rw [push, guard_eq_error, Nat.not_le, Nat.lt_succ_iff]

theorem pop_eq_ok :
    stack.pop = .ok (top, after) ↔
      stack.values = top :: after.values ∧ after.limit = stack.limit := by
  obtain ⟨limit, rest⟩ := after
  unfold pop
  split <;> rename_i hvalues
  · simp [hvalues]
  · simp only [hvalues, Except.ok.injEq, Prod.mk.injEq, mk.injEq, List.cons.injEq]
    grind

theorem pop_eq_error :
    stack.pop = .error kind ↔ stack.values = [] ∧ kind = .stackUnderflow := by
  unfold pop
  split <;> rename_i hvalues <;> simp [hvalues, eq_comm]

theorem below_eq_error :
    stack.below n = .error kind ↔ stack.depth ≤ n ∧ kind = .stackUnderflow := by
  unfold below depth
  cases hvalue : stack.values[n]? with
  | none => simp [List.getElem?_eq_none_iff.1 hvalue, eq_comm]
  | some value => simp [Nat.not_le_of_lt (List.getElem?_eq_some_iff.1 hvalue).1]

theorem mem_of_below (h : stack.below n = .ok value) : value ∈ stack.values := by
  unfold below at h
  split at h
  · rename_i hvalue
    cases h
    exact List.mem_of_getElem? hvalue
  · cases h

theorem mem_of_referenceBelow
    {reference : Reference} (h : stack.referenceBelow n = .ok reference) :
    .ref reference ∈ stack.values := by
  unfold referenceBelow at h
  split at h
  · cases h
  · rename_i hbelow
    cases h
    exact mem_of_below hbelow
  · cases h

/-- There is no value in that place, or it is no reference. -/
theorem referenceBelow_eq_error :
    stack.referenceBelow n = .error kind ↔
      (stack.depth ≤ n ∧ kind = .stackUnderflow) ∨
        ∃ value, stack.below n = .ok value ∧ value.kind ≠ .ref ∧ kind = .stackTypeMismatch := by
  unfold referenceBelow
  cases hvalue : stack.below n with
  | error cause =>
    obtain ⟨hdepth, rfl⟩ := below_eq_error.1 hvalue
    simp [hdepth, eq_comm]
  | ok value =>
    have hdepth : ¬stack.depth ≤ n := by
      intro hdepth
      rw [below_eq_error.2 ⟨hdepth, rfl⟩] at hvalue
      cases hvalue
    cases value <;> simp [hdepth, Value.kind, eq_comm]

theorem replaceTop_eq_ok :
    stack.replaceTop value = .ok (top, after) ↔
      ∃ rest, stack.values = top :: rest ∧ after = ⟨stack.limit, value :: rest⟩ := by
  unfold replaceTop
  split <;> rename_i hvalues
  · simp [hvalues]
  · simp [hvalues, and_assoc, eq_comm]

theorem replaceTop_eq_error :
    stack.replaceTop value = .error kind ↔ stack.values = [] ∧ kind = .stackUnderflow := by
  unfold replaceTop
  split <;> rename_i hvalues <;> simp [hvalues, eq_comm]

theorem popN_eq_ok :
    stack.popN n = .ok (values, after) ↔
      n ≤ stack.depth ∧ values = (stack.values.take n).reverse ∧
        after = ⟨stack.limit, stack.values.drop n⟩ := by
  rw [popN, guard_eq_ok, Prod.mk.injEq]

theorem popN_eq_error :
    stack.popN n = .error kind ↔ stack.depth < n ∧ kind = .stackUnderflow := by
  rw [popN, guard_eq_error, Nat.not_le]

theorem extend_eq_ok :
    stack.extend values = .ok after ↔
      stack.depth + values.length ≤ stack.limit ∧
        after = ⟨stack.limit, values.reverse ++ stack.values⟩ := by
  rw [extend, guard_eq_ok]

theorem extend_eq_error :
    stack.extend values = .error kind ↔
      stack.limit < stack.depth + values.length ∧ kind = .stackOverflow := by
  rw [extend, guard_eq_error, Nat.not_le]

/-- Taking all values off gives them from the bottom up. -/
theorem popN_depth : stack.popN stack.depth = .ok (stack.toList, .empty stack.limit) := by
  simp [popN_eq_ok, depth, toList, empty]

theorem Fits.popN (hfits : stack.Fits) (h : stack.popN n = .ok (values, after)) :
    after.Fits := by
  obtain ⟨-, -, rfl⟩ := popN_eq_ok.1 h
  simp only [Fits, depth, List.length_drop] at hfits ⊢
  omega

theorem fits_extend (h : stack.extend values = .ok after) : after.Fits := by
  obtain ⟨hroom, rfl⟩ := extend_eq_ok.1 h
  simp only [Fits, depth, List.length_append, List.length_reverse] at hroom ⊢
  omega

@[simp] theorem length_toList : stack.toList.length = stack.depth := by
  simp [toList, depth]

end

end OperandStack

end TypedStack
