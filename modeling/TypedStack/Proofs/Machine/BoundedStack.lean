import TypedStack.Machine.Stack
import TypedStack.Proofs.Machine.Log

/-!
# Operand stacks are bounded and last in, first out

Operations change a stack in place, one after the other, and some of them fail. Seen from the
bottom up, the values of a stack are a list to whose end values are put and from whose end they
are taken. It never gets longer than the limit, so that whatever was taken off can be put back.

A place below the top is counted by a machine word. The places that hold a value are told from
those that do not for every word but the greatest, for which there is no answer at all.
-/

namespace TypedStack

namespace OperandStack

variable {stack after : OperandStack} {value : Value} {values : List Value} {n : Nat}

/-! ## What operations do to the values from the bottom up -/

/-- Values are put on top of a stack if they all fit. -/
def Appends (stack : OperandStack) (values : List Value) (result : Except TrapKind OperandStack) :
    Prop :=
  (stack.depth + values.length ≤ stack.limit ∧ ∃ after, result = .ok after ∧
    after.limit = stack.limit ∧ after.toList = stack.toList ++ values) ∨
  (stack.limit < stack.depth + values.length ∧ result = .error .stackOverflow)

/-- The top `n` values of a stack are replaced by others if there are so many. -/
def Replaces (stack : OperandStack) (n : Nat) (others : List Value)
    (result : Except TrapKind (List Value × OperandStack)) : Prop :=
  (n ≤ stack.depth ∧ ∃ values below after, result = .ok (values, after) ∧ values.length = n ∧
    stack.toList = below ++ values ∧ after.limit = stack.limit ∧ after.toList = below ++ others) ∨
  (stack.depth < n ∧ result = .error .stackUnderflow)

theorem appends_extend (stack : OperandStack) (values : List Value) :
    stack.Appends values (stack.extend values) := by
  by_cases hroom : stack.depth + values.length ≤ stack.limit
  · refine .inl ⟨hroom, _, extend_eq_ok.2 ⟨hroom, rfl⟩, rfl, ?_⟩
    simp [toList]
  · have hfull := Nat.lt_of_not_le hroom
    exact .inr ⟨hfull, extend_eq_error.2 ⟨hfull, rfl⟩⟩

theorem push_eq_extend (stack : OperandStack) (value : Value) :
    stack.push value = stack.extend [value] := rfl

theorem replaces_popN (stack : OperandStack) (n : Nat) :
    stack.Replaces n [] (stack.popN n) := by
  by_cases hdepth : n ≤ stack.depth
  · refine .inl ⟨hdepth, _, (stack.values.drop n).reverse, _, popN_eq_ok.2 ⟨hdepth, rfl, rfl⟩,
      ?_, ?_, rfl, ?_⟩
    · rw [List.length_reverse, List.length_take_of_le hdepth]
    · rw [toList, ← List.reverse_append, List.take_append_drop]
    · rw [List.append_nil, toList]
  · have hshort := Nat.lt_of_not_le hdepth
    exact .inr ⟨hshort, popN_eq_error.2 ⟨hshort, rfl⟩⟩

theorem replaces_pop (stack : OperandStack) :
    stack.Replaces 1 [] (stack.pop.map fun found => ([found.1], found.2)) := by
  cases hvalues : stack.values with
  | nil =>
    have hpop := pop_eq_error.2 ⟨hvalues, rfl⟩
    refine .inr ⟨by simp [depth, hvalues], ?_⟩
    rw [hpop]
    rfl
  | cons top rest =>
    have hpop : stack.pop = .ok (top, ⟨stack.limit, rest⟩) := pop_eq_ok.2 ⟨hvalues, rfl⟩
    refine .inl ⟨by simp [depth, hvalues], [top], rest.reverse, ⟨stack.limit, rest⟩, ?_, rfl,
      ?_, rfl, ?_⟩
    · rw [hpop]
      rfl
    · rw [toList, hvalues, List.reverse_cons]
    · rw [List.append_nil, toList]

theorem replaces_replaceTop (stack : OperandStack) (value : Value) :
    stack.Replaces 1 [value]
      ((stack.replaceTop value).map fun found => ([found.1], found.2)) := by
  cases hvalues : stack.values with
  | nil =>
    have hreplace : stack.replaceTop value = .error .stackUnderflow :=
      replaceTop_eq_error.2 ⟨hvalues, rfl⟩
    refine .inr ⟨by simp [depth, hvalues], ?_⟩
    rw [hreplace]
    rfl
  | cons top rest =>
    have hreplace : stack.replaceTop value = .ok (top, ⟨stack.limit, value :: rest⟩) :=
      replaceTop_eq_ok.2 ⟨rest, hvalues, rfl⟩
    refine .inl ⟨by simp [depth, hvalues], [top], rest.reverse, ⟨stack.limit, value :: rest⟩,
      ?_, rfl, ?_, rfl, ?_⟩
    · rw [hreplace]
      rfl
    · rw [toList, hvalues, List.reverse_cons]
    · rw [toList, List.reverse_cons]

theorem Appends.fits (h : stack.Appends values (.ok after)) :
    after.limit = stack.limit ∧ after.Fits := by
  rcases h with ⟨hroom, found, hfound, hlimit, hvalues⟩ | ⟨-, herror⟩
  · cases hfound
    refine ⟨hlimit, ?_⟩
    rw [Fits, ← length_toList, hvalues, List.length_append, length_toList, hlimit]
    exact hroom
  · cases herror

theorem Replaces.fits {others : List Value} (h : stack.Replaces n others (.ok (values, after)))
    (hothers : others.length ≤ n) (hfits : stack.Fits) :
    after.limit = stack.limit ∧ after.Fits := by
  rcases h with ⟨-, taken, below, found, hfound, hlength, hstack, hlimit, hafter⟩ | ⟨-, herror⟩
  · cases hfound
    refine ⟨hlimit, ?_⟩
    rw [Fits, ← length_toList, hstack, List.length_append] at hfits
    rw [Fits, ← length_toList, hafter, List.length_append, hlimit]
    omega
  · cases herror

/-- What was taken off a stack that keeps its limit can be put back. -/
theorem extend_of_popN (hfits : stack.Fits) (h : stack.popN n = .ok (values, after)) :
    after.extend values = .ok stack := by
  obtain ⟨hdepth, rfl, rfl⟩ := popN_eq_ok.1 h
  refine extend_eq_ok.2 ⟨?_, ?_⟩
  · simp only [Fits, depth, List.length_drop, List.length_reverse, List.length_take]
      at hfits hdepth ⊢
    omega
  · rw [List.reverse_reverse, List.take_append_drop]

/-! ## Looking below the top -/

/-- The value has `n` others above it. -/
def IsAt (stack : OperandStack) (n : Nat) (value : Value) : Prop :=
  ∃ below above, stack.toList = below ++ value :: above ∧ above.length = n

theorem isAt_of_below (h : stack.below n = .ok value) : stack.IsAt n value := by
  have hvalue : stack.values[n]? = some value := by
    unfold below at h
    split at h
    · rename_i hvalue
      cases h
      exact hvalue
    · cases h
  obtain ⟨hn, rfl⟩ := List.getElem?_eq_some_iff.1 hvalue
  have hsplit := List.take_append_drop n stack.values
  rw [List.drop_eq_getElem_cons hn] at hsplit
  refine ⟨(stack.values.drop (n + 1)).reverse, (stack.values.take n).reverse, ?_, ?_⟩
  · have hvalues := congrArg List.reverse hsplit
    rw [List.reverse_append, List.reverse_cons, List.append_assoc] at hvalues
    exact hvalues.symm
  · rw [List.length_reverse, List.length_take_of_le (Nat.le_of_lt hn)]

theorem below_cases (stack : OperandStack) (n : Nat) :
    (n < stack.depth ∧ ∃ value, stack.IsAt n value ∧ stack.below n = .ok value) ∨
      (stack.depth ≤ n ∧ stack.below n = .error .stackUnderflow) := by
  cases hbelow : stack.below n with
  | error kind =>
    obtain ⟨hdepth, rfl⟩ := below_eq_error.1 hbelow
    exact .inr ⟨hdepth, rfl⟩
  | ok value =>
    refine .inl ⟨?_, value, isAt_of_below hbelow, rfl⟩
    apply Nat.lt_of_not_le
    intro hdepth
    cases hbelow.symm.trans (below_eq_error.2 ⟨hdepth, rfl⟩)

theorem referenceBelow_cases (stack : OperandStack) (n : Nat) :
    (n < stack.depth ∧ ∃ value, stack.IsAt n value ∧
      ((∃ reference, value = .ref reference ∧ stack.referenceBelow n = .ok reference) ∨
        (value.kind ≠ .ref ∧ stack.referenceBelow n = .error .stackTypeMismatch))) ∨
      (stack.depth ≤ n ∧ stack.referenceBelow n = .error .stackUnderflow) := by
  rcases stack.below_cases n with ⟨hn, value, hat, hbelow⟩ | ⟨hdepth, hbelow⟩
  · refine .inl ⟨hn, value, hat, ?_⟩
    cases value with
    | ref reference => exact .inl ⟨reference, rfl, by rw [referenceBelow, hbelow]⟩
    | _ => exact .inr ⟨by simp [Value.kind], by rw [referenceBelow, hbelow]⟩
  · exact .inr ⟨hdepth, by rw [referenceBelow, hbelow]⟩

theorem peekNth?_of_lt (stack : OperandStack) (h : n < maxWord) :
    stack.peekNth? n = some (stack.below n) := by
  rw [peekNth?, reach?, if_pos h, Option.map_some]

theorem peekReference?_of_lt (stack : OperandStack) (h : n < maxWord) :
    stack.peekReference? n = some (stack.referenceBelow n) := by
  rw [peekReference?, reach?, if_pos h, Option.map_some]

theorem reach?_maxWord : reach? maxWord = none :=
  if_neg (Nat.lt_irrefl maxWord)

/-! ## Operations in place -/

/-- An operation that may change a stack. -/
inductive Operation where
  | push (value : Value)
  | pop
  | replaceTop (value : Value)
  | popN (n : Nat)
  | extend (values : List Value)

/-- The values that an operation returns, and the stack behind it. -/
def Operation.apply : Operation → OperandStack → Except TrapKind (List Value × OperandStack)
  | push value, stack => (stack.push value).map fun after => ([], after)
  | pop, stack => stack.pop.map fun found => ([found.1], found.2)
  | replaceTop value, stack => (stack.replaceTop value).map fun found => ([found.1], found.2)
  | popN n, stack => stack.popN n
  | extend values, stack => (stack.extend values).map fun after => ([], after)

/-- Put values on top, whether there is room for them or not. -/
def grow (values : List Value) : Action OperandStack (List Value) := fun stack =>
  .ok [] { stack with values := values.reverse ++ stack.values }

/-- Take the top `n` values off, or all that there are. -/
def shrink (n : Nat) : Action OperandStack (List Value) := fun stack =>
  .ok (stack.values.take n).reverse { stack with values := stack.values.drop n }

/-- Carry out an operation in place: a check, then changes that do not fail. -/
def Operation.action : Operation → Action OperandStack (List Value)
  | push value => do
    Action.check (·.ensureRoom 1)
    grow [value]
  | pop => do
    Action.check (·.require 1)
    shrink 1
  | replaceTop value => do
    Action.check (·.require 1)
    let top ← shrink 1
    let _ ← grow [value]
    return top
  | popN n => do
    Action.check (·.require n)
    shrink n
  | extend values => do
    Action.check (·.ensureRoom values.length)
    grow values

/-- The stack that an operation leaves behind, whether it fails or not. -/
def perform (stack : OperandStack) (operation : Operation) : OperandStack :=
  match operation.action stack with
  | .ok _ after => after
  | .error _ after => after

/-- Carry out operations one after the other on a stack that starts without values. -/
def ofOperations (limit : Nat) (operations : List Operation) : OperandStack :=
  operations.foldl perform (.empty limit)

section Operations

variable {operation : Operation} {kind : TrapKind}

/-- In place an operation leaves the stack that it returns, and the same one as before if it
fails. -/
theorem Operation.action_eq_inPlace (operation : Operation) :
    operation.action = Action.inPlace operation.apply := by
  cases operation with
  | push value =>
    rw [action]
    refine Action.check_bind_eq_inPlace
      (fun stack _ => ([], { stack with values := value :: stack.values })) ?_ fun _ _ _ => rfl
    intro stack
    rw [apply, OperandStack.push, ensureRoom]
    split <;> rfl
  | extend values =>
    rw [action]
    refine Action.check_bind_eq_inPlace
      (fun stack _ => ([], { stack with values := values.reverse ++ stack.values })) ?_
      fun _ _ _ => rfl
    intro stack
    rw [apply, OperandStack.extend, ensureRoom]
    split <;> rfl
  | popN n =>
    rw [action]
    refine Action.check_bind_eq_inPlace
      (fun stack _ => ((stack.values.take n).reverse, { stack with values := stack.values.drop n }))
      ?_ fun _ _ _ => rfl
    intro stack
    rw [apply, OperandStack.popN, require]
    split <;> rfl
  | pop =>
    rw [action]
    refine Action.check_bind_eq_inPlace
      (fun stack _ => ((stack.values.take 1).reverse, { stack with values := stack.values.drop 1 }))
      ?_ fun _ _ _ => rfl
    rintro ⟨limit, _ | ⟨top, values⟩⟩ <;> rfl
  | replaceTop value =>
    rw [action]
    refine Action.check_bind_eq_inPlace
      (fun stack _ => ((stack.values.take 1).reverse,
        { stack with values := value :: stack.values.drop 1 })) ?_ fun _ _ _ => rfl
    rintro ⟨limit, _ | ⟨top, values⟩⟩ <;> rfl

theorem Operation.eq_of_action_error (h : operation.action stack = .error kind after) :
    after = stack := by
  rw [action_eq_inPlace] at h
  exact (Action.inPlace_eq_error.1 h).2

theorem Operation.apply_of_action (h : operation.action stack = .ok values after) :
    operation.apply stack = .ok (values, after) := by
  rw [action_eq_inPlace] at h
  exact Action.inPlace_eq_ok.1 h

/-- An operation that succeeds keeps the limit and does not exceed it. -/
theorem Operation.fits_of_apply (h : operation.apply stack = .ok (values, after))
    (hfits : stack.Fits) : after.limit = stack.limit ∧ after.Fits := by
  cases operation with
  | push value =>
    obtain ⟨pushed, hpair, hpush⟩ := map_eq_ok.1 h
    cases hpair
    rw [push_eq_extend] at hpush
    exact (hpush ▸ stack.appends_extend [value]).fits
  | extend more =>
    obtain ⟨extended, hpair, hextend⟩ := map_eq_ok.1 h
    cases hpair
    exact (hextend ▸ stack.appends_extend more).fits
  | pop =>
    have hreplaces := stack.replaces_pop
    rw [apply] at h
    rw [h] at hreplaces
    exact hreplaces.fits (Nat.zero_le _) hfits
  | replaceTop value =>
    have hreplaces := stack.replaces_replaceTop value
    rw [apply] at h
    rw [h] at hreplaces
    exact hreplaces.fits (Nat.le_refl _) hfits
  | popN n =>
    have hreplaces := stack.replaces_popN n
    rw [apply] at h
    rw [h] at hreplaces
    exact hreplaces.fits (Nat.zero_le _) hfits

theorem perform_fits (operation : Operation) (hfits : stack.Fits) :
    (stack.perform operation).limit = stack.limit ∧ (stack.perform operation).Fits := by
  unfold perform
  split
  · rename_i haction
    exact Operation.fits_of_apply (Operation.apply_of_action haction) hfits
  · rename_i haction
    rw [Operation.eq_of_action_error haction]
    exact ⟨rfl, hfits⟩

theorem fits_ofOperations (limit : Nat) (operations : List Operation) :
    (ofOperations limit operations).limit = limit ∧ (ofOperations limit operations).Fits := by
  have hempty : (empty limit).limit = limit ∧ (empty limit).Fits := ⟨rfl, Nat.zero_le _⟩
  refine List.foldlRecOn (motive := fun stack => stack.limit = limit ∧ stack.Fits) operations
    perform hempty ?_
  rintro stack ⟨rfl, hfits⟩ operation -
  exact perform_fits operation hfits

end Operations

/-- What a stack with a limit does. Its depth is within the limit. Values are put on top if
they all fit, and taken off the top if there are so many; those taken off are in order, and
putting them on again restores the stack. A place below the top holds the value with so many
others above it, or no value, as long as the place is not the greatest machine word. Whatever
fails leaves the stack as it was. -/
structure BoundedLifo (limit : Nat) (stack : OperandStack) : Prop where
  limit_eq : stack.limit = limit
  depth_le : stack.depth ≤ limit
  push : ∀ value, stack.Appends [value] (stack.push value)
  extend : ∀ values, stack.Appends values (stack.extend values)
  pop : stack.Replaces 1 [] (stack.pop.map fun found => ([found.1], found.2))
  replaceTop : ∀ value,
    stack.Replaces 1 [value] ((stack.replaceTop value).map fun found => ([found.1], found.2))
  popN : ∀ n, stack.Replaces n [] (stack.popN n)
  restored : ∀ n values after, stack.popN n = .ok (values, after) →
    after.extend values = .ok stack
  peekNth : ∀ n < maxWord,
    (n < stack.depth ∧ ∃ value, stack.IsAt n value ∧ stack.peekNth? n = some (.ok value)) ∨
      (stack.depth ≤ n ∧ stack.peekNth? n = some (.error .stackUnderflow))
  peekReference : ∀ n < maxWord,
    (n < stack.depth ∧ ∃ value, stack.IsAt n value ∧
      ((∃ reference, value = .ref reference ∧
          stack.peekReference? n = some (.ok reference)) ∨
        (value.kind ≠ .ref ∧ stack.peekReference? n = some (.error .stackTypeMismatch)))) ∨
      (stack.depth ≤ n ∧ stack.peekReference? n = some (.error .stackUnderflow))
  greatest : stack.peekNth? maxWord = none ∧ stack.peekReference? maxWord = none
  failing : ∀ (operation : Operation) kind after, operation.action stack = .error kind after →
    after = stack

/-- Whatever operations are carried out, the stack is bounded and last in, first out. -/
theorem ofOperations_boundedLifo (limit : Nat) (operations : List Operation) :
    BoundedLifo limit (ofOperations limit operations) := by
  obtain ⟨hlimit, hfits⟩ := fits_ofOperations limit operations
  generalize ofOperations limit operations = stack at hlimit hfits
  refine {
    limit_eq := hlimit
    depth_le := hlimit ▸ hfits
    push := fun value => stack.appends_extend [value]
    extend := stack.appends_extend
    pop := stack.replaces_pop
    replaceTop := stack.replaces_replaceTop
    popN := stack.replaces_popN
    restored := fun _ _ _ => extend_of_popN hfits
    peekNth := ?_
    peekReference := ?_
    greatest := ?_
    failing := fun _ _ _ => Operation.eq_of_action_error }
  · intro n hn
    simpa only [stack.peekNth?_of_lt hn, Option.some.injEq] using stack.below_cases n
  · intro n hn
    simpa only [stack.peekReference?_of_lt hn, Option.some.injEq] using stack.referenceBelow_cases n
  · simp only [peekNth?, peekReference?, reach?_maxWord, Option.map_none, and_self]

/-- At the place that the greatest machine word counts, a stack that holds no value there does
not tell so. -/
theorem greatest_place_unanswered :
    ¬∀ n ≤ maxWord, (ofOperations 1 []).depth ≤ n →
      (ofOperations 1 []).peekNth? n = some (.error .stackUnderflow) := by
  intro h
  have hunderflow := h maxWord (Nat.le_refl _) (Nat.zero_le _)
  rw [peekNth?, reach?_maxWord] at hunderflow
  cases hunderflow

end OperandStack

end TypedStack
