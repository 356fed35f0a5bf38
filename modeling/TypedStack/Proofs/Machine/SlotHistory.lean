import TypedStack.Machine.Slots
import TypedStack.Proofs.Machine.Log

/-!
# Slots follow their history

Operations work on argument and local slots in place, one after the other, and some of them
fail. What each returned is noted. The notes alone tell what a slot gives next: an argument
is there until it was moved out, and a local slot holds what was last put into it, be it a
value or the zero of a kind.
-/

namespace TypedStack

/-! ## Arguments -/

namespace Arguments

open TypedStack.Action

/-- An operation on arguments. -/
inductive Operation where
  | read (index : Nat)
  | take (index : Nat)
  deriving DecidableEq

/-- The slot that an operation is about. -/
def Operation.index : Operation → Nat
  | read index => index
  | take index => index

/-- The value that an operation returns, and the arguments behind it. -/
def Operation.apply : Operation → Arguments → Except TrapKind (Value × Arguments)
  | read index, arguments => (arguments.read index).map fun value => (value, arguments)
  | take index, arguments => arguments.take index

/-- Mark the argument in a slot as moved out. -/
def consume (index : Nat) : Action Arguments PUnit :=
  modify fun arguments =>
    ⟨arguments.slots.modify index fun argument => { argument with consumed := true }⟩

/-- Carry out an operation in place: a check, and then a change that does not fail. -/
def Operation.action : Operation → Action Arguments Value
  | read index => check (·.read index)
  | take index => do
    let value ← check (·.read index)
    consume index
    return value

/-- The operation has moved the argument in a slot out. -/
def takes (index : Nat) (note : Note Operation Value) : Bool :=
  note.operation == .take index && note.result.isOk

/-- Whether some operation has moved the argument in a slot out. -/
def taken (notes : List (Note Operation Value)) (index : Nat) : Bool :=
  notes.any (takes index)

variable {arguments after : Arguments} {operation : Operation} {index : Nat} {value : Value}
  {values : List Value} {notes : List (Note Operation Value)}

theorem read_eq_ok :
    arguments.read index = .ok value ↔ arguments.slots[index]? = some ⟨value, false⟩ := by
  unfold read
  rcases arguments.slots[index]? with _ | ⟨held, _ | _⟩ <;> simp

theorem slots_modify_of_read (h : arguments.read index = .ok value) :
    (arguments.slots.modify index fun argument => { argument with consumed := true }) =
      arguments.slots.set index ⟨value, true⟩ := by
  rw [List.modify_eq_set_getElem?, read_eq_ok.1 h]
  rfl

/-- In place an operation leaves the arguments that it returns, and the same ones as before if
it fails. -/
theorem Operation.action_eq_inPlace (operation : Operation) :
    operation.action = inPlace operation.apply := by
  cases operation with
  | read index => exact check_eq_inPlace _
  | take index =>
    rw [action]
    refine check_bind_eq_inPlace
      (fun (arguments : Arguments) value => (value, ⟨arguments.slots.set index ⟨value, true⟩⟩))
      (fun _ => rfl) ?_
    intro arguments value hread
    rw [← slots_modify_of_read hread]
    rfl

/-- Reading an argument and moving it out give the same answer. -/
theorem map_fst_take (arguments : Arguments) (index : Nat) :
    (arguments.take index).map Prod.fst = arguments.read index := by
  rw [take]
  cases arguments.read index <;> rfl

/-- An operation that succeeds has found a value in its slot, and marks the slot if it moves the
value out. -/
theorem Operation.slots_of_apply (h : operation.apply arguments = .ok (value, after)) :
    arguments.slots[operation.index]? = some ⟨value, false⟩ ∧
      ∀ index : Nat, after.slots[index]? =
        if operation = .take index then some ⟨value, true⟩ else arguments.slots[index]? := by
  cases operation with
  | read index =>
    obtain ⟨found, hpair, hread⟩ := map_eq_ok.1 h
    obtain ⟨rfl, rfl⟩ := Prod.mk.inj hpair
    exact ⟨read_eq_ok.1 hread, by simp⟩
  | take index =>
    obtain ⟨hread, rfl⟩ := take_eq_ok.1 h
    have hslot := read_eq_ok.1 hread
    obtain ⟨hindex, -⟩ := List.getElem?_eq_some_iff.1 hslot
    refine ⟨hslot, fun other => ?_⟩
    rw [List.getElem?_set]
    by_cases hother : index = other
    · simp [← hother, hindex]
    · simp [hother]

/-- What every operation keeps: each slot has the value it was filled with, and is marked if
it was moved out; that has happened once at most; and no other value was ever returned. -/
structure Tracked (values : List Value) (log : Log Arguments Operation Value) : Prop where
  slots_eq : log.state.slots =
    values.mapIdx fun index value => ⟨value, taken log.notes index⟩
  once : ∀ index, log.notes.countP (takes index) ≤ 1
  returned : ∀ note ∈ log.notes, ∀ value, note.result = .ok value →
    values[note.operation.index]? = some value

section

variable {log : Log Arguments Operation Value}

theorem tracked_start (values : List Value) : Tracked values ⟨.ofValues values, []⟩ := by
  refine ⟨List.ext_getElem? fun index => ?_, by simp, by simp⟩
  simp [ofValues, taken]

theorem takes_ok (index : Nat) (operation : Operation) (value : Value) :
    takes index ⟨operation, .ok value⟩ = decide (operation = .take index) := by
  simp [takes, Except.isOk, Except.toBool, beq_eq_decide]

theorem takes_error (index : Nat) (operation : Operation) (kind : TrapKind) :
    takes index ⟨operation, .error kind⟩ = false := by
  simp [takes, Except.isOk, Except.toBool]

theorem Tracked.slot_eq (h : Tracked values log) (index : Nat) :
    log.state.slots[index]? =
      values[index]?.map fun value => ⟨value, taken log.notes index⟩ := by
  rw [h.slots_eq, List.getElem?_mapIdx]

theorem Tracked.slot_eq_some {consumed : Bool} (h : Tracked values log)
    (hslot : log.state.slots[index]? = some ⟨value, consumed⟩) :
    values[index]? = some value ∧ taken log.notes index = consumed := by
  rw [h.slot_eq] at hslot
  obtain ⟨filled, hfilled, hargument⟩ := Option.map_eq_some_iff.1 hslot
  obtain ⟨rfl, rfl⟩ := Argument.mk.inj hargument
  exact ⟨hfilled, rfl⟩

theorem Tracked.succeeded (h : Tracked values log)
    (hok : operation.apply log.state = .ok (value, after)) :
    Tracked values ⟨after, ⟨operation, .ok value⟩ :: log.notes⟩ := by
  obtain ⟨hslot, hafter⟩ := Operation.slots_of_apply hok
  obtain ⟨hvalue, hfresh⟩ := h.slot_eq_some hslot
  refine ⟨List.ext_getElem? fun index => ?_, fun index => ?_, ?_⟩
  · rw [hafter, List.getElem?_mapIdx, taken, List.any_cons, takes_ok]
    by_cases htake : operation = .take index
    · obtain rfl : operation.index = index := by rw [htake, Operation.index]
      simp [← htake, hvalue]
    · simp [htake, h.slot_eq index, taken]
  · rw [List.countP_cons, takes_ok]
    by_cases htake : operation = .take index
    · -- the slot was not marked, so nothing has moved its value out before
      obtain rfl : operation.index = index := by rw [htake, Operation.index]
      have hnone : log.notes.countP (takes operation.index) = 0 := by
        simpa [taken] using hfresh
      simp [hnone, ← htake]
    · simpa [htake] using h.once index
  · intro note hnote found hfound
    rcases List.mem_cons.1 hnote with rfl | hnote
    · obtain rfl := Except.ok.inj hfound
      exact hvalue
    · exact h.returned note hnote found hfound

theorem Tracked.failed (h : Tracked values log) (operation : Operation) (kind : TrapKind) :
    Tracked values ⟨log.state, ⟨operation, .error kind⟩ :: log.notes⟩ := by
  refine ⟨?_, fun index => ?_, ?_⟩
  · simp [h.slots_eq, taken, takes_error]
  · simp [takes_error, h.once index]
  · intro note hnote value hvalue
    rcases List.mem_cons.1 hnote with rfl | hnote
    · cases hvalue
    · exact h.returned note hnote value hvalue

theorem tracked_run (values : List Value) (operations : List Operation) :
    Tracked values (Log.run Operation.action (.ofValues values) operations) := by
  refine Log.induct (motive := Tracked values) Operation.action_eq_inPlace (tracked_start values)
    ?_ ?_ operations
  · intro log operation value after hlog hok
    exact hlog.succeeded hok
  · intro log operation kind hlog _
    exact hlog.failed operation kind

end

/-- What an operation on a slot answers: the value that the slot was filled with, unless it was
moved out, or the cause that it was, or that there is no such slot. -/
structure Answered (values : List Value) (notes : List (Note Operation Value)) (index : Nat)
    (answer : Except TrapKind Value) : Prop where
  value_iff : ∀ value, answer = .ok value ↔
    values[index]? = some value ∧ taken notes index = false
  consumed_iff : answer = .error .slotAlreadyConsumed ↔ taken notes index = true
  invalid_iff : answer = .error .invalidSlot ↔ values.length ≤ index

/-- Arguments follow what was done with them since they were filled. Reading and moving out
answer by the notes, a value is moved out once at most, no other one was ever returned, and an
operation that fails leaves everything as it was. -/
structure FollowsHistory (values : List Value) (log : Log Arguments Operation Value) : Prop where
  length_eq : log.state.length = values.length
  read : ∀ index, Answered values log.notes index (log.state.read index)
  take : ∀ index, Answered values log.notes index ((log.state.take index).map Prod.fst)
  once : ∀ index, log.notes.countP (takes index) ≤ 1
  returned : ∀ note ∈ log.notes, ∀ value, note.result = .ok value →
    values[note.operation.index]? = some value
  inPlace : ∀ operation : Operation, operation.action = Action.inPlace operation.apply
  failing : ∀ (operation : Operation) kind after,
    operation.action log.state = .error kind after → after = log.state

section

variable {log : Log Arguments Operation Value}

/-- What was moved out of a slot was there. -/
theorem Tracked.lt_of_taken (h : Tracked values log) (htaken : taken log.notes index = true) :
    index < values.length := by
  obtain ⟨note, hnote, htakes⟩ := List.any_eq_true.1 htaken
  obtain ⟨hoperation, hresult⟩ := (Bool.and_eq_true _ _).mp htakes
  rcases hfound : note.result with kind | value
  · rw [hfound] at hresult
    cases hresult
  · have hvalue := h.returned note hnote value hfound
    rw [eq_of_beq hoperation, Operation.index] at hvalue
    exact (List.getElem?_eq_some_iff.1 hvalue).1

theorem Tracked.length_eq (h : Tracked values log) : log.state.length = values.length := by
  rw [length, h.slots_eq, List.length_mapIdx]

theorem Tracked.isConsumed_eq (h : Tracked values log) (index : Nat) :
    log.state.isConsumed index = taken log.notes index := by
  rw [isConsumed, h.slot_eq]
  cases htaken : taken log.notes index with
  | false => cases values[index]? <;> rfl
  | true => rw [List.getElem?_eq_getElem (h.lt_of_taken htaken)]; rfl

theorem Tracked.answered (h : Tracked values log) (index : Nat) :
    Answered values log.notes index (log.state.read index) where
  value_iff value := by
    rw [read_eq_ok, h.slot_eq]
    simp
  consumed_iff := by
    rw [read_eq_error, h.isConsumed_eq]
    simp
  invalid_iff := by
    rw [read_eq_error, h.length_eq]
    simp

theorem Tracked.followsHistory (h : Tracked values log) : FollowsHistory values log where
  length_eq := h.length_eq
  read := h.answered
  take index := by
    rw [map_fst_take]
    exact h.answered index
  once := h.once
  returned := h.returned
  inPlace := Operation.action_eq_inPlace
  failing operation kind after herror := by
    rw [operation.action_eq_inPlace] at herror
    exact (inPlace_eq_error.1 herror).2

end

end Arguments

/-! ## Local slots -/

/-- The kind that a local slot has. -/
def Locals.kindAt? (locals : Locals) (index : Nat) : Option Kind :=
  (locals.slot? index).bind LocalSlot.kind?

namespace Locals

open TypedStack.Action

/-- An operation on local slots. -/
inductive Operation where
  | init (index : Nat) (kind : Kind)
  | write (index : Nat) (value : Value)
  | checkWrite (index : Nat) (kind : Kind)
  | read (index : Nat)

/-- The slot that an operation is about. -/
def Operation.index : Operation → Nat
  | init index _ => index
  | write index _ => index
  | checkWrite index _ => index
  | read index => index

/-- What an operation puts into its slot, if it puts anything there. -/
def Operation.put? : Operation → Option LocalSlot
  | init _ kind => some (.declared kind)
  | write _ value => some (.holding value)
  | checkWrite _ _ => none
  | read _ => none

/-- The value that an operation returns, if it returns one, and the slots behind it. -/
def Operation.apply : Operation → Locals → Except TrapKind (Option Value × Locals)
  | init index kind, locals => (locals.init index kind).map fun after => (none, after)
  | write index value, locals => (locals.write index value).map fun after => (none, after)
  | checkWrite index kind, locals => (locals.checkWrite index kind).map fun _ => (none, locals)
  | read index, locals => (locals.read index).map fun value => (some value, locals)

/-- Check that there is a slot. -/
def requireSlot (locals : Locals) (index : Nat) : Except TrapKind Unit :=
  if index < locals.length then .ok () else .error .invalidSlot

/-- Put something into a slot, whatever was there. -/
def store (index : Nat) (slot : LocalSlot) : Action Locals PUnit :=
  modify fun locals => ⟨locals.slots.set index slot⟩

/-- Carry out an operation in place: a check, and then a change that does not fail. -/
def Operation.action : Operation → Action Locals (Option Value)
  | init index kind => do
    check (·.requireSlot index)
    store index (.declared kind)
    return none
  | write index value => do
    check (·.checkWrite index value.kind)
    store index (.holding value)
    return none
  | checkWrite index kind => do
    check (·.checkWrite index kind)
    return none
  | read index => do
    let value ← check (·.read index)
    return some value

variable {locals after : Locals} {operation : Operation} {index count : Nat}
  {answer : Option Value}

theorem init_eq_map (locals : Locals) (index : Nat) (kind : Kind) :
    locals.init index kind =
      (locals.requireSlot index).map fun _ => ⟨locals.slots.set index (.declared kind)⟩ := by
  by_cases hindex : index < locals.length
  · rw [init_eq_ok.2 ⟨hindex, rfl⟩, requireSlot, if_pos hindex]
    rfl
  · rw [init_eq_error.2 ⟨Nat.le_of_not_lt hindex, rfl⟩, requireSlot, if_neg hindex]
    rfl

/-- In place an operation leaves the slots that it returns, and the same ones as before if it
fails. -/
theorem Operation.action_eq_inPlace (operation : Operation) :
    operation.action = Action.inPlace operation.apply := by
  cases operation with
  | init index kind =>
    rw [action]
    refine check_bind_eq_inPlace
      (fun (locals : Locals) _ => (none, ⟨locals.slots.set index (.declared kind)⟩)) ?_
      fun _ _ _ => rfl
    intro locals
    rw [apply, init_eq_map]
    cases locals.requireSlot index <;> rfl
  | write index value =>
    rw [action]
    refine check_bind_eq_inPlace
      (fun (locals : Locals) _ => (none, ⟨locals.slots.set index (.holding value)⟩)) ?_
      fun _ _ _ => rfl
    intro locals
    rw [apply, Locals.write]
    cases locals.checkWrite index value.kind <;> rfl
  | checkWrite index kind =>
    exact check_bind_eq_inPlace (fun locals _ => (none, locals)) (fun _ => rfl) fun _ _ _ => rfl
  | read index =>
    exact check_bind_eq_inPlace (fun locals value => (some value, locals)) (fun _ => rfl)
      fun _ _ _ => rfl

/-! ### What an operation does -/

/-- The slots behind an operation that succeeds. -/
def Operation.effect (operation : Operation) (locals : Locals) : Locals :=
  match operation.put? with
  | none => locals
  | some slot => ⟨locals.slots.set operation.index slot⟩

theorem Operation.eq_effect_of_apply (h : operation.apply locals = .ok (answer, after)) :
    after = operation.effect locals := by
  cases operation with
  | init index kind =>
    obtain ⟨_, hpair, hinit⟩ := map_eq_ok.1 h
    obtain ⟨-, rfl⟩ := Prod.mk.inj hpair
    exact (init_eq_ok.1 hinit).2
  | write index value =>
    obtain ⟨_, hpair, hwrite⟩ := map_eq_ok.1 h
    obtain ⟨-, rfl⟩ := Prod.mk.inj hpair
    exact (write_eq_ok.1 hwrite).2
  | checkWrite index kind =>
    obtain ⟨_, hpair, -⟩ := map_eq_ok.1 h
    exact (Prod.mk.inj hpair).2.symm
  | read index =>
    obtain ⟨_, hpair, -⟩ := map_eq_ok.1 h
    exact (Prod.mk.inj hpair).2.symm

/-- There is nothing to be done with a slot that does not exist. -/
theorem Operation.apply_of_length_le (h : locals.length ≤ operation.index) :
    operation.apply locals = .error .invalidSlot := by
  cases operation with
  | init index kind => exact map_eq_error.2 (init_eq_error.2 ⟨h, rfl⟩)
  | write index value =>
    exact map_eq_error.2 (write_eq_error.2 (checkWrite_eq_error.2 (.inl ⟨h, rfl⟩)))
  | checkWrite index kind => exact map_eq_error.2 (checkWrite_eq_error.2 (.inl ⟨h, rfl⟩))
  | read index => exact map_eq_error.2 (read_eq_error.2 (.inl ⟨h, rfl⟩))

theorem Operation.lt_length_of_apply (h : operation.apply locals = .ok (answer, after)) :
    operation.index < locals.length := by
  apply Nat.lt_of_not_le
  intro hle
  cases h.symm.trans (apply_of_length_le hle)

theorem Operation.length_of_apply (h : operation.apply locals = .ok (answer, after)) :
    after.length = locals.length := by
  rw [eq_effect_of_apply h, effect]
  cases operation.put? with
  | none => rfl
  | some slot => exact List.length_set

/-- An operation changes its own slot at most, to what it puts there. -/
theorem Operation.slot?_of_apply (h : operation.apply locals = .ok (answer, after))
    (index : Nat) :
    after.slot? index =
      if operation.index = index then operation.put?.or (locals.slot? index)
      else locals.slot? index := by
  have hlt : operation.index < locals.slots.length := lt_length_of_apply h
  rw [eq_effect_of_apply h, effect]
  cases operation.put? with
  | none => simp
  | some slot =>
    rw [slot?, slot?, List.getElem?_set]
    by_cases hindex : operation.index = index
    · simp [← hindex, hlt]
    · simp [hindex]

/-! ### Kinds -/

theorem all_kind_eq_false {slot : LocalSlot} {kind : Kind} :
    slot.kind?.all (· == kind) = false ↔ ∃ held, slot.kind? = some held ∧ held ≠ kind := by
  cases slot.kind? <;> simp

/-- A slot is closed to the values of a kind if it has another one. -/
theorem checkWrite_eq_mismatch {kind : Kind} :
    locals.checkWrite index kind = .error .stackTypeMismatch ↔
      ∃ held, locals.kindAt? index = some held ∧ held ≠ kind := by
  rw [checkWrite_eq_error, kindAt?]
  cases locals.slot? index with
  | none => simp
  | some slot => simp [all_kind_eq_false]

theorem checkWrite_eq_ok {kind : Kind} :
    locals.checkWrite index kind = .ok () ↔
      index < locals.length ∧ ∀ held, locals.kindAt? index = some held → held = kind := by
  unfold checkWrite kindAt? slot? length
  cases hslot : locals.slots[index]? with
  | none => simp [Nat.not_lt.2 (List.getElem?_eq_none_iff.1 hslot)]
  | some slot =>
    have hindex : index < locals.slots.length := (List.getElem?_eq_some_iff.1 hslot).1
    cases hkind : slot.kind? <;> simp [hindex, hkind]

/-- Writing does not change the kind of a slot that has one. -/
theorem kind_eq_of_write {value : Value} {held : Kind}
    (h : locals.write index value = .ok after) (hheld : locals.kindAt? index = some held) :
    held = value.kind :=
  (checkWrite_eq_ok.1 (write_eq_ok.1 h).1).2 held hheld

/-- Only declaring a slot changes the kind that it has. -/
theorem Operation.kindAt?_of_apply {held : Kind}
    (h : operation.apply locals = .ok (answer, after)) (hheld : locals.kindAt? index = some held) :
    after.kindAt? index = some held ∨ ∃ declared, operation = .init index declared := by
  have hslot := slot?_of_apply h index
  by_cases hindex : operation.index = index
  · rw [if_pos hindex] at hslot
    cases operation with
    | init index kind => exact .inr ⟨kind, by rw [← hindex, Operation.index]⟩
    | write index value =>
      obtain ⟨_, -, hwrite⟩ := map_eq_ok.1 h
      obtain rfl := hindex
      refine .inl ?_
      rw [kindAt?, hslot]
      exact congrArg some (kind_eq_of_write hwrite hheld).symm
    | checkWrite index kind => exact .inl (by rw [kindAt?, hslot]; exact hheld)
    | read index => exact .inl (by rw [kindAt?, hslot]; exact hheld)
  · rw [if_neg hindex] at hslot
    exact .inl (by rw [kindAt?, hslot]; exact hheld)

/-! ### What slots hold -/

/-- The operation has put something into a slot. -/
def settles (index : Nat) (note : Note Operation (Option Value)) : Bool :=
  note.operation.index == index && note.operation.put?.isSome && note.result.isOk

/-- The last operation that has put something into a slot. -/
def latest? (notes : List (Note Operation (Option Value))) (index : Nat) : Option Operation :=
  (notes.find? (settles index)).map (·.operation)

/-- What a slot holds by the notes. -/
def slotBy (notes : List (Note Operation (Option Value))) (index : Nat) : LocalSlot :=
  ((latest? notes index).bind Operation.put?).getD .uninit

section

variable {notes : List (Note Operation (Option Value))} {log : Log Locals Operation (Option Value)}

theorem latest?_cons_ok (operation : Operation) (answer : Option Value) (index : Nat) :
    latest? (⟨operation, .ok answer⟩ :: notes) index =
      if operation.index = index ∧ operation.put?.isSome then some operation
      else latest? notes index := by
  have hsettles : settles index (⟨operation, .ok answer⟩ : Note Operation (Option Value)) =
      decide (operation.index = index ∧ operation.put?.isSome) := by
    simp [settles, Except.isOk, Except.toBool, beq_eq_decide]
  rw [latest?, List.find?_cons, hsettles]
  by_cases hput : operation.index = index ∧ operation.put?.isSome
  · simp [hput]
  · simp only [hput, decide_false, if_false]
    rfl

theorem latest?_cons_error (operation : Operation) (kind : TrapKind) (index : Nat) :
    latest? (⟨operation, .error kind⟩ :: notes) index = latest? notes index := by
  have hsettles : settles index (⟨operation, .error kind⟩ : Note Operation (Option Value)) =
      false := by
    simp [settles, Except.isOk, Except.toBool]
  rw [latest?, List.find?_cons, hsettles]
  rfl

theorem slotBy_cons_ok (operation : Operation) (answer : Option Value) (index : Nat) :
    slotBy (⟨operation, .ok answer⟩ :: notes) index =
      if operation.index = index then operation.put?.getD (slotBy notes index)
      else slotBy notes index := by
  rw [slotBy, latest?_cons_ok]
  by_cases hindex : operation.index = index
  · cases hput : operation.put? with
    | none => simp [slotBy]
    | some slot => simp [hindex, hput]
  · simp [hindex, slotBy]

theorem slotBy_cons_error (operation : Operation) (kind : TrapKind) (index : Nat) :
    slotBy (⟨operation, .error kind⟩ :: notes) index = slotBy notes index := by
  rw [slotBy, latest?_cons_error, slotBy]

/-- What every operation keeps: there are as many slots as there were, and they hold what the
notes say. -/
structure Tracked (count : Nat) (log : Log Locals Operation (Option Value)) : Prop where
  length_eq : log.state.length = count
  slot?_eq : ∀ index < count, log.state.slot? index = some (slotBy log.notes index)
  latest_lt : ∀ index operation, latest? log.notes index = some operation → index < count

theorem tracked_start (count : Nat) : Tracked count ⟨.blank count, []⟩ := by
  refine ⟨List.length_replicate, fun index hindex => ?_, fun index operation hlatest => ?_⟩
  · rw [slot?, blank, List.getElem?_replicate, if_pos hindex]
    rfl
  · cases hlatest

theorem Tracked.succeeded (h : Tracked count log)
    (hok : operation.apply log.state = .ok (answer, after)) :
    Tracked count ⟨after, ⟨operation, .ok answer⟩ :: log.notes⟩ := by
  refine ⟨(Operation.length_of_apply hok).trans h.length_eq, fun index hindex => ?_,
    fun index latest hlatest => ?_⟩
  · rw [Operation.slot?_of_apply hok, h.slot?_eq index hindex, slotBy_cons_ok]
    split
    · cases operation.put? <;> rfl
    · rfl
  · rw [latest?_cons_ok] at hlatest
    split at hlatest
    · rename_i hput
      rw [← hput.1, ← h.length_eq]
      exact Operation.lt_length_of_apply hok
    · exact h.latest_lt index latest hlatest

theorem Tracked.failed (h : Tracked count log) (operation : Operation) (kind : TrapKind) :
    Tracked count ⟨log.state, ⟨operation, .error kind⟩ :: log.notes⟩ := by
  refine ⟨h.length_eq, fun index hindex => ?_, fun index latest hlatest => ?_⟩
  · rw [slotBy_cons_error]
    exact h.slot?_eq index hindex
  · rw [latest?_cons_error] at hlatest
    exact h.latest_lt index latest hlatest

theorem tracked_run (count : Nat) (operations : List Operation) :
    Tracked count (Log.run Operation.action (.blank count) operations) := by
  refine Log.induct (motive := Tracked count) Operation.action_eq_inPlace (tracked_start count)
    ?_ ?_ operations
  · intro log operation answer after hlog hok
    exact hlog.succeeded hok
  · intro log operation kind hlog _
    exact hlog.failed operation kind

end

/-- Local slots follow what was done with them since they were blank. The last operation that
has put something into a slot tells what reading it gives: the value that was written, or the
zero of the kind that was declared, which references do not have; before that there is nothing
to read. A slot takes values of its kind only, and its kind changes only where it is declared.
No operation concerns another slot than its own, and one that fails leaves everything as it
was. -/
structure FollowsHistory (count : Nat) (log : Log Locals Operation (Option Value)) : Prop where
  length_eq : log.state.length = count
  latest_cases : ∀ index operation, latest? log.notes index = some operation →
    index < count ∧
      ((∃ value, operation = .write index value) ∨ ∃ kind, operation = .init index kind)
  read_written : ∀ index value, latest? log.notes index = some (.write index value) →
    log.state.read index = .ok value
  read_declared : ∀ index kind, latest? log.notes index = some (.init index kind) →
    (kind ≠ .ref → ∃ zero, Value.zero? kind = some zero ∧ log.state.read index = .ok zero) ∧
    (kind = .ref → log.state.read index = .error .uninitializedRead)
  read_blank : ∀ index < count, latest? log.notes index = none →
    log.state.read index = .error .uninitializedRead
  invalid : ∀ operation : Operation, count ≤ operation.index →
    operation.apply log.state = .error .invalidSlot
  checkWrite_iff : ∀ index kind, log.state.checkWrite index kind = .error .stackTypeMismatch ↔
    ∃ held, log.state.kindAt? index = some held ∧ held ≠ kind
  checkWrite_ok_iff : ∀ index kind, log.state.checkWrite index kind = .ok () ↔
    index < count ∧ ∀ held, log.state.kindAt? index = some held → held = kind
  write_iff : ∀ index value, log.state.write index value = .error .stackTypeMismatch ↔
    ∃ held, log.state.kindAt? index = some held ∧ held ≠ value.kind
  kind_kept : ∀ (operation : Operation) answer after,
    operation.action log.state = .ok answer after →
    ∀ index kind, log.state.kindAt? index = some kind →
      after.kindAt? index = some kind ∨ ∃ declared, operation = .init index declared
  others_kept : ∀ (operation : Operation) answer after,
    operation.action log.state = .ok answer after →
    ∀ index, index ≠ operation.index → after.slot? index = log.state.slot? index
  inPlace : ∀ operation : Operation, operation.action = Action.inPlace operation.apply
  failing : ∀ (operation : Operation) kind after,
    operation.action log.state = .error kind after → after = log.state

section

variable {log : Log Locals Operation (Option Value)}

/-- What was put into a slot last was put into this slot. -/
theorem latest?_cases {notes : List (Note Operation (Option Value))}
    (h : latest? notes index = some operation) :
    (∃ value, operation = .write index value) ∨ ∃ kind, operation = .init index kind := by
  obtain ⟨note, hfound, rfl⟩ := Option.map_eq_some_iff.1 h
  have hsettles := List.find?_some hfound
  simp only [settles, Bool.and_eq_true, beq_iff_eq] at hsettles
  obtain ⟨⟨rfl, hput⟩, -⟩ := hsettles
  cases hoperation : note.operation with
  | write index value => exact .inl ⟨value, rfl⟩
  | init index kind => exact .inr ⟨kind, rfl⟩
  | checkWrite index kind =>
    rw [hoperation] at hput
    cases hput
  | read index =>
    rw [hoperation] at hput
    cases hput

theorem Tracked.slot?_of_latest {slot : LocalSlot} (h : Tracked count log)
    (hlatest : latest? log.notes index = some operation) (hput : operation.put? = some slot) :
    log.state.slot? index = some slot := by
  rw [h.slot?_eq index (h.latest_lt index operation hlatest), slotBy, hlatest]
  simp [hput]

theorem read_of_holding {value : Value} (h : locals.slot? index = some (.holding value)) :
    locals.read index = .ok value := by
  rw [slot?] at h
  rw [read, h]

theorem read_of_declared {kind : Kind} (h : locals.slot? index = some (.declared kind))
    (hkind : kind ≠ .ref) :
    ∃ zero, Value.zero? kind = some zero ∧ locals.read index = .ok zero := by
  rw [slot?] at h
  rw [read, h]
  cases kind with
  | ref => exact absurd rfl hkind
  | integer kind => exact ⟨_, rfl, rfl⟩
  | float format => exact ⟨_, rfl, rfl⟩
  | bool => exact ⟨_, rfl, rfl⟩

theorem Tracked.followsHistory (h : Tracked count log) : FollowsHistory count log where
  length_eq := h.length_eq
  latest_cases index operation hlatest :=
    ⟨h.latest_lt index operation hlatest, latest?_cases hlatest⟩
  read_written index value hlatest := read_of_holding (h.slot?_of_latest hlatest rfl)
  read_declared index kind hlatest := by
    have hslot := h.slot?_of_latest hlatest rfl
    refine ⟨read_of_declared hslot, ?_⟩
    rintro rfl
    exact read_eq_error.2 (.inr ⟨.inr hslot, rfl⟩)
  read_blank index hindex hlatest := by
    have hslot := h.slot?_eq index hindex
    rw [slotBy, hlatest] at hslot
    exact read_eq_error.2 (.inr ⟨.inl hslot, rfl⟩)
  invalid operation hindex := Operation.apply_of_length_le (h.length_eq ▸ hindex)
  checkWrite_iff _ _ := checkWrite_eq_mismatch
  checkWrite_ok_iff _ _ := by rw [checkWrite_eq_ok, h.length_eq]
  write_iff index value := by rw [write_eq_error, checkWrite_eq_mismatch]
  kind_kept operation answer after haction index kind hkind := by
    rw [operation.action_eq_inPlace] at haction
    exact Operation.kindAt?_of_apply (inPlace_eq_ok.1 haction) hkind
  others_kept operation answer after haction index hindex := by
    rw [operation.action_eq_inPlace] at haction
    rw [Operation.slot?_of_apply (inPlace_eq_ok.1 haction), if_neg (Ne.symm hindex)]
  inPlace := Operation.action_eq_inPlace
  failing operation kind after haction := by
    rw [operation.action_eq_inPlace] at haction
    exact (inPlace_eq_error.1 haction).2

end

end Locals

/-! ## Both kinds of slots -/

/-- Whatever operations are carried out on arguments or on local slots, all of them are noted,
and the slots follow the notes. -/
theorem slots_follow_history :
    (∀ values operations,
      (Action.Log.run Arguments.Operation.action (.ofValues values) operations).notes.map
          (·.operation) = operations.reverse ∧
      Arguments.FollowsHistory values
        (Action.Log.run Arguments.Operation.action (.ofValues values) operations)) ∧
    ∀ count operations,
      (Action.Log.run Locals.Operation.action (.blank count) operations).notes.map
          (·.operation) = operations.reverse ∧
      Locals.FollowsHistory count
        (Action.Log.run Locals.Operation.action (.blank count) operations) := by
  refine ⟨fun values operations => ⟨Action.Log.operations_run _ _ _, ?_⟩,
    fun count operations => ⟨Action.Log.operations_run _ _ _, ?_⟩⟩
  · exact (Arguments.tracked_run values operations).followsHistory
  · exact (Locals.tracked_run count operations).followsHistory

end TypedStack
