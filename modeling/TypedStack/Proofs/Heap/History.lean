import TypedStack.Proofs.Heap.Consistency

/-!
# Histories of a heap

A session carries out operations on a heap that starts without objects, and notes
what each of them returned. The notes alone tell what every address resolves to:
to the object that the address was returned for, unless it was released since. A
place of the heap may hold many objects one after the other, so this rests on the
consistency of places, which every operation keeps.
-/

namespace TypedStack

namespace Heap

/-- An operation that may change a heap. -/
inductive Operation where
  | insert (object : HeapObject)
  | create (element : Kind) (payload : List Value)
  | createBytes (bytes : List UInt8)
  | release (address : Address)

/-- What an operation returns: where it has put an object, or what it has taken
out. -/
inductive Answer where
  | address (address : Address)
  | object (object : HeapObject)

def Operation.update : Operation → Update Answer
  | insert object => .address <$> Heap.insert object
  | create element payload => .address <$> Heap.create element payload
  | createBytes bytes => .address <$> Heap.createBytes bytes
  | release address => .object <$> Heap.release address

/-- What an operation returns, and the heap that it leaves behind. -/
def Operation.perform (operation : Operation) (heap : Heap) :
    Except HeapError Answer × Heap :=
  match operation.update heap with
  | .ok answer after => (.ok answer, after)
  | .error e after => (.error e, after)

/-- The object that an operation is to put into the heap. -/
def Operation.object? : Operation → Option HeapObject
  | insert object => some object
  | create element payload => (HeapObject.make element payload).toOption
  | createBytes bytes => some (.ofBytes bytes)
  | release _ => none

structure Event where
  operation : Operation
  result : Except HeapError Answer

def Event.address? (event : Event) : Option Address :=
  match event.result with
  | .ok (.address address) => some address
  | .ok (.object _) | .error _ => none

def Event.object? (event : Event) : Option HeapObject :=
  match event.result with
  | .ok (.object object) => some object
  | .ok (.address _) | .error _ => none

/-- The operation returned `address` for `object`. -/
def Event.Creates (event : Event) (address : Address) (object : HeapObject) : Prop :=
  event.address? = some address ∧ event.operation.object? = some object

/-- The operation released `address`. -/
def Event.Releases (event : Event) (address : Address) : Prop :=
  event.operation = .release address ∧ event.object?.isSome

/-- A heap and what was done with it, the latest operation first. -/
structure Session where
  heap : Heap
  events : List Event

namespace Session

def start (policy : ReclaimPolicy) : Session :=
  ⟨.empty policy, []⟩

/-- Carry out an operation and note what it returned. -/
def perform (session : Session) (operation : Operation) : Session :=
  let (result, heap) := operation.perform session.heap
  ⟨heap, ⟨operation, result⟩ :: session.events⟩

/-- Carry out operations one after the other. -/
def ofOperations (policy : ReclaimPolicy) (operations : List Operation) : Session :=
  operations.foldl perform (start policy)

end Session

/-! ## What an operation can do -/

/-- The ways in which an operation can end: an object was put into the heap, or
taken out, or nothing was changed. -/
inductive Performed (heap : Heap) (operation : Operation) :
    Except HeapError Answer → Heap → Prop where
  | created {object : HeapObject} {address : Address} {after : Heap}
      (object_eq : operation.object? = some object)
      (inserted : Inserted heap object address after) :
      Performed heap operation (.ok (.address address)) after
  | released {object : HeapObject} {address : Address}
      (operation_eq : operation = .release address)
      (object_eq : heap.object? address = some object) :
      Performed heap operation (.ok (.object object)) (heap.vacate address)
  | failed (e : HeapError) : Performed heap operation (.error e) heap

section

variable {heap after : Heap} {operation : Operation} {result : Except HeapError Answer}
  {address : Address} {object : HeapObject}

theorem perform_of_insert
    (hupdate : operation.update = .address <$> Heap.insert object)
    (hinsert : Heap.insert object heap = .ok address after) :
    operation.perform heap = (.ok (.address address), after) := by
  simp only [Operation.perform, hupdate, Functor.map, EStateM.map, hinsert]

theorem perform_of_full
    (hupdate : operation.update = .address <$> Heap.insert object) (hfull : heap.Full) :
    operation.perform heap = (.error .exhausted, heap) := by
  simp only [Operation.perform, hupdate, Functor.map, EStateM.map, insert_of_full hfull]

theorem performed_of_insert
    (hobject : operation.object? = some object)
    (hupdate : operation.update = .address <$> Heap.insert object) (heap : Heap) :
    Performed heap operation (operation.perform heap).1 (operation.perform heap).2 := by
  unfold Operation.perform
  rw [hupdate]
  simp only [Functor.map, EStateM.map]
  cases hinsert : Heap.insert object heap with
  | ok address after => exact .created hobject (inserted_of_insert hinsert)
  | error e after =>
    rw [(of_insert_eq_error hinsert).2]
    exact .failed e

/-- Every operation ends in one of the three ways. -/
theorem performed (operation : Operation) (heap : Heap) :
    Performed heap operation (operation.perform heap).1 (operation.perform heap).2 := by
  cases operation with
  | insert object => exact performed_of_insert rfl rfl heap
  | createBytes bytes => exact performed_of_insert rfl rfl heap
  | create element payload =>
    cases hmake : HeapObject.make element payload with
    | ok object =>
      have hobject : (Operation.create element payload).object? = some object := by
        simp [Operation.object?, hmake, Except.toOption]
      have hupdate : (Operation.create element payload).update =
          .address <$> Heap.insert object := by
        simp only [Operation.update, create, hmake]
      exact performed_of_insert hobject hupdate heap
    | error mismatch =>
      have hperform : (Operation.create element payload).perform heap =
          (.error (.elementKind mismatch), heap) := by
        simp only [Operation.perform, Operation.update, create, hmake]
        rfl
      rw [hperform]
      exact .failed _
  | release address =>
    unfold Operation.perform
    simp only [Operation.update, Functor.map, EStateM.map]
    cases hrelease : Heap.release address heap with
    | ok object after =>
      obtain ⟨hobject, rfl⟩ := release_eq_ok.1 hrelease
      exact .released rfl hobject
    | error e after =>
      obtain ⟨-, -, rfl⟩ := release_eq_error.1 hrelease
      exact .failed e

theorem Performed.heap_eq_of_error
    (h : Performed heap operation result after) {e : HeapError} (herror : result = .error e) :
    after = heap := by
  cases h with
  | created _ _ => simp at herror
  | released _ _ => simp at herror
  | failed _ => rfl

theorem Session.perform_eq (session : Session) (operation : Operation) :
    ∃ result after, Performed session.heap operation result after ∧
      session.perform operation = ⟨after, ⟨operation, result⟩ :: session.events⟩ :=
  ⟨_, _, performed operation session.heap, rfl⟩

/-- Induction over sessions: the start, and an operation that ends in one of the
three ways. -/
theorem Session.induct
    {policy : ReclaimPolicy} {motive : Session → Prop}
    (hstart : motive (.start policy))
    (hperform : ∀ session operation result after, motive session →
      Performed session.heap operation result after →
      motive ⟨after, ⟨operation, result⟩ :: session.events⟩)
    (operations : List Operation) : motive (.ofOperations policy operations) := by
  refine List.foldlRecOn operations Session.perform hstart ?_
  intro session hsession operation _
  obtain ⟨result, after, hperformed, hsession'⟩ := session.perform_eq operation
  rw [hsession']
  exact hperform session operation result after hsession hperformed

end

/-! ## What addresses hold -/

/-- Some operation returned `address` for `object`, and no later one has released
it. -/
def Holds (events : List Event) (address : Address) (object : HeapObject) : Prop :=
  ∃ later event earlier, events = later ++ event :: earlier ∧
    event.Creates address object ∧ ∀ next ∈ later, ¬next.Releases address

section

variable {events : List Event} {event : Event} {address : Address} {object : HeapObject}

theorem not_holds_nil : ¬Holds [] address object := by
  rintro ⟨later, event, earlier, hevents, -, -⟩
  simp at hevents

theorem holds_cons :
    Holds (event :: events) address object ↔
      event.Creates address object ∨ Holds events address object ∧ ¬event.Releases address := by
  constructor
  · rintro ⟨later, created, earlier, hevents, hcreates, hkept⟩
    rcases List.cons_eq_append_iff.1 hevents with ⟨-, hfirst⟩ | ⟨rest, rfl, hrest⟩
    · obtain ⟨rfl, -⟩ := List.cons.inj hfirst
      exact .inl hcreates
    · have hrests : ∀ next ∈ rest, ¬next.Releases address := by
        intro next hnext
        exact hkept next (List.mem_cons_of_mem _ hnext)
      exact .inr ⟨⟨rest, created, earlier, hrest, hcreates, hrests⟩,
        hkept event List.mem_cons_self⟩
  · rintro (hcreates | ⟨⟨later, created, earlier, rfl, hcreates, hkept⟩, hevent⟩)
    · exact ⟨[], event, events, rfl, hcreates, by simp⟩
    · refine ⟨event :: later, created, earlier, rfl, hcreates, ?_⟩
      intro next hnext
      rcases List.mem_cons.1 hnext with rfl | hnext
      · exact hevent
      · exact hkept next hnext

theorem holds_cons_created
    {operation : Operation} {created : Address} {inserted : HeapObject}
    (hobject : operation.object? = some inserted) :
    Holds (⟨operation, .ok (.address created)⟩ :: events) address object ↔
      (address = created ∧ object = inserted) ∨ Holds events address object := by
  simp [holds_cons, Event.Creates, Event.Releases, Event.address?, Event.object?, hobject,
    eq_comm]

theorem holds_cons_released {released : Address} {taken : HeapObject} :
    Holds (⟨.release released, .ok (.object taken)⟩ :: events) address object ↔
      Holds events address object ∧ address ≠ released := by
  simp [holds_cons, Event.Creates, Event.Releases, Event.address?, Event.object?, eq_comm]

theorem holds_cons_failed {operation : Operation} {e : HeapError} :
    Holds (⟨operation, .error e⟩ :: events) address object ↔ Holds events address object := by
  simp [holds_cons, Event.Creates, Event.Releases, Event.address?, Event.object?]

end

/-! ## Sessions -/

namespace Session

/-- What every operation keeps: the places are consistent, addresses resolve to
what the notes say, and the objects that are there were put in and not taken
out. -/
structure Tracked (session : Session) : Prop where
  consistent : session.heap.Consistent
  object?_iff : ∀ address object,
    session.heap.object? address = some object ↔ Holds session.events address object
  live_add : session.heap.live + session.events.countP (·.object?.isSome) =
    session.events.countP (·.address?.isSome)

theorem tracked_start (policy : ReclaimPolicy) : (start policy).Tracked := by
  refine ⟨consistent_empty policy, ?_, rfl⟩
  intro address object
  simp [start, Heap.empty, Heap.object?, not_holds_nil]

variable {session : Session} {operation : Operation} {result : Except HeapError Answer}
  {after : Heap}

theorem Tracked.perform
    (h : session.Tracked) (hperformed : Performed session.heap operation result after) :
    Tracked ⟨after, ⟨operation, result⟩ :: session.events⟩ := by
  obtain ⟨hconsistent, hobject, hlive⟩ := h
  cases hperformed with
  | @created object address after object_eq inserted =>
    refine ⟨hconsistent.of_inserted inserted, ?_, ?_⟩
    · intro other found
      rw [inserted.object?_eq hconsistent, holds_cons_created object_eq, ← hobject]
      by_cases hother : other = address
      · have hbefore := inserted.object?_eq_none hconsistent
        simp [hother, hbefore, eq_comm]
      · simp [hother]
    · have hcount := inserted.live_eq
      dsimp only
      rw [List.countP_cons_of_neg (by simp [Event.object?]), List.countP_cons_of_pos rfl]
      omega
  | @released object address operation_eq object_eq =>
    refine ⟨hconsistent.vacate object_eq, ?_, ?_⟩
    · intro other found
      rw [operation_eq, object?_vacate object_eq, holds_cons_released, ← hobject]
      by_cases hother : other = address <;> simp [hother]
    · have hcount := hconsistent.live_vacate object_eq
      dsimp only
      rw [List.countP_cons_of_pos rfl, List.countP_cons_of_neg (by simp [Event.address?])]
      omega
  | failed e =>
    refine ⟨hconsistent, ?_, ?_⟩
    · intro other found
      rw [holds_cons_failed]
      exact hobject other found
    · rw [List.countP_cons_of_neg (by simp [Event.object?]),
        List.countP_cons_of_neg (by simp [Event.address?])]
      exact hlive

theorem operations_foldl (operations : List Operation) (session : Session) :
    (operations.foldl perform session).events.map (·.operation) =
      operations.reverse ++ session.events.map (·.operation) := by
  induction operations generalizing session with
  | nil => rfl
  | cons operation rest ih =>
    rw [List.foldl_cons, ih]
    simp [perform]

theorem operations_ofOperations (policy : ReclaimPolicy) (operations : List Operation) :
    (ofOperations policy operations).events.map (·.operation) = operations.reverse := by
  have hevents := operations_foldl operations (start policy)
  rw [start, List.map_nil, List.append_nil] at hevents
  exact hevents

theorem tracked_ofOperations (policy : ReclaimPolicy) (operations : List Operation) :
    (ofOperations policy operations).Tracked := by
  refine Session.induct (motive := Tracked) (tracked_start policy) ?_ operations
  intro session operation result after hsession hperformed
  exact hsession.perform hperformed

end Session

/-! ## Reading -/

section

variable {heap : Heap} {address : Address} {object : HeapObject}

/-- Whatever is done with the address gives the error that it names nothing. -/
structure Dangling (heap : Heap) (address : Address) : Prop where
  object : heap.object address = .error (.danglingReference address)
  reference : heap.reference address = .error (.danglingReference address)
  deref : ∀ index, heap.deref address index = .error (.danglingReference address)
  release : Heap.release address heap = .error (.danglingReference address) heap

theorem dangling_of_object? (h : heap.object? address = none) : heap.Dangling address := by
  have hobject : heap.object address = .error (.danglingReference address) :=
    object_eq_error.2 ⟨h, rfl⟩
  refine ⟨hobject, ?_, ?_, release_eq_error.2 ⟨h, rfl, rfl⟩⟩
  · simp [Heap.reference, hobject, Except.map]
  · intro index
    simp [Heap.deref, hobject]

/-- What is read through an address of an object: the length as element zero,
which is exact for a length that a machine word can hold, then the payload, and an
error behind it. -/
structure Reads (heap : Heap) (address : Address) (object : HeapObject) : Prop where
  length : heap.deref address 0 = .ok (.wrapInteger .usize object.length)
  length_exact : object.length ≤ IntegerKind.usize.max →
    (Value.wrapInteger .usize object.length).toInt? = some (object.length : Int)
  element : ∀ index value, object.payload[index]? = some value →
    heap.deref address (index + 1) = .ok value
  beyond : ∀ index, object.length < index →
    heap.deref address index = .error (.indexOutOfRange address index object.length)

theorem reads_of_object? (h : heap.object? address = some object) :
    heap.Reads address object := by
  have hobject : heap.object address = .ok object := object_eq_ok.2 h
  refine ⟨?_, ?_, ?_, ?_⟩
  · simp [Heap.deref, hobject, HeapObject.get?, HeapObject.header]
  · intro hlength
    exact Value.toInt?_wrapInteger (Int.natCast_nonneg _) hlength
  · intro index value hvalue
    simp [Heap.deref, hobject, HeapObject.get?, hvalue]
  · intro index hindex
    obtain ⟨position, rfl⟩ := Nat.exists_eq_add_one.2 (Nat.zero_lt_of_lt hindex)
    have hnone : object.payload[position]? = none := by
      apply List.getElem?_eq_none
      exact Nat.le_of_lt_succ hindex
    simp [Heap.deref, hobject, HeapObject.get?, hnone]

end

/-! ## The heap as a map -/

/-- The heap of a session is a map from addresses to objects that the notes
describe. An address resolves to the object it was returned for and reads as that
object, until it is released; every other address dangles. Releasing gives the
object back and concerns no other address. The objects that are there are those
put in and not taken out, and what fails changes nothing. -/
structure Session.Faithful (session : Session) : Prop where
  object_iff : ∀ address object,
    session.heap.object address = .ok object ↔ Holds session.events address object
  dangling : ∀ address, (∀ object, ¬Holds session.events address object) →
    session.heap.Dangling address
  release : ∀ address object, Holds session.events address object →
    ∃ after, Heap.release address session.heap = .ok object after ∧ after.Dangling address ∧
      ∀ other, other ≠ address → after.object other = session.heap.object other
  reads : ∀ address object, Holds session.events address object →
    session.heap.Reads address object
  length : session.events.countP (·.object?.isSome) ≤ session.events.countP (·.address?.isSome) ∧
    session.heap.live =
      session.events.countP (·.address?.isSome) - session.events.countP (·.object?.isSome)
  failing : ∀ (operation : Operation) e, (operation.perform session.heap).1 = .error e →
    (operation.perform session.heap).2 = session.heap

/-- Whatever operations are carried out, all of them are noted, and the heap is
the map that the notes describe. -/
theorem session_faithful (policy : ReclaimPolicy) (operations : List Operation) :
    (Session.ofOperations policy operations).events.map (·.operation) = operations.reverse ∧
      (Session.ofOperations policy operations).Faithful := by
  have htracked := Session.tracked_ofOperations policy operations
  refine ⟨Session.operations_ofOperations policy operations, ?_, ?_, ?_, ?_, ?_, ?_⟩
  · intro address object
    rw [object_eq_ok]
    exact htracked.object?_iff address object
  · intro address hnone
    apply dangling_of_object?
    rw [Option.eq_none_iff_forall_not_mem]
    intro object hobject
    exact hnone object ((htracked.object?_iff address object).1 hobject)
  · intro address object hholds
    have hobject := (htracked.object?_iff address object).2 hholds
    have hvacate := object?_vacate hobject
    refine ⟨_, release_eq_ok.2 ⟨hobject, rfl⟩, dangling_of_object? (by simp [hvacate]), ?_⟩
    intro other hother
    unfold Heap.object
    rw [hvacate, if_neg hother]
  · intro address object hholds
    exact reads_of_object? ((htracked.object?_iff address object).2 hholds)
  · have hlive := htracked.live_add
    omega
  · intro operation e herror
    exact (performed operation _).heap_eq_of_error herror

/-- A place that is used again: the address of the object that was there dangles,
and that of the one that is there resolves. -/
theorem session_faithful_recycled :
    Holds
      (Session.ofOperations .recycle
        [.createBytes [1], .release ⟨0, 0⟩, .createBytes [2]]).events ⟨0, 1⟩ (.ofBytes [2]) ∧
    (Session.ofOperations .recycle
      [.createBytes [1], .release ⟨0, 0⟩, .createBytes [2]]).heap.Dangling ⟨0, 0⟩ ∧
    (Session.ofOperations .recycle
      [.createBytes [1], .release ⟨0, 0⟩, .createBytes [2]]).heap.object ⟨0, 1⟩ =
        .ok (.ofBytes [2]) := by
  have hfaithful := (session_faithful .recycle
    [.createBytes [1], .release ⟨0, 0⟩, .createBytes [2]]).2
  have hholds : Holds
      (Session.ofOperations .recycle
        [.createBytes [1], .release ⟨0, 0⟩, .createBytes [2]]).events ⟨0, 1⟩ (.ofBytes [2]) :=
    ⟨[], _, _, rfl, ⟨rfl, rfl⟩, by simp⟩
  refine ⟨hholds, hfaithful.dangling ⟨0, 0⟩ ?_, (hfaithful.object_iff _ _).2 hholds⟩
  intro object hobject
  have hlive := (hfaithful.object_iff _ _).2 hobject
  cases hlive

end Heap

end TypedStack
