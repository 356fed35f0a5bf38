import TypedStack.Proofs.Heap.Freshness

/-!
# The representation of a heap

A heap is kept in four fields that depend on each other: its policy, its places, the list of
places to use again, and the number of objects. What ties them together holds whatever
operations have been carried out. So the place that an insertion takes from the list is always
there and never in use, and a release always finds an object to be counted off.
-/

namespace TypedStack

namespace Heap

/-- How many places a session has used up. -/
structure Session.Placed (policy : ReclaimPolicy) (session : Session) : Prop where
  policy_eq : session.heap.policy = policy
  size_le : session.heap.entries.size ≤ session.addresses.length
  retained : policy = .retain →
    session.heap.free = [] ∧ session.heap.entries.size = session.addresses.length

theorem Session.placed_ofOperations (policy : ReclaimPolicy) (operations : List Operation) :
    (ofOperations policy operations).Placed policy := by
  refine Session.induct (motive := Placed policy) ?_ ?_ operations
  · exact ⟨rfl, Nat.le_refl _, fun _ => ⟨rfl, rfl⟩⟩
  · intro session operation result after ⟨hpolicy, hsize, hretained⟩ hperformed
    cases hperformed with
    | created object_eq inserted =>
      cases inserted with
      | reused free_eq =>
        refine ⟨hpolicy, ?_, fun hretain => ?_⟩
        · simp only [Array.size_modify]
          exact Nat.le_succ_of_le hsize
        · rw [(hretained hretain).1] at free_eq
          cases free_eq
      | appended free_eq room =>
        refine ⟨hpolicy, ?_, fun hretain => ⟨free_eq, ?_⟩⟩
        · simp only [Array.size_push]
          exact Nat.succ_le_succ hsize
        · simp only [Array.size_push]
          exact congrArg Nat.succ (hretained hretain).2
    | released operation_eq object_eq =>
      refine ⟨hpolicy, ?_, fun hretain => ⟨?_, ?_⟩⟩
      · simp only [vacate, Array.size_modify]
        exact hsize
      · simp [vacate, hpolicy, hretain, (hretained hretain).1]
      · simp only [vacate, Array.size_modify]
        exact (hretained hretain).2
    | failed e => exact ⟨hpolicy, hsize, hretained⟩

variable {heap after : Heap} {object : HeapObject} {address : Address}

/-! ## What the operations rely on -/

/-- A place that holds an object holds the same one after an insertion. -/
theorem Inserted.getElem?_of_isSome (h : Inserted heap object address after)
    (hconsistent : heap.Consistent) {i : Nat} {entry : Entry}
    (hentry : heap.entries[i]? = some entry) (hheld : entry.object.isSome) :
    after.entries[i]? = some entry := by
  rw [h.getElem?_entries hconsistent, if_neg, hentry]
  rintro rfl
  rw [h.vacant hconsistent hentry] at hheld
  cases hheld

/-- Elements of two kinds are refused, and the heap is left as it was. -/
theorem create_of_mismatch {element : Kind} {payload : List Value} {value : Value}
    (hvalue : value ∈ payload) (hkind : value.kind ≠ element) (heap : Heap) :
    ∃ mismatch, create element payload heap = .error (.elementKind mismatch) heap := by
  cases hmake : HeapObject.make element payload with
  | error mismatch =>
    refine ⟨mismatch, ?_⟩
    rw [create, hmake]
    rfl
  | ok object =>
    obtain ⟨rfl, rfl⟩ := HeapObject.of_make hmake
    exact absurd (object.uniform value hvalue) hkind

/-- What ties the fields of a heap together. -/
structure Represented (policy : ReclaimPolicy) (heap : Heap) : Prop where
  policy_eq : heap.policy = policy
  live_eq : heap.live = heap.entries.countP (·.object.isSome)
  free_nodup : heap.free.Nodup
  free_vacant : ∀ index ∈ heap.free, ∃ entry,
    heap.entries[index.toNat]? = some entry ∧ entry.object = none
  free_retained : policy = .retain → heap.free = []
  uniform : ∀ entry ∈ heap.entries, ∀ object ∈ entry.object, ∀ value ∈ object.payload,
    value.kind = object.element

/-- What the operations rely on without looking. The place that an insertion takes from the
list is one of the places. An insertion puts the object where its address says and leaves
every place that holds another one as it is. Elements of more than one kind are refused. Where
an object is released, at least one was counted. -/
structure Reliable (heap : Heap) : Prop where
  reuse_lt : ∀ index free, heap.free = index :: free → index.toNat < heap.entries.size
  insert_keeps : ∀ object address after, insert object heap = .ok address after →
    after.object? address = some object ∧
    ∀ (i : Nat) (entry : Entry), heap.entries[i]? = some entry → entry.object.isSome →
      after.entries[i]? = some entry
  create_refuses : ∀ element payload, ∀ value ∈ payload, value.kind ≠ element →
    ∃ mismatch, create element payload heap = .error (.elementKind mismatch) heap
  release_counts : ∀ address object after, release address heap = .ok object after →
    0 < heap.live ∧ heap.live = after.live + 1

theorem Consistent.reliable (h : heap.Consistent) : heap.Reliable where
  reuse_lt := by
    intro index free hfree
    obtain ⟨generation, hvacant⟩ := h.free_vacant index (by simp [hfree])
    exact (Array.getElem?_eq_some_iff.1 hvacant).1
  insert_keeps := by
    intro object address after hinsert
    have hinserted := inserted_of_insert hinsert
    exact ⟨hinserted.object?_self h, fun _ _ => hinserted.getElem?_of_isSome h⟩
  create_refuses := fun _ _ _ hvalue hkind => create_of_mismatch hvalue hkind heap
  release_counts := by
    intro address object after hrelease
    obtain ⟨hobject, rfl⟩ := release_eq_ok.1 hrelease
    have hlive := h.live_vacate hobject
    exact ⟨hlive ▸ Nat.succ_pos _, hlive.symm⟩

/-- Whatever operations are carried out, the fields of the heap are tied together, and what the
operations rely on holds. -/
theorem ofOperations_represented (policy : ReclaimPolicy) (operations : List Operation) :
    (Session.ofOperations policy operations).heap.Represented policy ∧
      (Session.ofOperations policy operations).heap.Reliable := by
  obtain ⟨hconsistent, -, -⟩ := Session.tracked_ofOperations policy operations
  have hplaced := Session.placed_ofOperations policy operations
  refine ⟨{
    policy_eq := hplaced.policy_eq
    live_eq := hconsistent.live_eq
    free_nodup := hconsistent.free_nodup
    free_vacant := ?_
    free_retained := fun hretain => (hplaced.retained hretain).1
    uniform := fun _ _ object _ => object.uniform }, hconsistent.reliable⟩
  intro index hindex
  obtain ⟨generation, hvacant⟩ := hconsistent.free_vacant index hindex
  exact ⟨_, hvacant, rfl⟩

end Heap

end TypedStack
