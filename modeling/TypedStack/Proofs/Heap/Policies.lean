import TypedStack.Proofs.Heap.Representation
import TypedStack.Proofs.Heap.Script

/-!
# The policies cannot be told apart

What a script on a heap is told is what a catalogue of its objects says. This is so
under either policy, up to the creation for which there is no place left. A heap that
retains uses up a place with every creation, so it is the first to run out of them.
-/

namespace TypedStack

namespace Heap

/-! ## Heaps refine catalogues -/

namespace Script

open Session

variable {policy : ReclaimPolicy} {session : Session} {catalogue : Catalogue}

/-- What a script can find out of a heap is what the catalogue says. -/
structure Refines (policy : ReclaimPolicy) (session : Session) (catalogue : Catalogue) :
    Prop where
  history : ∃ operations, session = .ofOperations policy operations
  length_eq : session.table.length = catalogue.length
  records : ∀ ordinal < catalogue.length,
    Option.Rel (Represents session.table) (catalogue.record? ordinal)
      (session.heap.object? (session.address ordinal))
  live_eq : session.heap.live = catalogue.countP Option.isSome

theorem refines_start (policy : ReclaimPolicy) : Refines policy (.start policy) [] where
  history := ⟨[], rfl⟩
  length_eq := rfl
  records := by simp
  live_eq := rfl

section

variable (h : Refines policy session catalogue)

include h

theorem Refines.consistent : session.heap.Consistent := by
  obtain ⟨operations, rfl⟩ := h.history
  exact (tracked_ofOperations policy operations).consistent

theorem Refines.numbered : session.Numbered := by
  obtain ⟨operations, rfl⟩ := h.history
  exact numbered_ofOperations policy operations

theorem Refines.placed : session.Placed policy := by
  obtain ⟨operations, rfl⟩ := h.history
  exact placed_ofOperations policy operations

theorem Refines.nodup : session.table.Nodup :=
  List.nodup_reverse.2 h.numbered.nodup

theorem Refines.perform (operation : Operation) :
    ∃ operations, session.perform operation = .ofOperations policy operations := by
  obtain ⟨operations, rfl⟩ := h.history
  exact ⟨operations ++ [operation], by rw [ofOperations, ofOperations, List.foldl_append]; rfl⟩

theorem Refines.idxOf_address {ordinal : Nat} (hordinal : ordinal < catalogue.length) :
    session.table.idxOf (session.address ordinal) = ordinal :=
  idxOf_getD h.nodup (h.length_eq ▸ hordinal)

theorem Refines.address_inj
    {i j : Nat} (hi : i < catalogue.length) (hj : j < catalogue.length)
    (haddress : session.address i = session.address j) : i = j := by
  rw [← h.idxOf_address hi, haddress, h.idxOf_address hj]

/-- An ordinal is looked up with the same result in the catalogue and the heap. -/
theorem Refines.lookup {ordinal : Nat} (hordinal : ordinal < catalogue.length) :
    (∃ record object, catalogue.record? ordinal = some record ∧
      session.heap.object? (session.address ordinal) = some object ∧
      Represents session.table record object) ∨
    (catalogue.record? ordinal = none ∧
      session.heap.object? (session.address ordinal) = none) := by
  have hrecord := h.records ordinal hordinal
  generalize catalogue.record? ordinal = record? at hrecord ⊢
  generalize session.heap.object? (session.address ordinal) = object? at hrecord ⊢
  cases hrecord with
  | some hrepresents => exact .inl ⟨_, _, rfl, rfl, hrepresents⟩
  | none => exact .inr ⟨rfl, rfl⟩

end

/-! ## Operations -/

section

variable {operation : Operation} {address : Address} {object : HeapObject} {after : Heap}
  {record : Record} {e : HeapError}

theorem update_eq {result : Except HeapError Answer}
    (h : operation.perform session.heap = (result, after)) :
    session.update operation =
      (.ofResult (table ⟨after, ⟨operation, result⟩ :: session.events⟩)
          (.ofAnswer (table ⟨after, ⟨operation, result⟩ :: session.events⟩)) result,
        ⟨after, ⟨operation, result⟩ :: session.events⟩) := by
  simp only [update, Session.perform, h]

theorem perform_eq {result : Except HeapError Answer}
    (h : operation.perform session.heap = (result, after)) :
    session.perform operation = ⟨after, ⟨operation, result⟩ :: session.events⟩ := by
  simp only [Session.perform, h]

/-- An answer of a heap that refines the one of a catalogue. -/
def Matches (policy : ReclaimPolicy) (answer : Report × Session)
    (expected : Report × Catalogue) : Prop :=
  answer.1 = expected.1 ∧ Refines policy answer.2 expected.2

/-- An operation that fails changes nothing. -/
theorem Refines.update_failed
    (h : Refines policy session catalogue)
    (hperform : operation.perform session.heap = (.error e, session.heap)) :
    Matches policy (session.update operation)
      (.failed (.ofError session.table e), catalogue) := by
  have hhistory := h.perform operation
  rw [perform_eq hperform] at hhistory
  rw [update_eq hperform]
  exact ⟨rfl, hhistory, h.length_eq, h.records, h.live_eq⟩

theorem Refines.update_created
    (h : Refines policy session catalogue)
    (hperform : operation.perform session.heap = (.ok (.address address), after))
    (hinserted : Inserted session.heap object address after)
    (hrecord : Represents session.table record object) :
    Matches policy (session.update operation) (catalogue.enter record) := by
  have hhistory := h.perform operation
  rw [perform_eq hperform] at hhistory
  have hnew : address ∉ session.table := fun hmem =>
    h.numbered.not_mem hinserted (List.mem_reverse.1 hmem)
  have htable : table ⟨after, ⟨operation, .ok (.address address)⟩ :: session.events⟩ =
      session.table ++ [address] := List.reverse_cons
  have hobject := hinserted.object?_eq h.consistent
  rw [update_eq hperform]
  refine ⟨?_, hhistory, ?_, ?_, ?_⟩
  · simp only [Report.ofResult, Report.ofAnswer, htable, Catalogue.enter]
    rw [List.idxOf_append_of_notMem hnew, h.length_eq]
    simp
  · simp [htable, Catalogue.enter, h.length_eq]
  · intro ordinal hordinal
    simp only [Catalogue.enter, List.length_append, List.length_singleton] at hordinal
    simp only [Catalogue.enter, Catalogue.record?, Session.address, htable, hobject]
    rcases Nat.lt_or_ge ordinal catalogue.length with hbefore | hlast
    · -- an object that was there keeps its address, which the new one does not have
      have hissued : ordinal < session.table.length := h.length_eq ▸ hbefore
      have hne : session.table.getD ordinal ⟨0, 0⟩ ≠ address := by
        rw [List.getD_eq_getElem _ _ hissued]
        rintro rfl
        exact hnew (List.getElem_mem _)
      rw [List.getD_append _ _ _ _ hbefore, List.getD_append _ _ _ _ hissued, if_neg hne]
      exact rel_append (h.records ordinal hbefore) _
    · have heq : ordinal = catalogue.length := by omega
      rw [List.getD_append_right _ _ _ _ hlast,
        List.getD_append_right _ _ _ _ (h.length_eq ▸ hlast), heq, h.length_eq, Nat.sub_self]
      simp only [List.getD_cons_zero, if_true]
      exact .some (hrecord.append _)
  · simp only [hinserted.live_eq, h.live_eq, Catalogue.enter, List.countP_append]
    rfl

theorem Refines.update_released
    (h : Refines policy session catalogue) {ordinal : Nat} (hordinal : ordinal < catalogue.length)
    (hlisted : catalogue.record? ordinal = some record)
    (hobject : session.heap.object? (session.address ordinal) = some object)
    (hrecord : Represents session.table record object) :
    Matches policy (session.update (.release (session.address ordinal)))
      (.object record, catalogue.set ordinal none) := by
  have hrelease : release (session.address ordinal) session.heap =
      .ok object (session.heap.vacate (session.address ordinal)) :=
    release_eq_ok.2 ⟨hobject, rfl⟩
  have hperform : (Operation.release (session.address ordinal)).perform session.heap =
      (.ok (.object object), session.heap.vacate (session.address ordinal)) := by
    simp only [Operation.perform, Operation.update, Functor.map, EStateM.map, hrelease]
  have hhistory := h.perform (.release (session.address ordinal))
  rw [perform_eq hperform] at hhistory
  rw [update_eq hperform]
  refine ⟨congrArg Report.object (hrecord.ofObject h.nodup), hhistory, ?_, ?_, ?_⟩
  · rw [List.length_set]
    exact h.length_eq
  · intro i hi
    rw [List.length_set] at hi
    show Option.Rel (Represents session.table) (Catalogue.record? (catalogue.set ordinal none) i)
      ((session.heap.vacate (session.address ordinal)).object? (session.address i))
    rw [object?_vacate hobject]
    by_cases hsame : i = ordinal
    · rw [hsame, if_pos rfl, Catalogue.record?_set_self]
      exact .none
    · have hne : session.address i ≠ session.address ordinal := fun haddress =>
        hsame (h.address_inj hi hordinal haddress)
      rw [if_neg hne, Catalogue.record?_set_ne _ (Ne.symm hsame)]
      exact h.records i hi
  · have hlive := h.consistent.live_vacate hobject
    have hcount := Catalogue.countP_set_none hlisted
    have hbefore := h.live_eq
    simp only
    omega

/-- Putting an object into the heap succeeds as long as there have not been as many
creations as there can be places. A heap that retains fails from then on. -/
theorem Refines.update_insert
    (h : Refines policy session catalogue)
    (hupdate : operation.update = .address <$> Heap.insert object)
    (hrecord : Represents session.table record object) :
    (catalogue.length < maxPlaces →
      Matches policy (session.update operation) (catalogue.enter record)) ∧
    (policy = .retain → maxPlaces ≤ catalogue.length →
      (session.update operation).1 = .failed .exhausted) := by
  have hlength : session.addresses.length = catalogue.length := by
    rw [← h.length_eq, table, List.length_reverse]
  refine ⟨fun hroom => ?_, fun hretain hplaces => ?_⟩
  · have hfull : ¬session.heap.Full := by
      rintro ⟨-, hplaces⟩
      have hsize := h.placed.size_le
      omega
    obtain ⟨address, after, hinsert⟩ := exists_insert_eq_ok hfull object
    exact h.update_created (perform_of_insert hupdate hinsert) (inserted_of_insert hinsert) hrecord
  · obtain ⟨hfree, hsize⟩ := h.placed.retained hretain
    have hfull : session.heap.Full := ⟨hfree, by omega⟩
    exact (h.update_failed (perform_of_full hupdate hfull)).1

end

/-! ## Commands -/

theorem represents_ofBytes (table : List Address) (bytes : List UInt8) :
    Represents table ⟨.integer .u8, bytes.map fun byte => .integer .u8 byte.toBitVec⟩
      (.ofBytes bytes) where
  element := rfl
  payload := by simp [HeapObject.ofBytes, Term.value, Value.u8, Function.comp_def]
  known := by
    intro term hterm
    obtain ⟨byte, -, rfl⟩ := List.mem_map.1 hterm
    rfl

section

variable {command : Command}

/-- Elements are checked for their kinds, which do not depend on addresses. -/
theorem create_update
    (table : List Address) (element : Kind) {payload : List Term}
    (hknown : payload.all (·.isKnown table.length)) :
    (∃ mismatch, mismatch? element payload = some mismatch ∧ ∀ heap,
      (Operation.create element (payload.map (Term.value table))).perform heap =
        (.error (.elementKind mismatch), heap)) ∨
    (mismatch? element payload = none ∧ ∃ object,
      (Operation.create element (payload.map (Term.value table))).update =
        .address <$> Heap.insert object ∧
      Represents table ⟨element, payload⟩ object) := by
  rw [← mismatch?_map_value table]
  cases hmake : HeapObject.make element (payload.map (Term.value table)) with
  | error mismatch =>
    refine .inl ⟨mismatch, HeapObject.make_eq_error.1 hmake, fun heap => ?_⟩
    simp only [Operation.perform, Operation.update, create, hmake]
    rfl
  | ok object =>
    obtain ⟨helement, hpayload⟩ := HeapObject.make_eq_ok.1 hmake
    refine .inr ⟨?_, object, ?_, helement, hpayload, List.all_eq_true.1 hknown⟩
    · rw [Option.eq_none_iff_forall_ne_some]
      intro mismatch hmismatch
      rw [HeapObject.make_eq_error.2 hmismatch] at hmake
      cases hmake
    · simp only [Operation.update, create, hmake]

theorem Catalogue.isCreated_look
    (catalogue : Catalogue) (ordinal : Nat) (found : Record → Report)
    (hfound : ∀ record, (found record).isCreated = false) :
    (catalogue.look ordinal found).isCreated = false := by
  unfold look
  split
  · exact hfound _
  · rfl

theorem Catalogue.isCreated_element (ordinal index : Nat) (record : Record) :
    (Catalogue.element ordinal index record).isCreated = false := by
  unfold Catalogue.element
  split <;> rfl

/-- The commands that create something. -/
theorem Catalogue.created_cases (h : (catalogue.carryOut command).1.isCreated) :
    (∃ element payload, command = .create element payload ∧ mismatch? element payload = none) ∨
      ∃ bytes, command = .createBytes bytes := by
  have hlook (ordinal : Nat) (found : Record → Report)
      (hfound : ∀ record, (found record).isCreated = false) :
      ¬(catalogue.look ordinal found).isCreated := by
    rw [Bool.not_eq_true]
    exact catalogue.isCreated_look ordinal found hfound
  cases command with
  | create element payload =>
    refine .inl ⟨element, payload, rfl, ?_⟩
    cases hmismatch : mismatch? element payload with
    | none => rfl
    | some mismatch =>
      simp only [carryOut, hmismatch] at h
      cases h
  | createBytes bytes => exact .inr ⟨bytes, rfl⟩
  | release ordinal => exact absurd h (hlook ordinal _ fun _ => rfl)
  | object ordinal => exact absurd h (hlook ordinal _ fun _ => rfl)
  | reference ordinal => exact absurd h (hlook ordinal _ fun _ => rfl)
  | deref ordinal index => exact absurd h (hlook ordinal _ (isCreated_element ordinal index))
  | length => cases h

/-- What a script creates is put into the heap. -/
theorem carryOut_created
    (hknown : command.isKnown session.table.length)
    (hcreated : (catalogue.carryOut command).1.isCreated) :
    ∃ operation object record, session.carryOut command = session.update operation ∧
      operation.update = .address <$> Heap.insert object ∧
      Represents session.table record object ∧
      catalogue.carryOut command = catalogue.enter record := by
  rcases Catalogue.created_cases hcreated with
    ⟨element, payload, rfl, hmismatch⟩ | ⟨bytes, rfl⟩
  · rcases create_update session.table element hknown with
      ⟨mismatch, hfound, -⟩ | ⟨-, object, hupdate, hrecord⟩
    · rw [hmismatch] at hfound
      cases hfound
    · refine ⟨_, object, ⟨element, payload⟩, rfl, hupdate, hrecord, ?_⟩
      simp only [Catalogue.carryOut, hmismatch]
  · exact ⟨.createBytes bytes, .ofBytes bytes, _, rfl, rfl, represents_ofBytes _ bytes, rfl⟩

/-- Looking an object up gives the same report in the heap and the catalogue. -/
theorem Refines.look
    (h : Refines policy session catalogue) {ordinal : Nat} (hordinal : ordinal < catalogue.length)
    (found : Record → Report) :
    .ofResult session.table (fun object => found (.ofObject session.table object))
        (session.heap.object (session.address ordinal)) =
      catalogue.look ordinal found := by
  unfold Catalogue.look
  rcases h.lookup hordinal with ⟨record, object, hlisted, hobject, hrecord⟩ | ⟨hlisted, hobject⟩
  · rw [object_eq_ok.2 hobject, hlisted]
    exact congrArg found (hrecord.ofObject h.nodup)
  · rw [object_eq_error.2 ⟨hobject, rfl⟩, hlisted]
    simp only [Report.ofResult, Fault.ofError, h.idxOf_address hordinal]

/-- A reference is read off the object. -/
theorem ofResult_reference (table : List Address) (heap : Heap) (address : Address) :
    Report.ofResult table (fun value => .value (.ofValue table value)) (heap.reference address) =
      .ofResult table (fun object =>
        .value (.ref (table.idxOf address) (Record.ofObject table object).element))
        (heap.object address) := by
  unfold reference
  cases heap.object address <;> rfl

/-- So is an element. -/
theorem ofResult_deref (table : List Address) (heap : Heap) (address : Address) (index : Nat) :
    Report.ofResult table (fun value => .value (.ofValue table value)) (heap.deref address index) =
      .ofResult table (fun object =>
        Catalogue.element (table.idxOf address) index (.ofObject table object))
        (heap.object address) := by
  unfold deref
  cases heap.object address with
  | error e => rfl
  | ok object =>
    simp only [Report.ofResult, Catalogue.element, Record.get?_ofObject]
    cases object.get? index with
    | some value => rfl
    | none => simp [Fault.ofError, Record.ofObject, HeapObject.length]

theorem Refines.release
    (h : Refines policy session catalogue) {ordinal : Nat}
    (hordinal : ordinal < catalogue.length) :
    Matches policy (session.update (.release (session.address ordinal)))
      (catalogue.look ordinal .object, catalogue.set ordinal none) := by
  unfold Catalogue.look
  rcases h.lookup hordinal with ⟨record, object, hlisted, hobject, hrecord⟩ | ⟨hlisted, hobject⟩
  · rw [hlisted]
    exact h.update_released hordinal hlisted hobject hrecord
  · have hrelease : Heap.release (session.address ordinal) session.heap =
        .error (.danglingReference (session.address ordinal)) session.heap :=
      release_eq_error.2 ⟨hobject, rfl, rfl⟩
    have hperform : (Operation.release (session.address ordinal)).perform session.heap =
        (.error (.danglingReference (session.address ordinal)), session.heap) := by
      simp only [Operation.perform, Operation.update, Functor.map, EStateM.map, hrelease]
    have hfailed := h.update_failed hperform
    rw [Fault.ofError, h.idxOf_address hordinal] at hfailed
    rw [hlisted, Catalogue.set_none_eq_self hlisted]
    exact hfailed

/-- What creates nothing has the same answer in the heap and the catalogue. -/
theorem Refines.carryOut_kept
    (h : Refines policy session catalogue) (hknown : command.isKnown session.table.length)
    (hcreated : (catalogue.carryOut command).1.isCreated = false) :
    Matches policy (session.carryOut command) (catalogue.carryOut command) := by
  have hknown' := hknown
  rw [h.length_eq] at hknown'
  cases command with
  | create element payload =>
    rcases create_update session.table element hknown with
      ⟨mismatch, hmismatch, hperform⟩ | ⟨hmismatch, -⟩
    · simp only [Catalogue.carryOut, hmismatch]
      exact h.update_failed (hperform session.heap)
    · simp only [Catalogue.carryOut, hmismatch] at hcreated
      cases hcreated
  | createBytes bytes => cases hcreated
  | release ordinal => exact h.release (of_decide_eq_true hknown')
  | object ordinal => exact ⟨h.look (of_decide_eq_true hknown') .object, h⟩
  | reference ordinal =>
    have hordinal : ordinal < catalogue.length := of_decide_eq_true hknown'
    refine ⟨?_, h⟩
    simp only [Session.carryOut, ofResult_reference, h.idxOf_address hordinal]
    exact h.look hordinal fun record => .value (.ref ordinal record.element)
  | deref ordinal index =>
    have hordinal : ordinal < catalogue.length := of_decide_eq_true hknown'
    refine ⟨?_, h⟩
    simp only [Session.carryOut, ofResult_deref, h.idxOf_address hordinal]
    exact h.look hordinal (Catalogue.element ordinal index)
  | length => exact ⟨congrArg Report.length h.live_eq, h⟩

/-! ## Answers -/

/-- A heap answers as the catalogue does, as long as there have not been as many
creations as there can be places. -/
theorem Refines.answer
    (h : Refines policy session catalogue)
    (hroom : catalogue.length < maxPlaces ∨
      (catalogue.answer command).1.isCreated = false) :
    Matches policy (session.answer command) (catalogue.answer command) := by
  unfold Session.answer Catalogue.answer at *
  rw [← h.length_eq] at hroom ⊢
  by_cases hknown : command.isKnown session.table.length
  · rw [if_pos hknown] at hroom ⊢
    rw [if_pos hknown]
    cases hcreated : (catalogue.carryOut command).1.isCreated with
    | false => exact h.carryOut_kept hknown hcreated
    | true =>
      have hplaces : catalogue.length < maxPlaces := by
        rcases hroom with hroom | hkept
        · exact h.length_eq ▸ hroom
        · rw [hcreated] at hkept
          cases hkept
      obtain ⟨operation, object, record, hsession, hupdate, hrecord, hcatalogue⟩ :=
        carryOut_created hknown hcreated
      rw [hsession, hcatalogue]
      exact (h.update_insert hupdate hrecord).1 hplaces
  · rw [if_neg hknown, if_neg hknown]
    exact ⟨rfl, h⟩

/-- A heap that retains creates nothing once there have been that many creations. -/
theorem Refines.answer_exhausted
    (h : Refines .retain session catalogue) (hplaces : maxPlaces ≤ catalogue.length)
    (hcreated : (catalogue.answer command).1.isCreated) :
    (session.answer command).1 = .failed .exhausted := by
  unfold Session.answer Catalogue.answer at *
  rw [← h.length_eq] at hcreated
  by_cases hknown : command.isKnown session.table.length
  · rw [if_pos hknown] at hcreated ⊢
    obtain ⟨operation, object, record, hsession, hupdate, hrecord, -⟩ :=
      carryOut_created hknown hcreated
    rw [hsession]
    exact (h.update_insert hupdate hrecord).2 rfl hplaces
  · rw [if_neg hknown] at hcreated
    cases hcreated

end

/-- The catalogue grows with the creations that it reports. -/
theorem Catalogue.length_answer (catalogue : Catalogue) (command : Command) :
    (catalogue.answer command).2.length =
      catalogue.length + if (catalogue.answer command).1.isCreated then 1 else 0 := by
  unfold answer
  split
  · cases hcreated : (catalogue.carryOut command).1.isCreated with
    | true =>
      rcases created_cases hcreated with ⟨element, payload, rfl, hmismatch⟩ | ⟨bytes, rfl⟩
      · simp [carryOut, hmismatch, enter]
      · simp [carryOut, enter]
    | false =>
      cases command with
      | create element payload =>
        cases hmismatch : mismatch? element payload with
        | some mismatch => simp [carryOut, hmismatch]
        | none =>
          simp only [carryOut, hmismatch] at hcreated
          cases hcreated
      | createBytes bytes => cases hcreated
      | release ordinal => simp [carryOut]
      | object ordinal => rfl
      | reference ordinal => rfl
      | deref ordinal index => rfl
      | length => rfl
  · rfl

/-- Two heaps, of which one retains, answer a script alike up to the creation for
which the one that retains has no place left. -/
theorem reports_eq_or_exhausted
    {retaining other : Session} (h : Refines .retain retaining catalogue)
    (h' : Refines policy other catalogue) (script : List Command) :
    reports Session.answer retaining script = reports Session.answer other script ∨
    ∃ done command rest, script = done ++ command :: rest ∧
      reports Session.answer retaining done = reports Session.answer other done ∧
      maxPlaces ≤
        catalogue.length + (reports Session.answer retaining done).countP Report.isCreated ∧
      reports Session.answer retaining (done ++ [command]) =
        reports Session.answer retaining done ++ [.failed .exhausted] := by
  induction script generalizing retaining other catalogue with
  | nil => exact .inl rfl
  | cons command rest ih =>
    by_cases hroom : catalogue.length < maxPlaces ∨ (catalogue.answer command).1.isCreated = false
    · obtain ⟨hreport, hretaining⟩ := h.answer hroom
      obtain ⟨hreport', hother⟩ := h'.answer hroom
      rcases ih hretaining hother with
        hrest | ⟨done, last, rest, rfl, hdone, hcount, hlast⟩
      · refine .inl ?_
        rw [reports, reports, hreport, hreport', hrest]
      · refine .inr ⟨command :: done, last, rest, rfl, ?_, ?_, ?_⟩
        · rw [reports, reports, hreport, hreport', hdone]
        · rw [Catalogue.length_answer] at hcount
          rw [reports, List.countP_cons, hreport]
          omega
        · rw [List.cons_append, reports, reports, hlast, List.cons_append]
    · rw [not_or, Nat.not_lt, Bool.not_eq_false] at hroom
      refine .inr ⟨[], command, rest, rfl, rfl, hroom.1, ?_⟩
      exact congrArg (· :: []) (h.answer_exhausted hroom.1 hroom.2)

/-- A script is told the same under both policies, unless it creates an object after
as many as there can be places. Up to there it is told the same, and then the heap
that retains is exhausted. -/
theorem policies_indistinguishable (script : List Command) :
    heapReports .retain script = heapReports .recycle script ∨
    ∃ done command rest, script = done ++ command :: rest ∧
      heapReports .retain done = heapReports .recycle done ∧
      maxPlaces ≤ (heapReports .retain done).countP Report.isCreated ∧
      heapReports .retain (done ++ [command]) =
        heapReports .retain done ++ [.failed .exhausted] := by
  have hreports := reports_eq_or_exhausted (refines_start .retain) (refines_start .recycle) script
  simpa only [heapReports, List.length_nil, Nat.zero_add] using hreports

/-- An object is told apart from a later one in the same place. -/
example :
    heapReports .recycle
      [.createBytes [7], .create .ref [.ref 0 .bool], .release 0, .createBytes [8, 9],
        .deref 0 1, .deref 2 1, .object 1, .length] =
      [.created 0, .created 1, .object ⟨.integer .u8, [.integer .u8 7]⟩, .created 2,
        .failed (.dangling 0), .value (.integer .u8 8), .object ⟨.ref, [.ref 0 .bool]⟩,
        .length 2] := by
  decide

/-! ## Running out of places -/

/-- Of creations in a row, as many succeed as there are places left. -/
theorem countP_reports_createBytes (session : Session) (bytes : List UInt8) (n : Nat) :
    (reports Session.answer session (List.replicate n (.createBytes bytes))).countP
      Report.isCreated = min n session.heap.vacancies := by
  induction n generalizing session with
  | zero => exact (Nat.zero_min _).symm
  | succ n ih =>
    have hanswer : session.answer (.createBytes bytes) = session.update (.createBytes bytes) := rfl
    rw [List.replicate_succ, reports, List.countP_cons, ih, hanswer]
    by_cases hfull : session.heap.Full
    · have hvacancies := full_iff_vacancies.1 hfull
      rw [update_eq (@perform_of_full _ (.createBytes bytes) _ rfl hfull)]
      simp [Report.ofResult, Report.isCreated, hvacancies]
    · obtain ⟨address, after, hinsert⟩ := exists_insert_eq_ok hfull (.ofBytes bytes)
      have hvacancies := (inserted_of_insert hinsert).vacancies_eq
      rw [update_eq (@perform_of_insert _ _ (.createBytes bytes) _ _ rfl hinsert)]
      simp [Report.ofResult, Report.ofAnswer, Report.isCreated, ← hvacancies]

/-- A script that creates an object, releases it, and then creates as many as there can be
places. -/
def refilling : List Command :=
  .createBytes [] :: .release 0 :: List.replicate maxPlaces (.createBytes [])

/-- How many of its creations succeed depends on the places left after the release. -/
theorem countP_heapReports_refilling {after : Session} {record : Record}
    (hcreated : (Session.start policy).answer (.createBytes []) = (.created 0, session))
    (hreleased : session.answer (.release 0) = (.object record, after)) :
    (heapReports policy refilling).countP Report.isCreated =
      min maxPlaces after.heap.vacancies + 1 := by
  simp only [heapReports, refilling, reports, hcreated, hreleased, List.countP_cons,
    countP_reports_createBytes, Report.isCreated]
  rfl

/-- There are places for all of them only where that of the first one is used again. -/
theorem policies_differ_once_exhausted :
    heapReports .retain refilling ≠ heapReports .recycle refilling := by
  have hretain := @countP_heapReports_refilling .retain _ _ _ rfl rfl
  have hrecycle := @countP_heapReports_refilling .recycle _ _ _ rfl rfl
  intro hsame
  rw [hsame, hrecycle] at hretain
  have hcount : min maxPlaces (1 + (maxPlaces - 1)) + 1 = min maxPlaces (0 + (maxPlaces - 1)) + 1 :=
    hretain
  have hplaces : 0 < maxPlaces := by decide
  omega

end Script

end Heap

end TypedStack
