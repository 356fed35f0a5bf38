import TypedStack.Heap.Store

/-!
# Consistent heaps

What the operations on a heap do to its places, and what holds of the places in
between: the places to use again are vacant and listed once, and the number of
objects is the number of places that hold one. In a heap of this kind an object
is never put where another one is, so an operation changes what one address
resolves to and nothing else.
-/

namespace TypedStack

/-! ## Making objects -/

namespace HeapObject

variable {element : Kind} {payload : List Value}

theorem make_eq_error {mismatch : ElementMismatch} :
    make element payload = .error mismatch ↔ mismatch? element payload = some mismatch := by
  unfold make
  split
  · rename_i found hfound
    simp [hfound]
  · rename_i hnone
    simp [hnone]

theorem make_eq_ok {object : HeapObject} :
    make element payload = .ok object ↔ object.element = element ∧ object.payload = payload := by
  refine ⟨of_make, ?_⟩
  rintro ⟨rfl, rfl⟩
  cases hmake : make object.element object.payload with
  | error mismatch =>
    have hmismatch := make_eq_error.1 hmake
    obtain ⟨entry, hentry, -⟩ := Option.map_eq_some_iff.1 hmismatch
    have hmem := List.fst_mem_of_mem_zipIdx (List.mem_of_find?_eq_some hentry)
    simpa [object.uniform entry.1 hmem] using List.find?_some hentry
  | ok found =>
    obtain ⟨helement, hpayload⟩ := of_make hmake
    cases found
    cases object
    cases helement
    cases hpayload
    rfl

end HeapObject

namespace Heap

variable {heap after : Heap} {address : Address} {object : HeapObject} {e : HeapError}

/-! ## Looking up -/

theorem object?_eq_some :
    heap.object? address = some object ↔
      heap.entries[address.index.toNat]? = some ⟨address.generation, some object⟩ := by
  unfold object?
  cases hentry : heap.entries[address.index.toNat]? with
  | none => simp
  | some entry =>
    obtain ⟨generation, held⟩ := entry
    by_cases hgeneration : generation = address.generation <;> simp [hgeneration]

theorem object_eq_ok : heap.object address = .ok object ↔ heap.object? address = some object := by
  unfold Heap.object
  cases heap.object? address <;> simp

theorem object_eq_error :
    heap.object address = .error e ↔
      heap.object? address = none ∧ e = .danglingReference address := by
  unfold Heap.object
  cases heap.object? address <;> simp [eq_comm]

theorem generationAt_of_getElem?
    {index : UInt32} {entry : Entry} (h : heap.entries[index.toNat]? = some entry) :
    heap.generationAt index = entry.generation := by
  simp [generationAt, h]

theorem generationAt_congr
    {index : UInt32} (h : after.entries[index.toNat]? = heap.entries[index.toNat]?) :
    after.generationAt index = heap.generationAt index := by
  simp [generationAt, h]

/-! ## What operations do -/

theorem look_eq_ok {α : Type} {query : Heap → Except HeapError α} {a : α} :
    look query heap = .ok a after ↔ query heap = .ok a ∧ after = heap := by
  unfold look
  cases query heap <;> simp [eq_comm]

theorem update_bind_eq_ok {α β : Type} {first : Update α} {second : α → Update β} {b : β} :
    (first >>= second) heap = .ok b after ↔
      ∃ a middle, first heap = .ok a middle ∧ second a middle = .ok b after := by
  simp only [bind, EStateM.bind]
  cases first heap with
  | error e middle => simp
  | ok a middle =>
    constructor
    · intro h
      exact ⟨a, middle, rfl, h⟩
    · rintro ⟨_, _, ⟨⟩, h⟩
      exact h

theorem update_bind_eq_error {α β : Type} {first : Update α} {second : α → Update β} :
    (first >>= second) heap = .error e after ↔
      first heap = .error e after ∨
        ∃ a middle, first heap = .ok a middle ∧ second a middle = .error e after := by
  simp only [bind, EStateM.bind]
  cases first heap with
  | error e' middle => simp
  | ok a middle =>
    constructor
    · intro h
      exact .inr ⟨a, middle, rfl, h⟩
    · rintro (⟨⟨⟩⟩ | ⟨_, _, ⟨⟩, h⟩)
      exact h

/-- How an object gets into a heap: into the first of the places to use again, or
else into a new place behind all others. -/
inductive Inserted (heap : Heap) (object : HeapObject) : Address → Heap → Prop where
  | reused {index : UInt32} {free : List UInt32} (free_eq : heap.free = index :: free) :
      Inserted heap object ⟨index, heap.generationAt index⟩
        { heap with
          entries :=
            heap.entries.modify index.toNat fun entry => { entry with object := some object }
          free
          live := heap.live + 1 }
  | appended (free_eq : heap.free = []) (room : heap.entries.size < maxPlaces) :
      Inserted heap object ⟨UInt32.ofNat heap.entries.size, 0⟩
        { heap with entries := heap.entries.push ⟨0, some object⟩, live := heap.live + 1 }

theorem inserted_of_insert (h : insert object heap = .ok address after) :
    Inserted heap object address after := by
  unfold insert at h
  split at h
  · rename_i index free hfree
    cases h
    exact .reused hfree
  · rename_i hfree
    split at h
    · rename_i hroom
      cases h
      exact .appended hfree hroom
    · cases h

theorem of_insert_eq_error (h : insert object heap = .error e after) :
    e = .exhausted ∧ after = heap := by
  unfold insert at h
  split at h
  · cases h
  · split at h
    · cases h
    · cases h
      exact ⟨rfl, rfl⟩

/-- There is no place for another object. -/
def Full (heap : Heap) : Prop :=
  heap.free = [] ∧ maxPlaces ≤ heap.entries.size

theorem insert_of_full (h : heap.Full) (object : HeapObject) :
    insert object heap = .error .exhausted heap := by
  simp only [insert, h.1, if_neg (Nat.not_lt_of_le h.2)]

theorem exists_insert_eq_ok (h : ¬heap.Full) (object : HeapObject) :
    ∃ address after, insert object heap = .ok address after := by
  unfold insert
  split
  · exact ⟨_, _, rfl⟩
  · rename_i hfree
    split
    · exact ⟨_, _, rfl⟩
    · rename_i hplaces
      exact absurd ⟨hfree, Nat.le_of_not_lt hplaces⟩ h

/-- How many more objects can be put into the heap. -/
def vacancies (heap : Heap) : Nat :=
  heap.free.length + (maxPlaces - heap.entries.size)

theorem full_iff_vacancies : heap.Full ↔ heap.vacancies = 0 := by
  rw [vacancies, Nat.add_eq_zero_iff, List.length_eq_zero_iff, Nat.sub_eq_zero_iff_le]
  rfl

theorem Inserted.vacancies_eq (h : Inserted heap object address after) :
    after.vacancies + 1 = heap.vacancies := by
  cases h with
  | reused hfree =>
    simp only [vacancies, Array.size_modify, hfree, List.length_cons]
    omega
  | appended hfree hroom =>
    simp only [vacancies, Array.size_push, hfree, List.length_nil]
    omega

theorem release_eq_ok :
    release address heap = .ok object after ↔
      heap.object? address = some object ∧ after = heap.vacate address := by
  rw [← object_eq_ok]
  cases hobject : heap.object address with
  | error cause => simp [release, look, bind, EStateM.bind, hobject]
  | ok found =>
    have hrelease : release address heap = .ok found (heap.vacate address) := by
      simp only [release, look, bind, EStateM.bind, hobject]
      rfl
    rw [hrelease]
    constructor
    · intro h
      cases h
      exact ⟨rfl, rfl⟩
    · rintro ⟨h, rfl⟩
      cases h
      rfl

theorem release_eq_error :
    release address heap = .error e after ↔
      heap.object? address = none ∧ e = .danglingReference address ∧ after = heap := by
  rw [← and_assoc, ← object_eq_error]
  cases hobject : heap.object address with
  | error cause =>
    have hrelease : release address heap = .error cause heap := by
      simp only [release, look, bind, EStateM.bind, hobject]
    rw [hrelease]
    simp [eq_comm]
  | ok found =>
    have hrelease : release address heap = .ok found (heap.vacate address) :=
      release_eq_ok.2 ⟨object_eq_ok.1 hobject, rfl⟩
    simp [hrelease]

/-! ## Consistency -/

/-- Places to use again are vacant and listed once, and the objects are counted. -/
structure Consistent (heap : Heap) : Prop where
  free_nodup : heap.free.Nodup
  free_vacant : ∀ index ∈ heap.free, ∃ generation,
    heap.entries[index.toNat]? = some ⟨generation, none⟩
  live_eq : heap.live = heap.entries.countP (·.object.isSome)

theorem consistent_empty (policy : ReclaimPolicy) : (empty policy).Consistent := by
  constructor <;> simp [empty]

theorem toNat_ofNat_size (h : heap.entries.size < maxPlaces) :
    (UInt32.ofNat heap.entries.size).toNat = heap.entries.size := by
  rw [UInt32.toNat_ofNat']
  exact Nat.mod_eq_of_lt h

/-- The place that an object is put into did not hold one before. -/
theorem Inserted.vacant
    (h : Inserted heap object address after) (hconsistent : heap.Consistent)
    {entry : Entry} (hentry : heap.entries[address.index.toNat]? = some entry) :
    entry = ⟨address.generation, none⟩ := by
  cases h with
  | @reused index free free_eq =>
    obtain ⟨generation, hvacant⟩ := hconsistent.free_vacant index (by simp [free_eq])
    have hgeneration := generationAt_of_getElem? hvacant
    rw [hvacant] at hentry
    rw [← Option.some.inj hentry, hgeneration]
  | appended _ room =>
    rw [toNat_ofNat_size room] at hentry
    simp at hentry

/-- Putting an object into a heap changes one place, to one that holds the object
under the count of the address. -/
theorem Inserted.getElem?_entries
    (h : Inserted heap object address after) (hconsistent : heap.Consistent) (i : Nat) :
    after.entries[i]? =
      if i = address.index.toNat then some ⟨address.generation, some object⟩
      else heap.entries[i]? := by
  cases h with
  | @reused index free free_eq =>
    obtain ⟨generation, hvacant⟩ := hconsistent.free_vacant index (by simp [free_eq])
    have hgeneration := generationAt_of_getElem? hvacant
    by_cases hi : i = index.toNat
    · simp [Array.getElem?_modify, hi, hvacant, hgeneration]
    · simp [Array.getElem?_modify, hi, Ne.symm hi]
  | appended _ room =>
    rw [Array.getElem?_push, toNat_ofNat_size room]

theorem Inserted.mem_free
    (h : Inserted heap object address after) {index : UInt32} (hindex : index ∈ after.free) :
    index ∈ heap.free := by
  cases h with
  | reused free_eq =>
    rw [free_eq]
    exact List.mem_cons_of_mem _ hindex
  | appended _ _ => exact hindex

theorem Inserted.live_eq (h : Inserted heap object address after) :
    after.live = heap.live + 1 := by
  cases h <;> rfl

/-- Taking an object out changes one place, which is vacated. -/
theorem getElem?_vacate (address : Address) (heap : Heap) (i : Nat) :
    (heap.vacate address).entries[i]? =
      if i = address.index.toNat then heap.entries[i]?.map Entry.vacate
      else heap.entries[i]? := by
  by_cases hi : i = address.index.toNat
  · simp [vacate, Array.getElem?_modify, hi]
  · simp [vacate, Array.getElem?_modify, hi, Ne.symm hi]

/-! ## What addresses resolve to -/

theorem generation_ne
    {other : Address} (hne : other ≠ address)
    (hindex : other.index.toNat = address.index.toNat) :
    other.generation ≠ address.generation := by
  intro hgeneration
  apply hne
  cases other
  cases address
  simp only [Address.mk.injEq]
  exact ⟨UInt32.toNat_inj.1 hindex, hgeneration⟩

/-- The address that an object is put at did not resolve before. -/
theorem Inserted.object?_eq_none
    (h : Inserted heap object address after) (hconsistent : heap.Consistent) :
    heap.object? address = none := by
  rw [Option.eq_none_iff_forall_not_mem]
  intro found hfound
  have hvacant := h.vacant hconsistent (object?_eq_some.1 hfound)
  simp at hvacant

/-- The address that an object was put at resolves to it, and all others resolve
to what they did. -/
theorem Inserted.object?_eq
    (h : Inserted heap object address after) (hconsistent : heap.Consistent)
    (other : Address) :
    after.object? other = if other = address then some object else heap.object? other := by
  ext found
  rw [object?_eq_some, h.getElem?_entries hconsistent]
  by_cases hother : other = address
  · simp [hother]
  · rw [if_neg hother, object?_eq_some]
    by_cases hindex : other.index.toNat = address.index.toNat
    · -- under another count, neither the object nor what was there before is found
      have hgeneration := generation_ne hother hindex
      rw [if_pos hindex]
      constructor
      · intro hfound
        simp [Ne.symm hgeneration] at hfound
      · intro hfound
        rw [hindex] at hfound
        have hvacant := h.vacant hconsistent hfound
        simp at hvacant
    · rw [if_neg hindex]

theorem Inserted.object?_self
    (h : Inserted heap object address after) (hconsistent : heap.Consistent) :
    after.object? address = some object := by
  rw [h.object?_eq hconsistent, if_pos rfl]

/-- The address that an object was taken from resolves to nothing, and all others
resolve to what they did. -/
theorem object?_vacate
    (h : heap.object? address = some object) (other : Address) :
    (heap.vacate address).object? other = if other = address then none else heap.object? other := by
  ext found
  rw [object?_eq_some, getElem?_vacate]
  by_cases hother : other = address
  · have hentry := object?_eq_some.1 h
    simp [hother, hentry, Entry.vacate]
  · rw [if_neg hother, object?_eq_some]
    by_cases hindex : other.index.toNat = address.index.toNat
    · -- the place held one object, under the count of the address
      have hgeneration := generation_ne hother hindex
      have hentry := object?_eq_some.1 h
      rw [if_pos hindex, hindex, hentry]
      constructor
      · intro hfound
        simp [Entry.vacate] at hfound
      · intro hfound
        simp [Ne.symm hgeneration] at hfound
    · rw [if_neg hindex]

/-! ## Consistency is kept -/

theorem countP_modify
    {α : Type} {p : α → Bool} {f : α → α} {entries : Array α} {i : Nat} {entry : α}
    (h : entries[i]? = some entry) :
    (entries.modify i f).countP p + (if p entry then 1 else 0) =
      entries.countP p + if p (f entry) then 1 else 0 := by
  obtain ⟨hi, hentry⟩ := Array.getElem?_eq_some_iff.1 h
  have hset : entries.modify i f = entries.set i (f entry) := by
    apply Array.ext_getElem?
    intro j
    rw [Array.getElem?_modify, Array.getElem?_set]
    by_cases hj : i = j
    · simp [← hj, h]
    · simp [hj]
  have hle : (if p entry then 1 else 0) ≤ entries.countP p := by
    by_cases hp : p entry
    · have hmem : entry ∈ entries := Array.mem_of_getElem? h
      simpa [hp] using Array.countP_pos_iff.2 ⟨entry, hmem, hp⟩
    · simp [hp]
  rw [hset, Array.countP_set, hentry]
  omega

theorem Consistent.of_inserted
    (hconsistent : heap.Consistent) (h : Inserted heap object address after) :
    after.Consistent := by
  have hentries := h.getElem?_entries hconsistent
  cases h with
  | @reused index free free_eq =>
    have hnodup := hconsistent.free_nodup
    rw [free_eq, List.nodup_cons] at hnodup
    obtain ⟨generation, hvacant⟩ := hconsistent.free_vacant index (by simp [free_eq])
    refine ⟨hnodup.2, ?_, ?_⟩
    · intro other hother
      have hne : other.toNat ≠ index.toNat := by
        intro hsame
        rw [UInt32.toNat_inj.1 hsame] at hother
        exact hnodup.1 hother
      rw [hentries, if_neg hne]
      exact hconsistent.free_vacant other (by simp [free_eq, hother])
    · have hcount := countP_modify (p := fun entry : Entry => entry.object.isSome)
        (f := fun entry => { entry with object := some object }) hvacant
      simp only [Option.isSome_none, Option.isSome_some, Bool.false_eq_true, if_false,
        if_true] at hcount
      have hlive := hconsistent.live_eq
      simp only
      omega
  | appended free_eq room =>
    refine ⟨?_, ?_, ?_⟩
    · simp [free_eq]
    · intro other hother
      simp [free_eq] at hother
    · simp [hconsistent.live_eq]

/-- A place that was listed to be used again has just been vacated, with counts
left, or was listed before. -/
theorem mem_free_vacate {index : UInt32} (h : index ∈ (heap.vacate address).free) :
    (index = address.index ∧ heap.generationAt address.index ≠ lastGeneration) ∨
      index ∈ heap.free := by
  simp only [vacate] at h
  split at h
  · rename_i hreusable
    rcases List.mem_cons.1 h with rfl | hfree
    · have hcounts : heap.generationAt address.index ≠ lastGeneration := by
        simp only [Bool.and_eq_true, bne_iff_ne] at hreusable
        exact hreusable.2
      exact .inl ⟨rfl, hcounts⟩
    · exact .inr hfree
  · exact .inr h

/-- A place that holds an object is not listed to be used again. -/
theorem Consistent.toNat_ne_of_mem_free
    (hconsistent : heap.Consistent) (h : heap.object? address = some object)
    {index : UInt32} (hindex : index ∈ heap.free) : index.toNat ≠ address.index.toNat := by
  intro hsame
  obtain ⟨generation, hvacant⟩ := hconsistent.free_vacant index hindex
  rw [hsame, object?_eq_some.1 h] at hvacant
  simp at hvacant

theorem Consistent.vacate
    (hconsistent : heap.Consistent) (h : heap.object? address = some object) :
    (heap.vacate address).Consistent := by
  have hentry := object?_eq_some.1 h
  have hentries := getElem?_vacate address heap
  have hlisted : address.index ∉ heap.free :=
    fun hmem => hconsistent.toNat_ne_of_mem_free h hmem rfl
  refine ⟨?_, ?_, ?_⟩
  · simp only [Heap.vacate]
    split
    · exact List.nodup_cons.2 ⟨hlisted, hconsistent.free_nodup⟩
    · exact hconsistent.free_nodup
  · intro index hindex
    rcases mem_free_vacate hindex with ⟨rfl, -⟩ | hfree
    · rw [hentries, if_pos rfl, hentry]
      exact ⟨_, rfl⟩
    · rw [hentries, if_neg (hconsistent.toNat_ne_of_mem_free h hfree)]
      exact hconsistent.free_vacant index hfree
  · have hcount := countP_modify (p := fun entry : Entry => entry.object.isSome)
      (f := Entry.vacate) hentry
    simp only [Entry.vacate, Option.isSome_none, Option.isSome_some, Bool.false_eq_true, if_false,
      if_true] at hcount
    have hlive := hconsistent.live_eq
    simp only [Heap.vacate]
    omega

/-- Where an object is found, there is one to count. -/
theorem Consistent.live_vacate
    (hconsistent : heap.Consistent) (h : heap.object? address = some object) :
    (heap.vacate address).live + 1 = heap.live := by
  have hentry := object?_eq_some.1 h
  have hpos : 0 < heap.entries.countP (·.object.isSome) :=
    Array.countP_pos_iff.2 ⟨_, Array.mem_of_getElem? hentry, rfl⟩
  have hlive := hconsistent.live_eq
  simp only [Heap.vacate]
  omega

end Heap

end TypedStack
