import TypedStack.Proofs.Heap.History

/-!
# Addresses are never returned twice

Under the recycling policy a place is used again and again, and the addresses of
its objects differ by the count they carry. An address that was returned never
carries a higher count than its place has, and carries a lower one as soon as the
place is listed to be used again: the count of a place goes up when it is vacated,
and a place whose counts have run out is not listed.
-/

namespace TypedStack

namespace Heap

theorem lt_add_one_of_ne_lastGeneration {generation : UInt32} (h : generation ≠ lastGeneration) :
    generation < generation + 1 := by
  have hlast : generation.toNat ≠ lastGeneration.toNat := fun hsame => h (UInt32.toNat_inj.1 hsame)
  have hbound := generation.toNat_lt
  have hlastNat : lastGeneration.toNat = 4294967295 := rfl
  rw [UInt32.lt_iff_toNat_lt, UInt32.toNat_add]
  have hone : (1 : UInt32).toNat = 1 := rfl
  omega

theorem Entry.lt_vacate {entry : Entry} (h : entry.generation ≠ lastGeneration) :
    entry.generation < entry.vacate.generation := by
  simp only [Entry.vacate, h, if_false]
  exact lt_add_one_of_ne_lastGeneration h

theorem Entry.le_vacate (entry : Entry) : entry.generation ≤ entry.vacate.generation := by
  by_cases h : entry.generation = lastGeneration
  · simp [Entry.vacate, h]
  · exact UInt32.le_of_lt (Entry.lt_vacate h)

namespace Session

/-- The addresses that were returned, the latest first. -/
def addresses (session : Session) : List Address :=
  session.events.filterMap Event.address?

/-- What every operation keeps of the addresses that were returned. -/
structure Numbered (session : Session) : Prop where
  nodup : session.addresses.Nodup
  known : ∀ address ∈ session.addresses, ∃ entry,
    session.heap.entries[address.index.toNat]? = some entry ∧
      address.generation ≤ entry.generation
  fresh : ∀ address ∈ session.addresses, address.index ∈ session.heap.free →
    address.generation < session.heap.generationAt address.index

theorem numbered_start (policy : ReclaimPolicy) : (start policy).Numbered := by
  constructor <;> simp [start, addresses]

variable {session : Session} {operation : Operation} {result : Except HeapError Answer}
  {address : Address} {object : HeapObject} {after : Heap}

/-- The address at which an object is put was not returned before. -/
theorem Numbered.not_mem
    (h : session.Numbered) (hinserted : Inserted session.heap object address after) :
    address ∉ session.addresses := by
  intro hmem
  cases hinserted with
  | @reused index free free_eq =>
    have hfresh := h.fresh _ hmem (by simp [free_eq])
    exact UInt32.lt_irrefl _ hfresh
  | appended _ room =>
    obtain ⟨entry, hentry, -⟩ := h.known _ hmem
    rw [toNat_ofNat_size room] at hentry
    simp at hentry

theorem Numbered.created
    (h : session.Numbered) (hconsistent : session.heap.Consistent)
    (hinserted : Inserted session.heap object address after) :
    Numbered ⟨after, ⟨operation, .ok (.address address)⟩ :: session.events⟩ := by
  have hnew := h.not_mem hinserted
  have hentries := hinserted.getElem?_entries hconsistent
  refine ⟨List.nodup_cons.2 ⟨hnew, h.nodup⟩, ?_, ?_⟩
  · intro other hother
    rw [hentries]
    rcases List.mem_cons.1 hother with rfl | hissued
    · exact ⟨_, if_pos rfl, UInt32.le_refl _⟩
    · obtain ⟨entry, hentry, hle⟩ := h.known other hissued
      by_cases hindex : other.index.toNat = address.index.toNat
      · rw [hindex] at hentry
        have hvacant := hinserted.vacant hconsistent hentry
        rw [hvacant] at hle
        exact ⟨_, if_pos hindex, hle⟩
      · exact ⟨entry, (if_neg hindex).trans hentry, hle⟩
  · intro other hother hfree
    -- what is still listed is not the place that holds the object now
    have hindex : other.index.toNat ≠ address.index.toNat :=
      (hconsistent.of_inserted hinserted).toNat_ne_of_mem_free
        (hinserted.object?_self hconsistent) hfree
    have hissued : other ∈ session.addresses := by
      rcases List.mem_cons.1 hother with rfl | hissued
      · exact absurd rfl hindex
      · exact hissued
    have hgeneration : after.generationAt other.index = session.heap.generationAt other.index :=
      generationAt_congr ((hentries _).trans (if_neg hindex))
    rw [hgeneration]
    exact h.fresh other hissued (hinserted.mem_free hfree)

theorem Numbered.released
    (h : session.Numbered) (hconsistent : session.heap.Consistent)
    (hobject : session.heap.object? address = some object) :
    Numbered
      ⟨session.heap.vacate address, ⟨operation, .ok (.object object)⟩ :: session.events⟩ := by
  have hentries := getElem?_vacate address session.heap
  refine ⟨h.nodup, ?_, ?_⟩
  · intro other hother
    obtain ⟨entry, hentry, hle⟩ := h.known other hother
    rw [hentries, hentry]
    by_cases hindex : other.index.toNat = address.index.toNat
    · exact ⟨_, if_pos hindex, UInt32.le_trans hle entry.le_vacate⟩
    · exact ⟨entry, if_neg hindex, hle⟩
  · intro other hother hfree
    obtain ⟨entry, hentry, hle⟩ := h.known other hother
    rcases mem_free_vacate hfree with ⟨hindex, hcounts⟩ | hlisted
    · -- the place was vacated under its next count
      rw [← hindex, generationAt_of_getElem? hentry] at hcounts
      have hvacated : (session.heap.vacate address).entries[other.index.toNat]? =
          some entry.vacate := by
        rw [hentries, if_pos (congrArg UInt32.toNat hindex), hentry]
        rfl
      have hgeneration := generationAt_of_getElem? hvacated
      show other.generation < (session.heap.vacate address).generationAt other.index
      rw [hgeneration]
      exact UInt32.lt_of_le_of_lt hle (Entry.lt_vacate hcounts)
    · have hindex : other.index.toNat ≠ address.index.toNat :=
        hconsistent.toNat_ne_of_mem_free hobject hlisted
      have hgeneration : (session.heap.vacate address).generationAt other.index =
          session.heap.generationAt other.index :=
        generationAt_congr ((hentries _).trans (if_neg hindex))
      show other.generation < (session.heap.vacate address).generationAt other.index
      rw [hgeneration]
      exact h.fresh other hother hlisted

theorem numbered_ofOperations (policy : ReclaimPolicy) (operations : List Operation) :
    (ofOperations policy operations).Numbered := by
  suffices h : (ofOperations policy operations).Numbered ∧
      (ofOperations policy operations).Tracked from h.1
  refine Session.induct (motive := fun session => session.Numbered ∧ session.Tracked)
    ⟨numbered_start policy, tracked_start policy⟩ ?_ operations
  rintro session operation result after ⟨hnumbered, htracked⟩ hperformed
  refine ⟨?_, htracked.perform hperformed⟩
  cases hperformed with
  | created _ inserted => exact hnumbered.created htracked.consistent inserted
  | released _ object_eq => exact hnumbered.released htracked.consistent object_eq
  | failed e => exact ⟨hnumbered.nodup, hnumbered.known, hnumbered.fresh⟩

end Session

/-! ## Addresses that were released -/

section

variable {events later earlier : List Event} {event : Event} {address : Address}
  {object : HeapObject}

theorem Event.not_creates_of_releases (h : event.Releases address) :
    ¬event.Creates address object := by
  rintro ⟨haddress, -⟩
  have hobject := h.2
  unfold Event.address? at haddress
  unfold Event.object? at hobject
  split at haddress <;> simp_all

theorem Holds.mem (h : Holds events address object) :
    address ∈ events.filterMap Event.address? := by
  obtain ⟨later, event, earlier, rfl, ⟨haddress, -⟩, -⟩ := h
  exact List.mem_filterMap.2 ⟨event, by simp, haddress⟩

/-- An address that holds an object although it was released has been returned
again since. -/
theorem Holds.returned_since
    (h : Holds (later ++ event :: earlier) address object) (hreleases : event.Releases address) :
    address ∈ later.filterMap Event.address? := by
  induction later with
  | nil =>
    rcases holds_cons.1 h with hcreates | ⟨-, hkept⟩
    · exact absurd hcreates (Event.not_creates_of_releases hreleases)
    · exact absurd hreleases hkept
  | cons next rest ih =>
    rcases holds_cons.1 h with ⟨haddress, -⟩ | ⟨hrest, -⟩
    · exact List.mem_filterMap.2 ⟨next, List.mem_cons_self, haddress⟩
    · rw [← List.singleton_append, List.filterMap_append]
      exact List.mem_append_right _ (ih hrest)

/-- What was released had been returned before. -/
theorem Session.mem_of_releases
    {policy : ReclaimPolicy} {operations : List Operation}
    (hevents : (ofOperations policy operations).events = later ++ event :: earlier)
    (hreleases : event.Releases address) :
    address ∈ earlier.filterMap Event.address? := by
  suffices h : (ofOperations policy operations).Tracked ∧
      ∀ later event earlier, (ofOperations policy operations).events = later ++ event :: earlier →
        event.Releases address → address ∈ earlier.filterMap Event.address? from
    h.2 later event earlier hevents hreleases
  refine Session.induct (motive := fun session => session.Tracked ∧
    ∀ later event earlier, session.events = later ++ event :: earlier →
      event.Releases address → address ∈ earlier.filterMap Event.address?)
    ⟨tracked_start policy, ?_⟩ ?_ operations
  · intro later event earlier hstart
    simp [start] at hstart
  · rintro session operation result after ⟨htracked, ih⟩ hperformed
    refine ⟨htracked.perform hperformed, ?_⟩
    intro later event earlier hsplit hreleased
    rcases List.cons_eq_append_iff.1 hsplit with ⟨-, hlast⟩ | ⟨rest, -, hrest⟩
    · obtain ⟨rfl, rfl⟩ := List.cons.inj hlast
      obtain ⟨hrelease, hobject⟩ := hreleased
      cases hperformed with
      | created _ _ => simp [Event.object?] at hobject
      | failed _ => simp [Event.object?] at hobject
      | @released object released operation_eq object_eq =>
        obtain rfl := Operation.release.inj (operation_eq.symm.trans hrelease)
        exact ((htracked.object?_iff _ _).1 object_eq).mem
    · exact ih rest event earlier hrest hreleased

end

/-- The addresses that a session returns are all different, under either policy.
Once an address was released, it names nothing, however the session goes on, and
no later operation returns it. -/
theorem addresses_never_reissued (policy : ReclaimPolicy) (operations : List Operation) :
    (Session.ofOperations policy operations).addresses.Nodup ∧
      ∀ later event earlier address,
        (Session.ofOperations policy operations).events = later ++ event :: earlier →
        event.Releases address →
        (Session.ofOperations policy operations).heap.isLive address = false ∧
          ∀ next ∈ later, next.address? ≠ some address := by
  have hnodup := (Session.numbered_ofOperations policy operations).nodup
  refine ⟨hnodup, ?_⟩
  intro later event earlier address hevents hreleases
  have hbefore := Session.mem_of_releases hevents hreleases
  have hlater : address ∉ later.filterMap Event.address? := by
    intro hreturned
    rw [Session.addresses, hevents, List.filterMap_append, List.nodup_append] at hnodup
    refine hnodup.2.2 address hreturned address ?_ rfl
    rw [← List.singleton_append, List.filterMap_append]
    exact List.mem_append_right _ hbefore
  constructor
  · have htracked := Session.tracked_ofOperations policy operations
    cases hobject : (Session.ofOperations policy operations).heap.object? address with
    | none => simp [isLive, hobject]
    | some object =>
      have hholds := (htracked.object?_iff address object).1 hobject
      rw [hevents] at hholds
      exact absurd (hholds.returned_since hreleases) hlater
  · intro next hnext haddress
    exact hlater (List.mem_filterMap.2 ⟨next, hnext, haddress⟩)

/-- A place that is used again after its object was released. -/
theorem addresses_never_reissued_recycled :
    (Session.ofOperations .recycle
      [.createBytes [1], .release ⟨0, 0⟩, .createBytes [2]]).addresses = [⟨0, 1⟩, ⟨0, 0⟩] ∧
    (Session.ofOperations .recycle
      [.createBytes [1], .release ⟨0, 0⟩, .createBytes [2]]).heap.isLive ⟨0, 0⟩ = false := by
  have hreissued := (addresses_never_reissued .recycle
    [.createBytes [1], .release ⟨0, 0⟩, .createBytes [2]]).2
  exact ⟨rfl, (hreissued [_] _ [_] ⟨0, 0⟩ rfl ⟨rfl, rfl⟩).1⟩

end Heap

end TypedStack
