import Mathlib.Data.List.Nodup
import Mathlib.Data.List.Perm.Subperm
import TypedStack.Proofs.Fixture.Building

/-!
# Texts in any heap

A main function that is given texts is started with an array of references to them. In a heap
that has been in use, the texts and the array go wherever there is room, into places that
others have left or into new ones. As long as the objects stay there, the function runs as
it would on the texts alone in a heap of their own: its outcome differs in nothing but the
places, which are found in the order in which the objects were made.
-/

namespace TypedStack

/-! ## Heaps in use -/

namespace Heap

/-- Objects may have been added to the heap, but none was taken out. -/
structure Grown (heap after : Heap) : Prop where
  consistent : after.Consistent
  «extends» : heap.Extends after
  size_le : heap.entries.size ≤ after.entries.size

variable {heap middle after : Heap} {object : HeapObject} {address : Address}

theorem Consistent.grown (h : heap.Consistent) : heap.Grown heap :=
  ⟨h, .refl heap, Nat.le_refl _⟩

theorem Grown.trans (h : heap.Grown middle) (h' : middle.Grown after) : heap.Grown after :=
  ⟨h'.consistent, h.extends.trans h'.extends, Nat.le_trans h.size_le h'.size_le⟩

theorem Inserted.size_le (h : Inserted heap object address after) :
    heap.entries.size ≤ after.entries.size := by
  cases h with
  | reused _ => simp
  | appended _ _ => simp

theorem Inserted.grown (h : Inserted heap object address after) (hheap : heap.Consistent) :
    heap.Grown after :=
  ⟨hheap.of_inserted h, h.extends hheap, h.size_le⟩

/-- An object is put into the heap and referred to, unless there is no place left. -/
theorem insert_reference_cases
    {α : Type} (hheap : heap.Consistent) (object : HeapObject) (next : Value → Update α) :
    (maxPlaces ≤ heap.entries.size ∧
      (insert object >>= fun address => look (·.reference address) >>= next) heap =
        .error .exhausted heap) ∨
    ∃ address after, Inserted heap object address after ∧
      (insert object >>= fun address => look (·.reference address) >>= next) heap =
        next (.ref ⟨address, object.element⟩) after := by
  by_cases hfull : heap.Full
  · exact .inl ⟨hfull.2, insert_bind_of_full hfull object⟩
  · obtain ⟨address, after, hinsert⟩ := exists_insert_eq_ok hfull object
    have hinserted := inserted_of_insert hinsert
    have hobject : after.object address = .ok object :=
      object_eq_ok.2 (hinserted.object?_self hheap)
    refine .inr ⟨address, after, hinserted, ?_⟩
    rw [update_bind_of_ok hinsert]
    apply update_bind_of_ok
    rw [look_eq_ok, Heap.reference, hobject]
    exact ⟨rfl, rfl⟩

/-- Two objects are not in one place. -/
theorem address_eq_of_index_eq
    {other : Address} {found : HeapObject} (h : heap.object? address = some object)
    (h' : heap.object? other = some found) (hindex : address.index = other.index) :
    address = other := by
  have hentry := object?_eq_some.1 h
  rw [hindex, object?_eq_some.1 h'] at hentry
  cases address
  cases other
  simp_all

/-- There are no more objects than places. -/
theorem length_le_maxPlaces
    {addresses : List Address} (hnodup : addresses.Nodup)
    (hobjects : ∀ address ∈ addresses, ∃ object, heap.object? address = some object) :
    addresses.length ≤ maxPlaces := by
  have hindices : (addresses.map (·.index.toNat)).Nodup := by
    refine List.Nodup.map_on ?_ hnodup
    intro address haddress other hother hindex
    obtain ⟨object, hobject⟩ := hobjects address haddress
    obtain ⟨found, hfound⟩ := hobjects other hother
    exact address_eq_of_index_eq hobject hfound (UInt32.toNat_inj.1 hindex)
  have hsub : addresses.map (·.index.toNat) ⊆ List.range maxPlaces := by
    intro index hindex
    obtain ⟨address, -, rfl⟩ := List.mem_map.1 hindex
    exact List.mem_range.2 address.index.toNat_lt
  have hlength := (hindices.subperm hsub).length_le
  rwa [List.length_map, List.length_range] at hlength

end Heap

/-! ## Texts and their array -/

namespace Activation

/-- References to byte arrays at the given addresses. -/
def referencesTo (places : List Address) : List Value :=
  places.map fun place => .ref ⟨place, .integer .u8⟩

theorem kind_of_mem_referencesTo
    {places : List Address} {value : Value} (h : value ∈ referencesTo places) :
    value.kind = .ref := by
  obtain ⟨place, -, rfl⟩ := List.mem_map.1 h
  rfl

/-- The array of references to byte arrays at the given addresses. -/
def arrayOf (places : List Address) : HeapObject where
  element := .ref
  payload := referencesTo places
  uniform := fun _ => kind_of_mem_referencesTo

/-- The activation whose argument is the array at the given address. -/
def ofArrayAt (array : Address) : Activation :=
  .ofArgs [.ref ⟨array, .ref⟩]

/-- The texts are at the given places, one at each. -/
structure Settled (heap : Heap) (texts : List String) (places : List Address) : Prop where
  length_eq : places.length = texts.length
  object_eq : ∀ (i : Nat) text place, texts[i]? = some text → places[i]? = some place →
    heap.object? place = some (textObject text)
  nodup : places.Nodup

/-- The texts are at the given places, and the array of references to them is at another. -/
structure Provided (heap : Heap) (texts : List String) (places : List Address)
    (array : Address) : Prop extends Settled heap texts places where
  array_eq : heap.object? array = some (arrayOf places)
  array_new : array ∉ places

variable {heap : Heap} {texts : List String}

theorem Settled.cons
    {places : List Address} {text : String} {place : Address} (h : Settled heap texts places)
    (hplace : heap.object? place = some (textObject text)) (hnew : place ∉ places) :
    Settled heap (text :: texts) (place :: places) where
  length_eq := by simp [h.length_eq]
  object_eq i found other htext hother := by
    cases i with
    | zero =>
      cases htext
      cases hother
      exact hplace
    | succ i => exact h.object_eq i found other htext hother
  nodup := List.nodup_cons.2 ⟨hnew, h.nodup⟩

theorem Settled.exists_object
    {places : List Address} (h : Settled heap texts places) {place : Address}
    (hplace : place ∈ places) : ∃ object, heap.object? place = some object := by
  obtain ⟨i, hi, rfl⟩ := List.mem_iff_getElem.1 hplace
  have hlt : i < texts.length := h.length_eq ▸ hi
  exact ⟨_, h.object_eq i _ _ (List.getElem?_eq_getElem hlt) (List.getElem?_eq_getElem hi)⟩

/-- Texts stay settled as long as the objects in their places stay there. -/
theorem Settled.keep
    {after : Heap} {places : List Address} (h : Settled heap texts places)
    (hkept : ∀ place ∈ places, ∀ object, heap.object? place = some object →
      after.object? place = some object) : Settled after texts places where
  length_eq := h.length_eq
  object_eq i text place htext hplace :=
    hkept place (List.mem_of_getElem? hplace) _ (h.object_eq i text place htext hplace)
  nodup := h.nodup

theorem Provided.keep
    {after : Heap} {places : List Address} {array : Address}
    (h : Provided heap texts places array)
    (hkept : ∀ place ∈ places ++ [array], ∀ object, heap.object? place = some object →
      after.object? place = some object) : Provided after texts places array where
  toSettled := h.toSettled.keep fun place hplace =>
    hkept place (List.mem_append_left _ hplace)
  array_eq := hkept array (List.mem_append_right _ List.mem_cons_self) _ h.array_eq
  array_new := h.array_new

theorem textReferences_cases (hheap : heap.Consistent) (texts : List String) :
    (∃ after, heap.Grown after ∧ Heap.maxPlaces ≤ after.entries.size ∧
      textReferences texts heap = .error .exhausted after) ∨
    ∃ places after, heap.Grown after ∧ Settled after texts places ∧
      (∀ place ∈ places, heap.object? place = none) ∧
      textReferences texts heap = .ok (referencesTo places) after := by
  induction texts generalizing heap with
  | nil => exact .inr ⟨[], heap, hheap.grown, ⟨rfl, nofun, List.nodup_nil⟩, nofun, rfl⟩
  | cons text rest ih =>
    rcases Heap.insert_reference_cases hheap (textObject text) (fun reference =>
      textReferences rest >>= fun references => pure (reference :: references)) with
      ⟨hfull, hfirst⟩ | ⟨place, middle, hinserted, hfirst⟩
    · exact .inl ⟨heap, hheap.grown, hfull, hfirst⟩
    · have hgrown := hinserted.grown hheap
      have hplace : middle.object? place = some (textObject text) := hinserted.object?_self hheap
      rcases ih hgrown.consistent with ⟨after, hrest, hfull, herror⟩ |
        ⟨places, after, hrest, hsettled, hvacant, hok⟩
      · exact .inl ⟨after, hgrown.trans hrest, hfull,
          hfirst.trans (Heap.update_bind_of_error herror)⟩
      · -- the other places were vacant while the first held its text
        have hnew : place ∉ places := by
          intro hmem
          rw [hvacant place hmem] at hplace
          cases hplace
        have hbefore : ∀ other ∈ places, heap.object? other = none := by
          intro other hmem
          have hne : other ≠ place := fun hsame => hnew (hsame ▸ hmem)
          have hother := hvacant other hmem
          rwa [hinserted.object?_eq hheap, if_neg hne] at hother
        have hkept := hrest.extends _ _ hplace
        exact .inr ⟨place :: places, after, hgrown.trans hrest, hsettled.cons hkept hnew,
          List.forall_mem_cons.2 ⟨hinserted.object?_eq_none hheap, hbefore⟩,
          hfirst.trans (Heap.update_bind_of_ok hok)⟩

/-- The texts and the array are put into the heap, unless there is no place left. -/
theorem ofTexts_cases (hheap : heap.Consistent) (texts : List String) :
    (∃ after, heap.Grown after ∧ Heap.maxPlaces ≤ after.entries.size ∧
      ofTexts texts heap = .error .exhausted after) ∨
    ∃ places array after, heap.Grown after ∧ Provided after texts places array ∧
      (∀ place ∈ places ++ [array], heap.object? place = none) ∧
      ofTexts texts heap = .ok (ofArrayAt array) after := by
  rcases textReferences_cases hheap texts with ⟨after, hgrown, hfull, herror⟩ |
    ⟨places, middle, hgrown, hsettled, hvacant, hok⟩
  · exact .inl ⟨after, hgrown, hfull, Heap.update_bind_of_error herror⟩
  · have hcreate : ofTexts texts heap =
        (Heap.insert (arrayOf places) >>= fun address =>
          Heap.look (·.reference address) >>= fun argument => pure (ofArgs [argument])) middle := by
      rw [← Heap.create_eq_insert]
      exact Heap.update_bind_of_ok hok
    rcases Heap.insert_reference_cases hgrown.consistent (arrayOf places)
        (fun argument => pure (ofArgs [argument])) with
      ⟨hfull, herror⟩ | ⟨array, after, hinserted, hdone⟩
    · exact .inl ⟨middle, hgrown, hfull, hcreate.trans herror⟩
    · have hlater := hinserted.grown hgrown.consistent
      have hnone := hinserted.object?_eq_none hgrown.consistent
      have hnew : array ∉ places := by
        intro hmem
        obtain ⟨object, hobject⟩ := hsettled.exists_object hmem
        rw [hnone] at hobject
        cases hobject
      have hbefore : heap.object? array = none := by
        cases hobject : heap.object? array with
        | none => rfl
        | some object => rw [hgrown.extends _ _ hobject] at hnone; cases hnone
      have hprovided : Provided after texts places array :=
        { hsettled.keep fun _ _ => hlater.extends _ with
          array_eq := hinserted.object?_self hgrown.consistent
          array_new := hnew }
      refine .inr ⟨places, array, after, hgrown.trans hlater, hprovided, ?_, hcreate.trans hdone⟩
      intro place hplace
      rcases List.mem_append.1 hplace with hmem | hmem
      · exact hvacant place hmem
      · rw [List.mem_singleton.1 hmem]
        exact hbefore

/-! ## Places in the order of making -/

section

variable {places : List Address} {array : Address} {policy : ReclaimPolicy}

/-- The place that an object has which was made as that of the address in a heap of its own. -/
def toPlace (places : List Address) (address : Address) : Address :=
  places.getD address.index.toNat address

theorem toPlace_ofNat {i : Nat} {place : Address} (hi : i < Heap.maxPlaces)
    (hplace : places[i]? = some place) : toPlace places ⟨UInt32.ofNat i, 0⟩ = place := by
  have hindex : (UInt32.ofNat i).toNat = i := by
    rw [UInt32.toNat_ofNat']
    exact Nat.mod_eq_of_lt hi
  rw [toPlace, List.getD_eq_getElem?_getD, hindex, hplace, Option.getD_some]

theorem Provided.nodup_all (h : Provided heap texts places array) :
    (places ++ [array]).Nodup := by
  rw [List.nodup_append]
  refine ⟨h.nodup, List.nodup_singleton array, ?_⟩
  rintro place hplace other hother rfl
  exact h.array_new (List.mem_singleton.1 hother ▸ hplace)

theorem Provided.exists_object (h : Provided heap texts places array) :
    ∀ place ∈ places ++ [array], ∃ object, heap.object? place = some object := by
  intro place hplace
  rcases List.mem_append.1 hplace with hmem | hmem
  · exact h.toSettled.exists_object hmem
  · rw [List.mem_singleton.1 hmem]
    exact ⟨_, h.array_eq⟩

/-- There is room for the texts and the array in a heap of their own. -/
theorem Provided.room (h : Provided heap texts places array) : texts.length < Heap.maxPlaces := by
  have hlength := Heap.length_le_maxPlaces h.nodup_all h.exists_object
  rw [List.length_append, List.length_singleton, h.length_eq] at hlength
  exact hlength

theorem Provided.getElem?_array (h : Provided heap texts places array) :
    (places ++ [array])[texts.length]? = some array := by
  rw [← h.length_eq]
  exact List.getElem?_concat_length

theorem Provided.relocate_textArray (h : Provided heap texts places array) :
    (textArray 0 texts.length).relocate (toPlace (places ++ [array])) = arrayOf places := by
  have hroom := h.room
  have hpayload : (referencesFrom 0 texts.length).map
      (Value.relocate (toPlace (places ++ [array]))) = referencesTo places := by
    apply List.ext_getElem
    · simp [referencesFrom, referencesTo, h.length_eq]
    · intro i hi hi'
      have hplace : i < places.length := by simpa [referencesTo] using hi'
      have hmoved : toPlace (places ++ [array]) ⟨UInt32.ofNat i, 0⟩ = places[i] := by
        apply toPlace_ofNat
        · have := h.length_eq
          omega
        · rw [List.getElem?_append_left hplace, List.getElem?_eq_getElem hplace]
      simp [referencesFrom, referencesTo, Value.relocate, Reference.relocate, hmoved]
  simp only [textArray, HeapObject.relocate, hpayload]
  rfl

theorem Provided.relocate_ofArray (h : Provided heap texts places array) :
    (ofArray texts.length).relocate (toPlace (places ++ [array])) = ofArrayAt array := by
  have hmoved := toPlace_ofNat h.room h.getElem?_array
  simp [ofArray, ofArrayAt, ofArgs, Activation.relocate, Value.relocate, Reference.relocate, hmoved]

/-- What the function can reach in a heap of its own is mirrored where the texts and the array
are. -/
theorem Provided.mirrored
    {reference : Reference} (h : Provided heap texts places array)
    (hreaches : ((Heap.empty policy).append (textObjects 0 texts)).Reaches
      (ofArray texts.length).Refers reference) :
    ((Heap.empty policy).append (textObjects 0 texts)).Mirrored heap
      (toPlace (places ++ [array])) reference := by
  have hroom := h.room
  obtain ⟨i, hi, haddress⟩ := place_of_reaches hroom hreaches
  have hplaces : i < Heap.maxPlaces := by omega
  rw [Heap.Mirrored, haddress, object?_textObjects hplaces, textObjects]
  rcases Nat.lt_or_eq_of_le hi with hlt | rfl
  · have hplace : i < places.length := by
      rw [h.length_eq]
      exact hlt
    have htext := List.getElem?_eq_getElem hlt
    have hmoved := List.getElem?_eq_getElem hplace
    have hobject := h.object_eq i _ _ htext hmoved
    rw [← List.getElem?_append_left hplace] at hmoved
    rw [toPlace_ofNat hplaces hmoved, hobject, List.getElem?_append_left (by simpa using hlt),
      List.getElem?_map, htext]
    simp only [Option.map_some, relocate_textObject]
  · have harray : (texts.map textObject ++ [textArray 0 texts.length])[texts.length]? =
        some (textArray 0 texts.length) := by
      rw [← List.length_map (f := textObject)]
      exact List.getElem?_concat_length
    rw [toPlace_ofNat hplaces h.getElem?_array, harray, Option.map_some, h.relocate_textArray]
    exact h.array_eq

/-- The function runs as it does on the same texts in a heap of their own. -/
theorem Provided.invoke_eq
    (h : Provided heap texts places array) (policy : ReclaimPolicy) (program : Program)
    (limits : Limits) :
    Machine.invoke program heap limits (ofArrayAt array) =
      (Machine.invoke program ((Heap.empty policy).append (textObjects 0 texts)) limits
        (ofArray texts.length)).map (Outcome.relocate (toPlace (places ++ [array]))) := by
  rw [← h.relocate_ofArray]
  exact Machine.invoke_relocate fun _ => h.mirrored

/-- What can be reached is not moved together. -/
theorem Provided.toPlace_injective
    {reference reference' : Reference} (h : Provided heap texts places array)
    (hreaches : ((Heap.empty policy).append (textObjects 0 texts)).Reaches
      (ofArray texts.length).Refers reference)
    (hreaches' : ((Heap.empty policy).append (textObjects 0 texts)).Reaches
      (ofArray texts.length).Refers reference')
    (hsame : toPlace (places ++ [array]) reference.address =
      toPlace (places ++ [array]) reference'.address) :
    reference.address = reference'.address := by
  have hroom := h.room
  have hlength : (places ++ [array]).length = texts.length + 1 := by
    rw [List.length_append, h.length_eq, List.length_singleton]
  obtain ⟨i, hi, haddress⟩ := place_of_reaches hroom hreaches
  obtain ⟨j, hj, haddress'⟩ := place_of_reaches hroom hreaches'
  have hplace := List.getElem?_eq_getElem (l := places ++ [array]) (i := i) (by omega)
  have hplace' := List.getElem?_eq_getElem (l := places ++ [array]) (i := j) (by omega)
  rw [haddress, haddress', toPlace_ofNat (by omega) hplace, toPlace_ofNat (by omega) hplace']
    at hsame
  obtain rfl : i = j := (h.nodup_all.getElem_inj_iff).1 hsame
  rw [haddress, haddress']

end

end Activation

end TypedStack
