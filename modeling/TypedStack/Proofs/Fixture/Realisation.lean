import Mathlib.Data.List.Perm.Subperm
import TypedStack.Proofs.Fixture.Building

/-!
# Making heap entries

A heap can be made of entries exactly if they can be put in order, each of them can be made in
some heap, and there are places for all. In the heap that is made, the object of each entry
stands at the address of its label, with the payload that the entry describes under the
labels of all entries: those that an entry refers to are there when it is made, and keep
their labels and places.

Payloads are compared under different labels and heaps. Whatever relates the references that
labels stand for relates the payloads, element by element.
-/

namespace TypedStack

namespace Fixture

variable {labels labels' : Labels} {heap heap' : Heap} {entry : HeapEntry}

/-! ## Labels -/

theorem lookup_eq_some (hlabels : (labels.map (·.1)).Nodup) {label : String} {address : Address} :
    labels.lookup label = some address ↔ (label, address) ∈ labels := by
  induction labels with
  | nil => simp
  | cons first rest ih =>
    obtain ⟨key, found⟩ := first
    obtain ⟨hnew, hrest⟩ := List.nodup_cons.1 hlabels
    rw [List.mem_cons, ← ih hrest, Prod.mk.injEq]
    by_cases hlabel : label = key
    · -- the label does not occur further down
      subst hlabel
      have hnone : rest.lookup label ≠ some address := by
        intro hlookup
        exact hnew (List.mem_map.2 ⟨_, (ih hrest).1 hlookup, rfl⟩)
      rw [List.lookup_cons_self, Option.some.injEq]
      exact ⟨fun h => .inl ⟨rfl, h.symm⟩, fun h => (h.resolve_right hnone).2.symm⟩
    · rw [List.lookup_cons, beq_false_of_ne hlabel]
      exact ⟨.inr, fun h => h.resolve_left fun hfirst => hlabel hfirst.1⟩

theorem resolve_ref_eq_ok {label : String} {value : Value} :
    resolve labels heap (.ref label) = .ok value ↔
      ∃ address object, labels.lookup label = some address ∧
        heap.object? address = some object ∧ value = .ref ⟨address, object.element⟩ := by
  simp only [resolve]
  cases hlabel : labels.lookup label with
  | none => simp
  | some address =>
    cases hobject : heap.object address with
    | error e =>
      obtain ⟨hnone, -⟩ := Heap.object_eq_error.1 hobject
      simp only [Heap.reference, hobject]
      constructor
      · intro h
        cases h
      · rintro ⟨_, object, ⟨⟩, hfound, -⟩
        rw [hnone] at hfound
        cases hfound
    | ok object =>
      have hfound := Heap.object_eq_ok.1 hobject
      simp only [Heap.reference, hobject]
      constructor
      · intro h
        cases h
        exact ⟨address, object, rfl, hfound, rfl⟩
      · rintro ⟨_, other, ⟨⟩, hother, rfl⟩
        rw [hfound] at hother
        cases hother
        rfl

/-! ## Payloads under other labels and heaps -/

section

variable {R : Value → Value → Prop}

/-- What the label stands for, it stands for a related value in the other heap. -/
def Follows (R : Value → Value → Prop) (labels : Labels) (heap : Heap) (labels' : Labels)
    (heap' : Heap) (label : String) : Prop :=
  ∀ value, resolve labels heap (.ref label) = .ok value →
    ∃ value', resolve labels' heap' (.ref label) = .ok value' ∧ R value value'

theorem forall_mem_of_related
    {P Q : Value → Prop} {values values' : List Value}
    (hstep : ∀ value value', R value value' → P value → Q value')
    (h : List.Forall₂ R values values') (hvalues : ∀ value ∈ values, P value) :
    ∀ value ∈ values', Q value := by
  induction h with
  | nil => exact nofun
  | cons hrelated _ ih =>
    obtain ⟨hfirst, hrest⟩ := List.forall_mem_cons.1 hvalues
    exact List.forall_mem_cons.2 ⟨hstep _ _ hrelated hfirst, ih hrest⟩

variable (hscalar : ∀ value : Value, value.kind ≠ .ref → R value value)
include hscalar

theorem resolve_related
    {spec : ValueSpec} {value : Value}
    (hlabels : ∀ label ∈ spec.label?, Follows R labels heap labels' heap' label)
    (h : resolve labels heap spec = .ok value) :
    ∃ value', resolve labels' heap' spec = .ok value' ∧ R value value' := by
  cases spec with
  | ref label => exact hlabels label rfl value h
  | _ =>
    cases h
    exact ⟨_, rfl, hscalar _ nofun⟩

theorem resolveAll_related
    {specs : List ValueSpec} {values : List Value}
    (hlabels : ∀ label ∈ specs.filterMap ValueSpec.label?,
      Follows R labels heap labels' heap' label)
    (h : resolveAll labels heap specs = .ok values) :
    ∃ values', resolveAll labels' heap' specs = .ok values' ∧
      List.Forall₂ R values values' := by
  have hresolved := mapM_eq_ok.1 h
  clear h
  induction hresolved with
  | nil => exact ⟨[], rfl, .nil⟩
  | @cons spec value specs values hvalue _ ih =>
    obtain ⟨value', hvalue', hrelated⟩ := resolve_related hscalar
      (fun label hlabel => hlabels label (List.mem_filterMap.2 ⟨spec, List.mem_cons_self, hlabel⟩))
      hvalue
    obtain ⟨values', hvalues', hall⟩ := ih fun label hlabel => hlabels label (by
      obtain ⟨other, hother, hlabel⟩ := List.mem_filterMap.1 hlabel
      exact List.mem_filterMap.2 ⟨other, List.mem_cons_of_mem _ hother, hlabel⟩)
    exact ⟨value' :: values', mapM_eq_ok.2 (.cons hvalue' (mapM_eq_ok.1 hvalues')),
      .cons hrelated hall⟩

theorem payload_related
    {kind : Kind} {values : List Value}
    (hlabels : ∀ label ∈ entry.references, Follows R labels heap labels' heap' label)
    (h : payload labels heap entry kind = .ok values) :
    ∃ values', payload labels' heap' entry kind = .ok values' ∧ List.Forall₂ R values values' := by
  have hscalars : ∀ values : List Value, (∀ value ∈ values, value.kind ≠ .ref) →
      List.Forall₂ R values values := by
    intro values hvalues
    exact List.forall₂_same.2 fun value hvalue => hscalar value (hvalues value hvalue)
  unfold HeapEntry.references at hlabels
  unfold payload at h ⊢
  cases helements : entry.elements with
  | some specs =>
    rw [helements] at hlabels
    cases htext : entry.text with
    | some text =>
      simp only [helements, htext] at h
      cases h
    | none =>
      simp only [helements, htext] at h ⊢
      exact resolveAll_related hscalar hlabels h
  | none =>
    cases htext : entry.text with
    | some text =>
      simp only [helements, htext] at h ⊢
      refine ⟨values, h, hscalars values ?_⟩
      split at h
      · cases h
        intro value hvalue
        obtain ⟨byte, -, rfl⟩ := List.mem_map.1 hvalue
        exact nofun
      · cases h
    | none =>
      simp only [helements, htext] at h ⊢
      refine ⟨values, h, hscalars values ?_⟩
      split at h
      · cases h
      · rename_i zero hzero
        cases h
        intro value hvalue
        rw [List.eq_of_mem_replicate hvalue]
        exact Value.kind_ne_ref_of_zero? hzero

end

/-! ## Entries that have been made -/

/-- The object that an entry describes, given what its labels stand for. -/
structure Describes (labels : Labels) (heap : Heap) (entry : HeapEntry) (object : HeapObject) :
    Prop where
  kind_eq : resolveKind entry.kind = .ok object.element
  payload_eq : payload labels heap entry object.element = .ok object.payload
  count_eq : checkCount entry object.payload.length = .ok ()

/-- To make an entry is to put the object that it describes into the heap. -/
theorem makeEntry_eq_ok_iff_describes :
    makeEntry labels heap entry = .ok (labels', heap') ↔
      ∃ object address, Describes labels heap entry object ∧
        Heap.insert object heap = .ok address heap' ∧ labels' = (entry.id, address) :: labels := by
  rw [makeEntry_eq_ok]
  constructor
  · rintro ⟨kind, values, address, hkind, hvalues, hcount, hcreate, hlabels⟩
    obtain ⟨object, rfl, rfl, -⟩ := Heap.inserted_of_create hcreate
    rw [Heap.create_eq_insert] at hcreate
    exact ⟨object, address, ⟨hkind, hvalues, hcount⟩, hcreate, hlabels⟩
  · rintro ⟨object, address, hdescribes, hinsert, hlabels⟩
    rw [← Heap.create_eq_insert] at hinsert
    exact ⟨object.element, object.payload, address, hdescribes.kind_eq, hdescribes.payload_eq,
      hdescribes.count_eq, hinsert, hlabels⟩

/-- The object that an entry describes stands at the address of its label. -/
structure Stands (labels : Labels) (heap : Heap) (entry : HeapEntry) (address : Address)
    (object : HeapObject) : Prop extends Describes labels heap entry object where
  lookup_eq : labels.lookup entry.id = some address
  object_eq : heap.object? address = some object

theorem Stands.resolve_eq {address : Address} {object : HeapObject}
    (h : Stands labels heap entry address object) :
    resolve labels heap (.ref entry.id) = .ok (.ref ⟨address, object.element⟩) :=
  resolve_ref_eq_ok.2 ⟨address, object, h.lookup_eq, h.object_eq, rfl⟩

/-- The entries of the given numbers have been made, and nothing else. -/
structure Laid (entries : List HeapEntry) (made : List Nat) (labels : Labels) (heap : Heap) :
    Prop where
  consistent : heap.Consistent
  packed : heap.Packed made.length
  labels_nodup : (labels.map (·.1)).Nodup
  addresses_nodup : (labels.map (·.2)).Nodup
  labelled : ∀ label ∈ labels.map (·.1), ∃ index ∈ made, indexOf? entries label = some index
  live : ∀ address ∈ labels.map (·.2), ∃ object, heap.object? address = some object
  stands : ∀ index ∈ made, ∀ entry, entries[index]? = some entry →
    ∃ address object, Stands labels heap entry address object

variable {entries : List HeapEntry} {made : List Nat}

theorem laid_nil (entries : List HeapEntry) (policy : ReclaimPolicy) :
    Laid entries [] [] (.empty policy) where
  consistent := Heap.consistent_empty policy
  packed := Heap.packed_empty policy
  labels_nodup := List.nodup_nil
  addresses_nodup := List.nodup_nil
  labelled := nofun
  live := nofun
  stands := nofun

/-- A label keeps what it stands for when another one is added. -/
theorem follows_cons {id : String} {address : Address} (hid : labels.lookup id = none)
    (hextends : heap.Extends heap') (label : String) :
    Follows Eq labels heap ((id, address) :: labels) heap' label := by
  intro value hvalue
  obtain ⟨found, object, hlookup, hobject, rfl⟩ := resolve_ref_eq_ok.1 hvalue
  have hlabel : label ≠ id := by
    rintro rfl
    rw [hid] at hlookup
    cases hlookup
  refine ⟨_, resolve_ref_eq_ok.2 ⟨found, object, ?_, hextends _ _ hobject, rfl⟩, rfl⟩
  rw [List.lookup_cons, beq_false_of_ne hlabel]
  exact hlookup

theorem Describes.cons {id : String} {address : Address} {object : HeapObject}
    (h : Describes labels heap entry object) (hid : labels.lookup id = none)
    (hextends : heap.Extends heap') :
    Describes ((id, address) :: labels) heap' entry object where
  kind_eq := h.kind_eq
  payload_eq := by
    obtain ⟨values, hvalues, hsame⟩ := payload_related (fun _ _ => rfl)
      (fun label _ => follows_cons hid hextends label) h.payload_eq
    rw [List.forall₂_eq_eq_eq] at hsame
    rw [hvalues, hsame]
  count_eq := h.count_eq

theorem Stands.cons {id : String} {address address' : Address} {object : HeapObject}
    (h : Stands labels heap entry address object) (hid : labels.lookup id = none)
    (hextends : heap.Extends heap') :
    Stands ((id, address') :: labels) heap' entry address object where
  toDescribes := h.toDescribes.cons hid hextends
  lookup_eq := by
    have hne : entry.id ≠ id := by
      intro hsame
      rw [← hsame, h.lookup_eq] at hid
      cases hid
    rw [List.lookup_cons, beq_false_of_ne hne]
    exact h.lookup_eq
  object_eq := hextends _ _ h.object_eq

theorem Laid.lookup_eq_none
    (h : Laid entries made labels heap) {index : Nat}
    (hentry : indexOf? entries entry.id = some index) (hnew : index ∉ made) :
    labels.lookup entry.id = none := by
  rw [Option.eq_none_iff_forall_not_mem]
  intro address hlookup
  have hmem := (lookup_eq_some h.labels_nodup).1 hlookup
  obtain ⟨found, hfound, hindex⟩ := h.labelled entry.id (List.mem_map_of_mem hmem)
  rw [hentry] at hindex
  cases hindex
  exact hnew hfound

theorem Laid.of_makeEntry
    (h : Laid entries made labels heap) (hids : (entries.map (·.id)).Nodup) {index : Nat}
    (hentry : entries[index]? = some entry) (hnew : index ∉ made)
    (hmade : makeEntry labels heap entry = .ok (labels', heap')) :
    Laid entries (index :: made) labels' heap' := by
  obtain ⟨object, address, hdescribes, hinsert, rfl⟩ := makeEntry_eq_ok_iff_describes.1 hmade
  have hinserted := Heap.inserted_of_insert hinsert
  have hindex := indexOf?_id hids hentry
  have hid := h.lookup_eq_none hindex hnew
  have hextends := hinserted.extends h.consistent
  have hobject := hinserted.object?_self h.consistent
  refine ⟨h.consistent.of_inserted hinserted, h.packed.of_inserted hinserted,
    List.nodup_cons.2 ⟨?_, h.labels_nodup⟩, List.nodup_cons.2 ⟨?_, h.addresses_nodup⟩,
    List.forall_mem_cons.2 ⟨⟨index, List.mem_cons_self, hindex⟩, ?_⟩,
    List.forall_mem_cons.2 ⟨⟨object, hobject⟩, ?_⟩, List.forall_mem_cons.2 ⟨?_, ?_⟩⟩
  · intro hmem
    obtain ⟨found, hfound, hsame⟩ := h.labelled _ hmem
    rw [hindex] at hsame
    cases hsame
    exact hnew hfound
  · -- what had an address before was there before
    intro hmem
    obtain ⟨found, hfound⟩ := h.live _ hmem
    rw [hinserted.object?_eq_none h.consistent] at hfound
    cases hfound
  · intro label hlabel
    obtain ⟨found, hfound, hsame⟩ := h.labelled label hlabel
    exact ⟨found, List.mem_cons_of_mem _ hfound, hsame⟩
  · intro other hother
    obtain ⟨found, hfound⟩ := h.live other hother
    exact ⟨found, hextends _ _ hfound⟩
  · intro same hsame
    rw [hentry] at hsame
    cases hsame
    exact ⟨address, object, hdescribes.cons hid hextends, List.lookup_cons_self, hobject⟩
  · intro found hfound other hother
    obtain ⟨address, object, hstands⟩ := h.stands found hfound other hother
    exact ⟨address, object, hstands.cons hid hextends⟩

theorem Laid.of_makeEntries
    {order : List Nat} (h : Laid entries made labels heap) (hids : (entries.map (·.id)).Nodup)
    (horder : ∀ index ∈ order, index < entries.length) (hnodup : (order.reverse ++ made).Nodup)
    (hmade : makeEntries entries order labels heap = .ok (labels', heap')) :
    Laid entries (order.reverse ++ made) labels' heap' := by
  induction order generalizing made labels heap with
  | nil =>
    cases hmade
    exact h
  | cons index rest ih =>
    obtain ⟨hindex, hrest⟩ := List.forall_mem_cons.1 horder
    have hentry := List.getElem?_eq_getElem hindex
    rw [List.reverse_cons, List.append_assoc, List.singleton_append] at hnodup ⊢
    have hnew := (List.nodup_cons.1 (List.nodup_append.1 hnodup).2.1).1
    simp only [Fixture.makeEntries, hentry] at hmade
    split at hmade
    · cases hmade
    · rename_i labels'' heap'' hfirst
      exact ih (h.of_makeEntry hids hentry hnew hfirst) hrest hnodup hmade

/-! ## Entries that can be made -/

/-- There are labels and a heap under which the entry describes an object. -/
def HeapEntry.Makeable (entry : HeapEntry) : Prop :=
  ∃ labels heap object, Describes labels heap entry object

/-- What describes an object at all does so wherever its labels are known. -/
theorem HeapEntry.Makeable.exists_describes
    (h : entry.Makeable)
    (hlabels : ∀ label ∈ entry.references, ∃ value, resolve labels heap (.ref label) = .ok value) :
    ∃ object, Describes labels heap entry object := by
  obtain ⟨labels₀, heap₀, object, hdescribes⟩ := h
  -- the payload has values of the same kinds, whatever the labels stand for
  have hfollows : ∀ label ∈ entry.references,
      Follows (fun value value' => value'.kind = value.kind) labels₀ heap₀ labels heap label := by
    intro label hlabel value hvalue
    obtain ⟨value', hvalue'⟩ := hlabels label hlabel
    obtain ⟨_, _, -, -, rfl⟩ := resolve_ref_eq_ok.1 hvalue
    obtain ⟨_, _, -, -, rfl⟩ := resolve_ref_eq_ok.1 hvalue'
    exact ⟨_, hvalue', rfl⟩
  have hscalar : ∀ value : Value, value.kind ≠ .ref → value.kind = value.kind := fun _ _ => rfl
  obtain ⟨values, hvalues, hkinds⟩ := payload_related hscalar hfollows hdescribes.payload_eq
  have huniform : ∀ value ∈ values, value.kind = object.element :=
    forall_mem_of_related (fun _ _ hsame helement => hsame.trans helement) hkinds object.uniform
  refine ⟨⟨object.element, values, huniform⟩, hdescribes.kind_eq, hvalues, ?_⟩
  rw [← hkinds.length_eq]
  exact hdescribes.count_eq

/-- The labels of the entries of the given numbers stand for references. -/
def Known (entries : List HeapEntry) (made : List Nat) (labels : Labels) (heap : Heap) : Prop :=
  ∀ index ∈ made, ∀ entry, entries[index]? = some entry →
    ∃ value, resolve labels heap (.ref entry.id) = .ok value

theorem Laid.known (h : Laid entries made labels heap) : Known entries made labels heap := by
  intro index hindex entry hentry
  obtain ⟨address, object, hstands⟩ := h.stands index hindex entry hentry
  exact ⟨_, hstands.resolve_eq⟩

/-- What is behind an entry in the order is all that it refers to. -/
theorem Known.exists_resolve
    (h : Known entries made labels heap) {index : Nat} (hentry : entries[index]? = some entry)
    (hresolved : Resolved entries made (referencesAt entries index)) :
    ∀ label ∈ entry.references, ∃ value, resolve labels heap (.ref label) = .ok value := by
  intro label hlabel
  obtain ⟨target, hmem, htarget⟩ := hresolved label (mem_referencesAt.2 ⟨entry, hentry, hlabel⟩)
  obtain ⟨other, hother, rfl⟩ := exists_entry_of_indexOf? htarget
  exact h target hmem other hother

theorem Ordered.of_append {front order : List Nat} (h : Ordered entries (front ++ order)) :
    Ordered entries order := by
  induction front with
  | nil => exact h
  | cons index front ih =>
    cases h with
    | cons _ _ _ ordered => exact ih ordered

theorem Ordered.length_le {order : List Nat} (h : Ordered entries order) :
    order.length ≤ entries.length := by
  have hsub : order ⊆ List.range entries.length :=
    fun index hindex => List.mem_range.2 (h.lt_length hindex)
  simpa using (h.nodup.subperm hsub).length_le

theorem Laid.exists_makeEntries
    {order : List Nat} (h : Laid entries made labels heap) (hids : (entries.map (·.id)).Nodup)
    (hordered : Ordered entries (order.reverse ++ made))
    (hmakeable : ∀ entry ∈ entries, entry.Makeable)
    (hroom : entries.length ≤ Heap.maxPlaces) :
    ∃ labels' heap', makeEntries entries order labels heap = .ok (labels', heap') := by
  induction order generalizing made labels heap with
  | nil => exact ⟨labels, heap, rfl⟩
  | cons index rest ih =>
    rw [List.reverse_cons, List.append_assoc, List.singleton_append] at hordered
    have hfront : Ordered entries (index :: made) := hordered.of_append
    have hplace : ¬heap.Full := by
      intro hfull
      have hsize := h.packed.size_eq
      have hlength := hfront.length_le
      have hplaces := hfull.2
      rw [List.length_cons] at hlength
      omega
    cases hfront with
    | cons new bound resolved ordered =>
      have hentry := List.getElem?_eq_getElem bound
      obtain ⟨object, hdescribes⟩ := (hmakeable _ (List.getElem_mem bound)).exists_describes
        (h.known.exists_resolve hentry resolved)
      obtain ⟨address, heap'', hinsert⟩ := Heap.exists_insert_eq_ok hplace object
      have hfirst := makeEntry_eq_ok_iff_describes.2 ⟨object, address, hdescribes, hinsert, rfl⟩
      obtain ⟨labels', heap', hrest⟩ := ih (h.of_makeEntry hids hentry new hfirst) hordered
      refine ⟨labels', heap', ?_⟩
      simp only [Fixture.makeEntries, hentry, hfirst]
      exact hrest

/-! ## Heaps made of entries -/

/-- The labels are those of the entries, each with an address of its own, where the object
stands that the entry describes. -/
structure Realised (entries : List HeapEntry) (labels : Labels) (heap : Heap) : Prop where
  labels_nodup : (labels.map (·.1)).Nodup
  addresses_nodup : (labels.map (·.2)).Nodup
  labelled : ∀ label ∈ labels.map (·.1), ∃ entry ∈ entries, entry.id = label
  stands : ∀ entry ∈ entries, ∃ address object, Stands labels heap entry address object

variable {policy : ReclaimPolicy}

theorem laid_of_buildHeap (h : buildHeap entries (.empty policy) = .ok (labels, heap)) :
    ∃ made, (∀ index < entries.length, index ∈ made) ∧ Laid entries made labels heap := by
  obtain ⟨order, horder, hmade⟩ := bind_eq_ok.1 h
  obtain ⟨hids, hordered, hall⟩ := ordered_of_creationOrder horder
  have hlaid := (laid_nil entries policy).of_makeEntries hids
    (fun index hindex => hordered.lt_length (List.mem_reverse.2 hindex))
    (by rw [List.append_nil]; exact hordered.nodup) hmade
  rw [List.append_nil] at hlaid
  exact ⟨order.reverse, fun index hindex => List.mem_reverse.2 (hall index hindex), hlaid⟩

theorem realised_of_buildHeap (h : buildHeap entries (.empty policy) = .ok (labels, heap)) :
    Realised entries labels heap := by
  obtain ⟨made, hall, hlaid⟩ := laid_of_buildHeap h
  refine ⟨hlaid.labels_nodup, hlaid.addresses_nodup, ?_, ?_⟩
  · intro label hlabel
    obtain ⟨index, -, hindex⟩ := hlaid.labelled label hlabel
    obtain ⟨entry, hentry, hid⟩ := exists_entry_of_indexOf? hindex
    exact ⟨entry, List.mem_of_getElem? hentry, hid⟩
  · intro entry hentry
    obtain ⟨index, hindex, rfl⟩ := List.mem_iff_getElem.1 hentry
    exact hlaid.stands index (hall index hindex) _ (List.getElem?_eq_getElem hindex)

/-- A heap can be made of entries that can be put in order and made one by one, if there is a
place for each, and of no others. -/
theorem exists_buildHeap_iff :
    (∃ labels heap, buildHeap entries (.empty policy) = .ok (labels, heap)) ↔
      Orderable entries ∧ (∀ entry ∈ entries, entry.Makeable) ∧
        entries.length ≤ Heap.maxPlaces := by
  constructor
  · rintro ⟨labels, heap, h⟩
    have hrealised := realised_of_buildHeap h
    refine ⟨?_, ?_, (buildHeap_packed h).size_le⟩
    · obtain ⟨order, horder, -⟩ := bind_eq_ok.1 h
      exact orderable_of_creationOrder horder
    · intro entry hentry
      obtain ⟨address, object, hstands⟩ := hrealised.stands entry hentry
      exact ⟨labels, heap, object, hstands.toDescribes⟩
  · rintro ⟨horderable, hmakeable, hroom⟩
    cases horder : creationOrder entries with
    | error error => exact absurd (fault_of_creationOrder horder) horderable.not_fault
    | ok order =>
      obtain ⟨hids, hordered, -⟩ := ordered_of_creationOrder horder
      obtain ⟨labels, heap, hmade⟩ := (laid_nil entries policy).exists_makeEntries hids
        (by rwa [List.append_nil]) hmakeable hroom
      exact ⟨labels, heap, (bind_eq_of_eq_ok horder).trans hmade⟩

end Fixture

end TypedStack
