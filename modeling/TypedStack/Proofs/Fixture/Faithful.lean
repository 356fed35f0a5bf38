import TypedStack.Proofs.Fixture.Realisation
import TypedStack.Proofs.Floating.WidenWord

/-!
# Heaps that are faithful to their entries

What a heap made of entries holds, in terms of the entries alone. The labels are one-to-one
between the identifiers and the addresses of all objects, and each object has the kind and the
payload that its entry spells out: the bytes of a text, zeros, or the elements, in which a
label has become a reference to the object that it names.

Making entries in the order of their references fails for what one entry says about itself,
never for want of a label or of the object it names: whatever an entry refers to has been made
before it, and nothing is released in between.
-/

namespace TypedStack

namespace Fixture

variable {labels labels' : Labels} {heap heap' : Heap} {entry : HeapEntry}

/-! ## What entries spell out -/

/-- The value that an element stands for. A label stands for a reference to the labelled
address, with the kind of the elements of the object there. -/
inductive Denotes (labels : Labels) (heap : Heap) : ValueSpec → Value → Prop
  | integer (kind : IntegerKind) (n : Int) :
    Denotes labels heap (.integer kind n) (.wrapInteger kind n)
  | half (x : FloatBits .binary32) :
    Denotes labels heap (.half x) (.float .binary16 (x.convert .binary16))
  | single (x : FloatBits .binary32) : Denotes labels heap (.single x) (.float .binary32 x)
  | double (x : FloatBits .binary64) : Denotes labels heap (.double x) (.float .binary64 x)
  | bool (b : Bool) : Denotes labels heap (.bool b) (.bool b)
  | ref {label : String} {address : Address} {object : HeapObject}
      (lookup_eq : labels.lookup label = some address)
      (object_eq : heap.object? address = some object) :
    Denotes labels heap (.ref label) (.ref ⟨address, object.element⟩)

theorem denotes_of_resolve {spec : ValueSpec} {value : Value}
    (h : resolve labels heap spec = .ok value) : Denotes labels heap spec value := by
  cases spec with
  | ref label =>
    obtain ⟨address, object, hlookup, hobject, rfl⟩ := resolve_ref_eq_ok.1 h
    exact .ref hlookup hobject
  | half x =>
    obtain rfl := Except.ok.inj h
    rw [FloatBits.halfOfSingle_eq_convert]
    exact .half x
  | _ =>
    obtain rfl := Except.ok.inj h
    constructor

/-- The payload that an entry of the given kind spells out. -/
inductive Fills (labels : Labels) (heap : Heap) (entry : HeapEntry) (kind : Kind) :
    List Value → Prop
  | text {text : String} (elements_eq : entry.elements = none) (text_eq : entry.text = some text)
      (kind_eq : kind = .integer .u8) :
    Fills labels heap entry kind ((Bytes.ofString text).map Value.u8)
  | zeros {zero : Value} (elements_eq : entry.elements = none) (text_eq : entry.text = none)
      (zero_eq : Value.zero? kind = some zero) :
    Fills labels heap entry kind (List.replicate (entry.count.getD 0) zero)
  | elements {specs : List ValueSpec} {values : List Value}
      (elements_eq : entry.elements = some specs) (text_eq : entry.text = none)
      (denotes : List.Forall₂ (Denotes labels heap) specs values) :
    Fills labels heap entry kind values

theorem fills_of_payload {kind : Kind} {values : List Value}
    (h : payload labels heap entry kind = .ok values) : Fills labels heap entry kind values := by
  unfold payload at h
  split at h
  · cases h
  · rename_i text helements htext
    obtain ⟨hkind, hvalues⟩ | ⟨-, hvalues⟩ := ite_eq_iff.1 h
    · exact Except.ok.inj hvalues ▸ .text helements htext hkind
    · cases hvalues
  · rename_i specs helements htext
    exact .elements helements htext ((mapM_eq_ok.1 h).imp fun _ _ => denotes_of_resolve)
  · rename_i helements htext
    split at h
    · cases h
    · rename_i zero hzero
      exact Except.ok.inj h ▸ .zeros helements htext hzero

/-- The object has the kind and the payload that the entry spells out, and the length that it
declares if it does. -/
structure Realises (labels : Labels) (heap : Heap) (entry : HeapEntry) (object : HeapObject) :
    Prop where
  kind_eq : Kind.ofName? entry.kind = some object.element
  fills : Fills labels heap entry object.element object.payload
  length_eq : ∀ count, entry.count = some count → object.payload.length = count

theorem resolveKind_eq_ok {name : String} {kind : Kind} :
    resolveKind name = .ok kind ↔ Kind.ofName? name = some kind := by
  unfold resolveKind
  cases Kind.ofName? name <;> simp

theorem checkCount_eq_ok {found : Nat} :
    checkCount entry found = .ok () ↔ ∀ count, entry.count = some count → found = count := by
  unfold checkCount
  cases entry.count <;> simp [eq_comm]

theorem Describes.realises {object : HeapObject} (h : Describes labels heap entry object) :
    Realises labels heap entry object where
  kind_eq := resolveKind_eq_ok.1 h.kind_eq
  fills := fills_of_payload h.payload_eq
  length_eq := checkCount_eq_ok.1 h.count_eq

/-! ## The labels of all objects -/

/-- The labels have the address of every object, and there are as many of them as objects. -/
structure Inventory (labels : Labels) (heap : Heap) : Prop where
  consistent : heap.Consistent
  listed : ∀ address object, heap.object? address = some object → address ∈ labels.map (·.2)
  live_eq : heap.live = labels.length

theorem inventory_nil (policy : ReclaimPolicy) : Inventory [] (.empty policy) where
  consistent := Heap.consistent_empty policy
  listed := by simp [Heap.object?, Heap.empty]
  live_eq := rfl

theorem Inventory.of_makeEntry
    (h : Inventory labels heap) (hmade : makeEntry labels heap entry = .ok (labels', heap')) :
    Inventory labels' heap' := by
  obtain ⟨object, address, -, hinsert, rfl⟩ := makeEntry_eq_ok_iff_describes.1 hmade
  have hinserted := Heap.inserted_of_insert hinsert
  refine ⟨h.consistent.of_inserted hinserted, ?_, ?_⟩
  · intro other found hfound
    rw [List.map_cons, List.mem_cons]
    by_cases hother : other = address
    · exact .inl hother
    · rw [hinserted.object?_eq h.consistent, if_neg hother] at hfound
      exact .inr (h.listed other found hfound)
  · rw [hinserted.live_eq, h.live_eq, List.length_cons]

theorem Inventory.of_makeEntries
    {entries : List HeapEntry} {order : List Nat} (h : Inventory labels heap)
    (hmade : makeEntries entries order labels heap = .ok (labels', heap')) :
    Inventory labels' heap' := by
  induction order generalizing labels heap with
  | nil =>
    cases hmade
    exact h
  | cons index rest ih =>
    unfold makeEntries at hmade
    split at hmade
    · exact ih h hmade
    · split at hmade
      · cases hmade
      · rename_i hfirst
        exact ih (h.of_makeEntry hfirst) hmade

/-- The labels are one-to-one between the identifiers of the entries and the addresses of all
objects, of which there is one for each entry. -/
structure Labelling (entries : List HeapEntry) (labels : Labels) (heap : Heap) : Prop where
  ids_nodup : (entries.map (·.id)).Nodup
  defined_iff : ∀ id, (∃ address, labels.lookup id = some address) ↔ id ∈ entries.map (·.id)
  injective : ∀ id id' address, labels.lookup id = some address →
    labels.lookup id' = some address → id = id'
  live_iff : ∀ address, heap.isLive address = true ↔ ∃ id, labels.lookup id = some address
  live_eq : heap.live = entries.length

variable {entries : List HeapEntry}

theorem Realised.defined_iff (h : Realised entries labels heap) (id : String) :
    id ∈ labels.map (·.1) ↔ id ∈ entries.map (·.id) := by
  constructor
  · intro hid
    obtain ⟨entry, hentry, rfl⟩ := h.labelled id hid
    exact List.mem_map_of_mem hentry
  · intro hid
    obtain ⟨entry, hentry, rfl⟩ := List.mem_map.1 hid
    obtain ⟨address, object, hstands⟩ := h.stands entry hentry
    exact List.mem_map_of_mem ((lookup_eq_some h.labels_nodup).1 hstands.lookup_eq)

theorem Realised.labelling
    (h : Realised entries labels heap) (hinventory : Inventory labels heap)
    (hids : (entries.map (·.id)).Nodup) : Labelling entries labels heap where
  ids_nodup := hids
  defined_iff id := by
    rw [← h.defined_iff, List.mem_map]
    constructor
    · rintro ⟨address, hlookup⟩
      exact ⟨_, (lookup_eq_some h.labels_nodup).1 hlookup, rfl⟩
    · rintro ⟨⟨_, address⟩, hmem, rfl⟩
      exact ⟨address, (lookup_eq_some h.labels_nodup).2 hmem⟩
  injective id id' address hid hid' := by
    have hmem := (lookup_eq_some h.labels_nodup).1 hid
    have hmem' := (lookup_eq_some h.labels_nodup).1 hid'
    exact congrArg Prod.fst (List.inj_on_of_nodup_map h.addresses_nodup hmem hmem' rfl)
  live_iff address := by
    rw [Heap.isLive, Option.isSome_iff_exists]
    constructor
    · rintro ⟨object, hobject⟩
      obtain ⟨⟨id, _⟩, hmem, rfl⟩ := List.mem_map.1 (hinventory.listed address object hobject)
      exact ⟨id, (lookup_eq_some h.labels_nodup).2 hmem⟩
    · rintro ⟨id, hlookup⟩
      -- the entry with this identifier has its object at the address
      have hmem := (lookup_eq_some h.labels_nodup).1 hlookup
      obtain ⟨entry, hentry, rfl⟩ := h.labelled id (List.mem_map_of_mem hmem)
      obtain ⟨found, object, hstands⟩ := h.stands entry hentry
      rw [hstands.lookup_eq] at hlookup
      exact ⟨object, Option.some.inj hlookup ▸ hstands.object_eq⟩
  live_eq := by
    have hperm : (labels.map (·.1)).Perm (entries.map (·.id)) :=
      (List.perm_ext_iff_of_nodup h.labels_nodup hids).2 h.defined_iff
    have hlength := hperm.length_eq
    rw [List.length_map, List.length_map] at hlength
    rw [hinventory.live_eq, hlength]

theorem labelling_of_buildHeap {policy : ReclaimPolicy}
    (h : buildHeap entries (.empty policy) = .ok (labels, heap)) :
    Labelling entries labels heap := by
  obtain ⟨order, horder, hmade⟩ := bind_eq_ok.1 h
  obtain ⟨hids, -, -⟩ := ordered_of_creationOrder horder
  exact (realised_of_buildHeap h).labelling ((inventory_nil policy).of_makeEntries hmade) hids

/-! ## Why entries cannot be made -/

/-- What can be wrong with an entry all of whose labels are known. -/
inductive Spoils (entry : HeapEntry) : Error → Prop
  | unknownKind (kind_eq : Kind.ofName? entry.kind = none) :
    Spoils entry (.unknownKind entry.kind)
  | ambiguous {specs : List ValueSpec} {text : String} (elements_eq : entry.elements = some specs)
      (text_eq : entry.text = some text) :
    Spoils entry (.ambiguousPayload entry.id)
  | textKind {text : String} {kind : Kind} (kind_eq : Kind.ofName? entry.kind = some kind)
      (text_eq : entry.text = some text) (kind_ne : kind ≠ .integer .u8) :
    Spoils entry (.textKind entry.id kind)
  | noZero {kind : Kind} (kind_eq : Kind.ofName? entry.kind = some kind)
      (elements_eq : entry.elements = none) (text_eq : entry.text = none)
      (zero_eq : Value.zero? kind = none) :
    Spoils entry (.noZero entry.id kind)
  | count {count found : Nat} (count_eq : entry.count = some count) (count_ne : count ≠ found) :
    Spoils entry (.countMismatch entry.id count found)
  | elementKind (mismatch : ElementMismatch) : Spoils entry (.heap (.elementKind mismatch))
  | exhausted : Spoils entry (.heap .exhausted)

theorem Spoils.ne_unknownHeapId {error : Error} (h : Spoils entry error) (id : String) :
    error ≠ .unknownHeapId id := by
  rintro rfl
  nomatch h

theorem Spoils.ne_danglingReference {error : Error} (h : Spoils entry error)
    (address : Address) : error ≠ .heap (.danglingReference address) := by
  rintro rfl
  nomatch h

variable {error : Error}

theorem exists_resolveAll {specs : List ValueSpec}
    (h : ∀ label ∈ specs.filterMap ValueSpec.label?,
      ∃ value, resolve labels heap (.ref label) = .ok value) :
    ∃ values, resolveAll labels heap specs = .ok values := by
  have hresolve : ∀ spec ∈ specs, ∃ value, resolve labels heap spec = .ok value := by
    intro spec hspec
    cases spec with
    | ref label => exact h label (List.mem_filterMap.2 ⟨_, hspec, rfl⟩)
    | _ => exact ⟨_, rfl⟩
  clear h
  induction specs with
  | nil => exact ⟨[], rfl⟩
  | cons spec specs ih =>
    obtain ⟨hfirst, hrest⟩ := List.forall_mem_cons.1 hresolve
    obtain ⟨value, hvalue⟩ := hfirst
    obtain ⟨values, hvalues⟩ := ih hrest
    exact ⟨value :: values, mapM_eq_ok.2 (.cons hvalue (mapM_eq_ok.1 hvalues))⟩

theorem spoils_of_resolveKind (h : resolveKind entry.kind = .error error) :
    Spoils entry error := by
  unfold resolveKind at h
  split at h
  · cases h
  · rename_i hkind
    exact Except.error.inj h ▸ .unknownKind hkind

theorem spoils_of_payload {kind : Kind} (hkind : Kind.ofName? entry.kind = some kind)
    (hlabels : ∀ label ∈ entry.references, ∃ value, resolve labels heap (.ref label) = .ok value)
    (h : payload labels heap entry kind = .error error) : Spoils entry error := by
  unfold payload at h
  split at h
  · rename_i specs text helements htext
    exact Except.error.inj h ▸ .ambiguous helements htext
  · rename_i text helements htext
    obtain ⟨-, hvalues⟩ | ⟨hne, hvalues⟩ := ite_eq_iff.1 h
    · cases hvalues
    · exact Except.error.inj hvalues ▸ .textKind hkind htext hne
  · -- elements do not fail while their labels are known
    rename_i specs helements htext
    rw [HeapEntry.references, helements, Option.getD_some] at hlabels
    obtain ⟨values, hvalues⟩ := exists_resolveAll hlabels
    rw [hvalues] at h
    cases h
  · rename_i helements htext
    split at h
    · rename_i hzero
      exact Except.error.inj h ▸ .noZero hkind helements htext hzero
    · cases h

theorem spoils_of_checkCount {found : Nat} (h : checkCount entry found = .error error) :
    Spoils entry error := by
  unfold checkCount at h
  split at h
  · cases h
  · rename_i count hcount
    obtain ⟨-, hfound⟩ | ⟨hne, hfound⟩ := ite_eq_iff.1 h
    · cases hfound
    · exact Except.error.inj hfound ▸ .count hcount hne

theorem spoils_of_create {kind : Kind} {values : List Value} {e : HeapError}
    (h : Heap.create kind values heap = .error e heap') : Spoils entry (.heap e) := by
  unfold Heap.create at h
  cases hmake : HeapObject.make kind values with
  | error mismatch =>
    rw [hmake] at h
    cases h
    exact .elementKind mismatch
  | ok object =>
    rw [hmake] at h
    obtain ⟨rfl, -⟩ := Heap.of_insert_eq_error h
    exact .exhausted

theorem spoils_of_makeEntry
    (hlabels : ∀ label ∈ entry.references, ∃ value, resolve labels heap (.ref label) = .ok value)
    (h : makeEntry labels heap entry = .error error) : Spoils entry error := by
  unfold makeEntry at h
  obtain herror | ⟨kind, hkind, h⟩ := bind_eq_error.1 h
  · exact spoils_of_resolveKind herror
  obtain herror | ⟨values, -, h⟩ := bind_eq_error.1 h
  · exact spoils_of_payload (resolveKind_eq_ok.1 hkind) hlabels herror
  obtain herror | ⟨⟨⟩, -, h⟩ := bind_eq_error.1 h
  · exact spoils_of_checkCount herror
  split at h
  · rename_i hcreate
    exact Except.error.inj h ▸ spoils_of_create hcreate
  · cases h

/-- A label that is known stays known when another entry is made, and so is that of the
entry. -/
theorem Known.of_makeEntry
    {made : List Nat} {index : Nat} (h : Known entries made labels heap)
    (hconsistent : heap.Consistent) (hentry : entries[index]? = some entry)
    (hmade : makeEntry labels heap entry = .ok (labels', heap')) :
    heap'.Consistent ∧ Known entries (index :: made) labels' heap' := by
  obtain ⟨object, address, -, hinsert, rfl⟩ := makeEntry_eq_ok_iff_describes.1 hmade
  have hinserted := Heap.inserted_of_insert hinsert
  refine ⟨hconsistent.of_inserted hinserted, ?_⟩
  intro found hfound other hother
  by_cases hid : other.id = entry.id
  · have hobject := hinserted.object?_self hconsistent
    rw [hid]
    exact ⟨_, resolve_ref_eq_ok.2 ⟨address, object, List.lookup_cons_self, hobject, rfl⟩⟩
  · have hmem : found ∈ made := by
      refine (List.mem_cons.1 hfound).resolve_left ?_
      rintro rfl
      exact hid (congrArg HeapEntry.id (Option.some.inj (hother.symm.trans hentry)))
    obtain ⟨value, hvalue⟩ := h found hmem other hother
    obtain ⟨place, target, hlookup, htarget, rfl⟩ := resolve_ref_eq_ok.1 hvalue
    refine ⟨_, resolve_ref_eq_ok.2
      ⟨place, target, ?_, hinserted.extends hconsistent _ _ htarget, rfl⟩⟩
    rw [List.lookup_cons, beq_false_of_ne hid]
    exact hlookup

theorem Ordered.head {index : Nat} {order : List Nat} (h : Ordered entries (index :: order)) :
    index < entries.length ∧ Resolved entries order (referencesAt entries index) := by
  cases h with
  | cons _ bound resolved _ => exact ⟨bound, resolved⟩

theorem exists_spoils_of_makeEntries
    {made order : List Nat} (h : Known entries made labels heap) (hconsistent : heap.Consistent)
    (hordered : Ordered entries (order.reverse ++ made))
    (hfailed : makeEntries entries order labels heap = .error error) :
    ∃ entry ∈ entries, Spoils entry error := by
  induction order generalizing made labels heap with
  | nil => cases hfailed
  | cons index rest ih =>
    rw [List.reverse_cons, List.append_assoc, List.singleton_append] at hordered
    obtain ⟨bound, resolved⟩ := hordered.of_append.head
    have hentry := List.getElem?_eq_getElem bound
    simp only [makeEntries, hentry] at hfailed
    split at hfailed
    · rename_i hfirst
      obtain rfl := Except.error.inj hfailed
      exact ⟨_, List.getElem_mem bound,
        spoils_of_makeEntry (h.exists_resolve hentry resolved) hfirst⟩
    · rename_i hfirst
      obtain ⟨hconsistent', hknown⟩ := h.of_makeEntry hconsistent hentry hfirst
      exact ih hknown hconsistent' hordered hfailed

/-- Entries that can be put in order fail to be made for what is wrong with one of them. -/
theorem exists_spoils_of_buildHeap {order : List Nat} (horder : creationOrder entries = .ok order)
    (hconsistent : heap.Consistent) (h : buildHeap entries heap = .error error) :
    ∃ entry ∈ entries, Spoils entry error := by
  obtain ⟨-, hordered, -⟩ := ordered_of_creationOrder horder
  rw [buildHeap, bind_eq_of_eq_ok horder] at h
  exact exists_spoils_of_makeEntries (fun _ hmem => absurd hmem List.not_mem_nil) hconsistent
    (by rwa [List.append_nil]) h

/-! ## Heaps made of entries -/

/-- A heap made of entries holds an object for each, at the address of its label, and nothing
else; the object is what the entry spells out, with the labels of all entries read as
references. Entries that can be put in order never lack a label or the object it names. -/
theorem buildHeap_faithful (entries : List HeapEntry) :
    (∀ policy labels heap, buildHeap entries (.empty policy) = .ok (labels, heap) →
      Labelling entries labels heap ∧
        ∀ entry ∈ entries, ∃ address object, labels.lookup entry.id = some address ∧
          heap.object? address = some object ∧ Realises labels heap entry object) ∧
    ∀ order heap, creationOrder entries = .ok order → heap.Consistent →
      (∀ id, buildHeap entries heap ≠ .error (.unknownHeapId id)) ∧
        ∀ address, buildHeap entries heap ≠ .error (.heap (.danglingReference address)) := by
  refine ⟨?_, ?_⟩
  · intro policy labels heap h
    refine ⟨labelling_of_buildHeap h, ?_⟩
    intro entry hentry
    obtain ⟨address, object, hstands⟩ := (realised_of_buildHeap h).stands entry hentry
    exact ⟨address, object, hstands.lookup_eq, hstands.object_eq, hstands.realises⟩
  · intro order heap horder hconsistent
    refine ⟨?_, ?_⟩
    · intro id h
      obtain ⟨entry, -, hspoils⟩ := exists_spoils_of_buildHeap horder hconsistent h
      exact hspoils.ne_unknownHeapId id rfl
    · intro address h
      obtain ⟨entry, -, hspoils⟩ := exists_spoils_of_buildHeap horder hconsistent h
      exact hspoils.ne_danglingReference address rfl

/-- An array that declares the given length, of a text and of an object of zeros listed behind
it. -/
def arrayOfTextAndZeros (length : Nat) : List HeapEntry :=
  [⟨"array", "ref", some length, some [.ref "text", .ref "zeros"], none⟩,
    ⟨"text", "u8", none, none, some "hi"⟩,
    ⟨"zeros", "f32", some 3, none, none⟩]

/-- The array is made behind the two objects that it refers to, and a wrong length is all that is
said against it. -/
theorem buildHeap_faithful_array :
    ∃ heap, buildHeap (arrayOfTextAndZeros 2) (.empty .recycle) =
        .ok ([("array", ⟨2, 0⟩), ("zeros", ⟨1, 0⟩), ("text", ⟨0, 0⟩)], heap) ∧
      Labelling (arrayOfTextAndZeros 2)
        [("array", ⟨2, 0⟩), ("zeros", ⟨1, 0⟩), ("text", ⟨0, 0⟩)] heap ∧
      (∀ entry ∈ arrayOfTextAndZeros 2, ∃ address object,
        [("array", ⟨2, 0⟩), ("zeros", ⟨1, 0⟩), ("text", ⟨0, 0⟩)].lookup entry.id = some address ∧
          heap.object? address = some object ∧
          Realises [("array", ⟨2, 0⟩), ("zeros", ⟨1, 0⟩), ("text", ⟨0, 0⟩)] heap entry object) ∧
      creationOrder (arrayOfTextAndZeros 5) = .ok [1, 2, 0] ∧
      buildHeap (arrayOfTextAndZeros 5) (.empty .recycle) = .error (.countMismatch "array" 5 2) ∧
      ∀ id, buildHeap (arrayOfTextAndZeros 5) (.empty .recycle) ≠ .error (.unknownHeapId id) := by
  have horder : ∀ length, creationOrder (arrayOfTextAndZeros length) = .ok [1, 2, 0] := by
    intro length
    cbv
  have hfailed : buildHeap (arrayOfTextAndZeros 5) (.empty .recycle) =
      .error (.countMismatch "array" 5 2) := by
    rw [buildHeap, bind_eq_of_eq_ok (horder 5)]
    rfl
  have hmade : ∃ heap, buildHeap (arrayOfTextAndZeros 2) (.empty .recycle) =
      .ok ([("array", ⟨2, 0⟩), ("zeros", ⟨1, 0⟩), ("text", ⟨0, 0⟩)], heap) := by
    rw [buildHeap, bind_eq_of_eq_ok (horder 2)]
    exact ⟨_, rfl⟩
  obtain ⟨heap, hheap⟩ := hmade
  obtain ⟨hlabelling, hrealises⟩ := (buildHeap_faithful _).1 _ _ _ hheap
  exact ⟨heap, hheap, hlabelling, hrealises, horder 5, hfailed,
    ((buildHeap_faithful _).2 _ _ (horder 5) (Heap.consistent_empty _)).1⟩

end Fixture

end TypedStack
