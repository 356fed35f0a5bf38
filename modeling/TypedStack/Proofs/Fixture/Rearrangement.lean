import TypedStack.Proofs.Fixture.Realisation

/-!
# Heap entries in another order

The order in which a fixture lists its heap entries decides where the walk along the references
begins, and so in which places the objects come to be. It does not decide whether they
come to be, nor what they are: for an address, its label tells where the same object is
with the entries in another order. Moved that way, the activation, the outcome and what is
expected of it are those of the rearranged fixture.
-/

namespace TypedStack

namespace Fixture

open Relation

variable {entries entries' : List HeapEntry}

/-! ## Entries that can be put in order -/

/-- The number that the entry of a number has in another list. -/
def renumber (entries entries' : List HeapEntry) (index : Nat) : Nat :=
  ((entries[index]?).bind fun entry => indexOf? entries' entry.id).getD 0

theorem getElem?_renumber
    (hperm : entries.Perm entries') (hids : (entries'.map (·.id)).Nodup) {index : Nat}
    {entry : HeapEntry} (hentry : entries[index]? = some entry) :
    entries'[renumber entries entries' index]? = some entry := by
  obtain ⟨index', hindex'⟩ := List.mem_iff_getElem?.1 (hperm.subset (List.mem_of_getElem? hentry))
  rw [renumber, hentry, Option.bind_some, indexOf?_id hids hindex', Option.getD_some]
  exact hindex'

theorem Refers.renumber
    (hperm : entries.Perm entries') (hids : (entries'.map (·.id)).Nodup) {source target : Nat}
    (h : Refers entries source target) :
    Refers entries' (renumber entries entries' source) (renumber entries entries' target) := by
  obtain ⟨entry, hentry, hlabel⟩ := h
  obtain ⟨found, hfound, hreference⟩ := mem_referencesAt.1 hlabel
  exact ⟨entry, getElem?_renumber hperm hids hentry,
    mem_referencesAt.2 ⟨found, getElem?_renumber hperm hids hfound, hreference⟩⟩

theorem Orderable.perm (h : Orderable entries) (hperm : entries.Perm entries') :
    Orderable entries' where
  distinct := (hperm.map _).nodup_iff.1 h.distinct
  declared := by
    intro entry hentry label hlabel
    have hmem := h.declared entry (hperm.mem_iff.2 hentry) label hlabel
    exact (hperm.map _).mem_iff.1 hmem
  acyclic := by
    intro index hcycle
    have hback := TransGen.lift (renumber entries' entries)
      (fun _ _ => Refers.renumber hperm.symm h.distinct) _ _ hcycle
    exact h.acyclic _ hback

/-! ## From label to label -/

/-- The address that other labels have for the label of an address. -/
def rename (labels labels' : Labels) (address : Address) : Address :=
  ((labels.find? (·.2 == address)).bind fun found => labels'.lookup found.1).getD address

variable {labels labels' : Labels} {heap heap' : Heap}

/-- Where the labels of one heap stand for objects of another. -/
theorem rename_eq
    (haddresses : (labels.map (·.2)).Nodup) {label : String} {address address' : Address}
    (hlabel : (label, address) ∈ labels) (hlabel' : labels'.lookup label = some address') :
    rename labels labels' address = address' := by
  obtain ⟨found, hfound⟩ : ∃ found, labels.find? (·.2 == address) = some found := by
    rw [← Option.isSome_iff_exists, List.find?_isSome]
    exact ⟨_, hlabel, beq_self_eq_true address⟩
  have haddress : found.2 = address := by simpa using List.find?_some hfound
  have hsame : found = (label, address) :=
    List.inj_on_of_nodup_map haddresses (List.mem_of_find?_eq_some hfound) hlabel haddress
  rw [rename, hfound, hsame, Option.bind_some, hlabel', Option.getD_some]

/-- A reference to what a label stands for. -/
def Labelled (labels : Labels) (reference : Reference) : Prop :=
  ∃ label, labels.lookup label = some reference.address

theorem follows_labelled (label : String) :
    Follows (fun _ value => value.Within (Labelled labels)) labels heap labels heap label := by
  intro value hvalue
  refine ⟨value, hvalue, ?_⟩
  obtain ⟨address, object, hlookup, -, rfl⟩ := resolve_ref_eq_ok.1 hvalue
  rintro reference ⟨⟩
  exact ⟨label, hlookup⟩

theorem resolveAll_labelled
    {specs : List ValueSpec} {values : List Value} (h : resolveAll labels heap specs = .ok values) :
    ∀ value ∈ values, value.Within (Labelled labels) := by
  obtain ⟨values', hvalues', hlabelled⟩ := resolveAll_related
    (fun _ => Value.within_of_kind_ne_ref) (fun label _ => follows_labelled label) h
  obtain rfl := Except.ok.inj (h.symm.trans hvalues')
  exact forall_mem_of_related (fun _ _ hvalue _ => hvalue) hlabelled fun _ _ => trivial

theorem Describes.labelled
    {entry : HeapEntry} {object : HeapObject} (h : Describes labels heap entry object) :
    ∀ value ∈ object.payload, value.Within (Labelled labels) := by
  obtain ⟨values', hvalues', hlabelled⟩ := payload_related
    (fun _ => Value.within_of_kind_ne_ref) (fun label _ => follows_labelled label) h.payload_eq
  obtain rfl := Except.ok.inj (h.payload_eq.symm.trans hvalues')
  exact forall_mem_of_related (fun _ _ hvalue _ => hvalue) hlabelled fun _ _ => trivial

/-! ## Heaps made of the same entries -/

theorem Realised.perm (h : Realised entries labels heap) (hperm : entries.Perm entries') :
    Realised entries' labels heap where
  labels_nodup := h.labels_nodup
  addresses_nodup := h.addresses_nodup
  labelled label hlabel := by
    obtain ⟨entry, hentry, hid⟩ := h.labelled label hlabel
    exact ⟨entry, hperm.mem_iff.1 hentry, hid⟩
  stands entry hentry := h.stands entry (hperm.mem_iff.2 hentry)

section

variable (h : Realised entries labels heap) (h' : Realised entries labels' heap')
include h h'

/-- For an address there is the object of one entry, and where the address is moved to there
is the object of the same entry. -/
theorem exists_stands_rename {label : String} {address : Address}
    (hlabel : labels.lookup label = some address) :
    ∃ entry object object', entry.id = label ∧ Stands labels heap entry address object ∧
      Stands labels' heap' entry (rename labels labels' address) object' ∧
      object'.element = object.element := by
  have hmem := (lookup_eq_some h.labels_nodup).1 hlabel
  obtain ⟨entry, hentry, rfl⟩ := h.labelled label (List.mem_map_of_mem hmem)
  obtain ⟨found, object, hstands⟩ := h.stands entry hentry
  obtain ⟨address', object', hstands'⟩ := h'.stands entry hentry
  obtain rfl : address = found := Option.some.inj (hlabel.symm.trans hstands.lookup_eq)
  have hmoved := rename_eq h.addresses_nodup hmem hstands'.lookup_eq
  refine ⟨entry, object, object', rfl, hstands, hmoved ▸ hstands', ?_⟩
  exact Except.ok.inj (hstands'.kind_eq.symm.trans hstands.kind_eq)

theorem lookup_rename {label : String} {address : Address}
    (hlabel : labels.lookup label = some address) :
    labels'.lookup label = some (rename labels labels' address) := by
  obtain ⟨entry, _, _, rfl, -, hstands', -⟩ := exists_stands_rename h h' hlabel
  exact hstands'.lookup_eq

/-- Labelled addresses are moved apart. -/
theorem rename_injective {reference reference' : Reference}
    (hreference : Labelled labels reference) (hreference' : Labelled labels reference')
    (hsame : rename labels labels' reference.address = rename labels labels' reference'.address) :
    reference.address = reference'.address := by
  obtain ⟨label, hlabel⟩ := hreference
  obtain ⟨label', hlabel'⟩ := hreference'
  have hmem := (lookup_eq_some h'.labels_nodup).1 (lookup_rename h h' hlabel)
  have hmem' := (lookup_eq_some h'.labels_nodup).1 (lookup_rename h h' hlabel')
  have hpair := List.inj_on_of_nodup_map h'.addresses_nodup hmem hmem' hsame
  rw [(Prod.mk.inj hpair).1, hlabel'] at hlabel
  exact (Option.some.inj hlabel).symm

theorem follows_rename (label : String) :
    Follows (fun value value' => value.relocate (rename labels labels') = value') labels heap
      labels' heap' label := by
  intro value hvalue
  obtain ⟨address, object, hlookup, hobject, rfl⟩ := resolve_ref_eq_ok.1 hvalue
  obtain ⟨entry, found, object', rfl, hstands, hstands', helement⟩ :=
    exists_stands_rename h h' hlookup
  obtain rfl : object = found := Option.some.inj (hobject.symm.trans hstands.object_eq)
  refine ⟨_, hstands'.resolve_eq, ?_⟩
  rw [helement]
  rfl

omit h h' in
theorem eq_map_of_related {ρ : Address → Address} {values values' : List Value}
    (h : List.Forall₂ (fun value value' => value.relocate ρ = value') values values') :
    values' = values.map (Value.relocate ρ) := by
  rw [← List.forall₂_map_left_iff, List.forall₂_eq_eq_eq] at h
  exact h.symm

theorem resolveAll_rename
    {specs : List ValueSpec} {values : List Value}
    (hvalues : resolveAll labels heap specs = .ok values) :
    resolveAll labels' heap' specs =
      .ok (values.map (Value.relocate (rename labels labels'))) := by
  obtain ⟨values', hvalues', hrelated⟩ := resolveAll_related
    (fun _ => Value.relocate_of_kind_ne_ref) (fun label _ => follows_rename h h' label) hvalues
  rw [hvalues', eq_map_of_related hrelated]

/-- The object at a labelled address is, moved, where the address is moved to. -/
theorem mirrored_rename {reference : Reference} (hreference : Labelled labels reference) :
    heap.Mirrored heap' (rename labels labels') reference := by
  obtain ⟨label, hlabel⟩ := hreference
  obtain ⟨entry, object, object', rfl, hstands, hstands', helement⟩ :=
    exists_stands_rename h h' hlabel
  obtain ⟨values', hvalues', hrelated⟩ := payload_related (fun _ => Value.relocate_of_kind_ne_ref)
    (fun label _ => follows_rename h h' label) hstands.payload_eq
  have hpayload :
      object'.payload = object.payload.map (Value.relocate (rename labels labels')) := by
    rw [← eq_map_of_related hrelated]
    rw [← helement, hstands'.payload_eq] at hvalues'
    exact Except.ok.inj hvalues'
  rw [Heap.Mirrored, hstands.object_eq, hstands'.object_eq, Option.map_some]
  cases object'
  simp only [HeapObject.relocate, Option.some.injEq, HeapObject.mk.injEq]
  exact ⟨helement, hpayload⟩

omit h' in
/-- What is read through labelled references is labelled. -/
theorem Realised.closed_labelled : heap.Closed (Labelled labels) := by
  rintro reference object ⟨label, hlabel⟩ hobject
  have hmem := (lookup_eq_some h.labels_nodup).1 hlabel
  obtain ⟨entry, hentry, rfl⟩ := h.labelled label (List.mem_map_of_mem hmem)
  obtain ⟨found, standing, hstands⟩ := h.stands entry hentry
  obtain rfl := Option.some.inj (hlabel.symm.trans hstands.lookup_eq)
  obtain rfl := Option.some.inj ((Heap.object_eq_ok.1 hobject).symm.trans hstands.object_eq)
  exact hstands.labelled

end

end Fixture

/-! ## What was expected -/

section

variable {ρ : Address → Address} {known : Reference → Prop}

theorem Heap.Reaches.of_closed
    {heap : Heap} {roots : Reference → Prop} {reference : Reference}
    (h : heap.Reaches roots reference) (hclosed : heap.Closed known)
    (hroots : ∀ reference, roots reference → known reference) : known reference := by
  induction h with
  | root hroot => exact hroots _ hroot
  | element _ object_eq mem ih => exact hclosed _ _ ih object_eq _ mem _ rfl

def Fixture.Expected.relocate (ρ : Address → Address) : Fixture.Expected → Fixture.Expected
  | stack values => stack (values.map (Value.relocate ρ))
  | trap kind => trap kind

variable (hinjective : ∀ reference reference', known reference → known reference' →
  ρ reference.address = ρ reference'.address → reference.address = reference'.address)
include hinjective

theorem Value.equals_relocate {a b : Value} (ha : a.Within known) (hb : b.Within known) :
    (a.relocate ρ).equals (b.relocate ρ) = a.equals b := by
  cases a with
  | ref reference =>
    cases b with
    | ref reference' =>
      have hsame : ((ref reference).relocate ρ == (ref reference').relocate ρ) =
          (ref reference == ref reference') := by
        rw [Bool.eq_iff_iff, beq_iff_eq, beq_iff_eq]
        constructor
        · intro heq
          obtain ⟨address, element⟩ := reference
          obtain ⟨address', element'⟩ := reference'
          simp only [relocate, Reference.relocate, ref.injEq, Reference.mk.injEq] at heq ⊢
          exact ⟨hinjective _ _ (ha _ rfl) (hb _ rfl) heq.1, heq.2⟩
        · rintro ⟨⟩
          rfl
      exact hsame
    | _ => rfl
  | float format bits =>
    cases b with
    | ref reference => cases format <;> rfl
    | _ => rfl
  | _ => cases b <;> rfl

theorem Prepared.equalValues_relocate {as bs : List Value} (has : ∀ a ∈ as, a.Within known)
    (hbs : ∀ b ∈ bs, b.Within known) :
    equalValues (as.map (Value.relocate ρ)) (bs.map (Value.relocate ρ)) = equalValues as bs := by
  induction as generalizing bs with
  | nil => cases bs <;> rfl
  | cons a as ih =>
    cases bs with
    | nil => rfl
    | cons b bs =>
      obtain ⟨ha, has⟩ := List.forall_mem_cons.1 has
      obtain ⟨hb, hbs⟩ := List.forall_mem_cons.1 hbs
      simp only [List.map_cons, equalValues, Value.equals_relocate hinjective ha hb, ih has hbs]

/-- The references in what is expected, if that is values. -/
def Fixture.Expected.Within (known : Reference → Prop) : Fixture.Expected → Prop
  | stack values => ∀ value ∈ values, value.Within known
  | trap _ => True

theorem Prepared.check_relocate
    {prepared prepared' : Prepared} {outcome : Outcome}
    (hexpected : ∀ expected ∈ prepared.expected, expected.Within known)
    (houtcome : ∀ values, outcome = .ok values → ∀ value ∈ values, value.Within known)
    (hmoved : prepared'.expected = prepared.expected.map (Fixture.Expected.relocate ρ)) :
    prepared'.check (outcome.relocate ρ) = .ok () ↔ prepared.check outcome = .ok () := by
  unfold check
  rw [hmoved]
  cases hcase : prepared.expected with
  | none => exact Iff.rfl
  | some expected =>
    have hwithin := hexpected expected hcase
    cases expected with
    | trap kind =>
      cases outcome with
      | error trap => exact Iff.rfl
      | ok values => exact iff_of_false nofun nofun
    | stack values =>
      cases outcome with
      | error trap => exact iff_of_false nofun nofun
      | ok found =>
        have hequal := equalValues_relocate hinjective hwithin (houtcome found rfl)
        simp only [Option.map_some, Fixture.Expected.relocate, Outcome.relocate, Except.map, hequal]
        by_cases heq : equalValues values found = true
        · simp [heq]
        · simp [heq]

end

/-! ## Preparing rearranged fixtures -/

namespace Fixture

variable {fixture : Fixture} {policy : ReclaimPolicy} {prepared : Prepared}

theorem prepare_eq_ok :
    fixture.prepare policy = .ok prepared ↔
      fixture.program = .ok prepared.program ∧
      buildHeap fixture.heap (.empty policy) = .ok (prepared.labels, prepared.heap) ∧
      resolveAll prepared.labels prepared.heap fixture.args = .ok prepared.activation.args ∧
      resolveAll prepared.labels prepared.heap fixture.stack = .ok prepared.activation.stack ∧
      resolveExpected prepared.labels prepared.heap fixture.expect = .ok prepared.expected ∧
      fixture.locals.mapM resolveLocal = .ok prepared.activation.locals := by
  constructor
  · intro h
    obtain ⟨program, hprogram, h⟩ := bind_eq_ok.1 h
    obtain ⟨⟨labels, heap⟩, hheap, h⟩ := bind_eq_ok.1 h
    obtain ⟨args, hargs, h⟩ := bind_eq_ok.1 h
    obtain ⟨stack, hstack, h⟩ := bind_eq_ok.1 h
    obtain ⟨expected, hexpected, h⟩ := bind_eq_ok.1 h
    obtain ⟨locals, hlocals, h⟩ := bind_eq_ok.1 h
    cases h
    exact ⟨hprogram, hheap, hargs, hstack, hexpected, hlocals⟩
  · rintro ⟨hprogram, hheap, hargs, hstack, hexpected, hlocals⟩
    refine bind_eq_ok.2 ⟨_, hprogram, bind_eq_ok.2 ⟨_, hheap, bind_eq_ok.2 ⟨_, hargs, ?_⟩⟩⟩
    exact bind_eq_ok.2 ⟨_, hstack, bind_eq_ok.2 ⟨_, hexpected, bind_eq_ok.2 ⟨_, hlocals, rfl⟩⟩⟩

theorem resolveExpected_rename
    {entries : List HeapEntry} {labels labels' : Labels} {heap heap' : Heap}
    (h : Realised entries labels heap) (h' : Realised entries labels' heap')
    {expect : Option Expectation} {expected : Option Expected}
    (hexpected : resolveExpected labels heap expect = .ok expected) :
    resolveExpected labels' heap' expect =
      .ok (expected.map (Expected.relocate (rename labels labels'))) := by
  cases expect with
  | none =>
    cases hexpected
    rfl
  | some expectation =>
    obtain ⟨found, rfl, hfound⟩ := map_eq_ok.1 hexpected
    refine map_eq_ok.2 ⟨found.relocate (rename labels labels'), rfl, ?_⟩
    cases expectation with
    | stack specs =>
      obtain ⟨values, rfl, hvalues⟩ := map_eq_ok.1 hfound
      exact map_eq_ok.2 ⟨_, rfl, resolveAll_rename h h' hvalues⟩
    | trap name =>
      simp only [resolveExpectation] at hfound ⊢
      split at hfound
      · cases hfound
        rfl
      · cases hfound

theorem resolveExpected_labelled
    {labels : Labels} {heap : Heap} {expect : Option Expectation} {expected : Option Expected}
    (hexpected : resolveExpected labels heap expect = .ok expected) :
    ∀ found ∈ expected, found.Within (Labelled labels) := by
  cases expect with
  | none =>
    cases hexpected
    exact nofun
  | some expectation =>
    obtain ⟨found, rfl, hfound⟩ := map_eq_ok.1 hexpected
    rintro _ ⟨⟩
    cases expectation with
    | stack specs =>
      obtain ⟨values, rfl, hvalues⟩ := map_eq_ok.1 hfound
      exact resolveAll_labelled hvalues
    | trap name =>
      simp only [resolveExpectation] at hfound
      split at hfound
      · cases hfound
        trivial
      · cases hfound

/-- The fixture with its heap entries in another order can be prepared as well, and what is
prepared is the same up to the places of the objects. -/
theorem exists_prepare_rearranged
    {heap : List HeapEntry} (hperm : fixture.heap.Perm heap)
    (h : fixture.prepare policy = .ok prepared) :
    ∃ prepared', { fixture with heap }.prepare policy = .ok prepared' ∧
      prepared'.program = prepared.program ∧
      prepared'.activation =
        prepared.activation.relocate (rename prepared.labels prepared'.labels) ∧
      prepared'.expected =
        prepared.expected.map (Expected.relocate (rename prepared.labels prepared'.labels)) := by
  obtain ⟨hprogram, hheap, hargs, hstack, hexpected, hlocals⟩ := prepare_eq_ok.1 h
  obtain ⟨horderable, hmakeable, hroom⟩ := exists_buildHeap_iff.1 ⟨_, _, hheap⟩
  obtain ⟨labels', heap', hheap'⟩ := (@exists_buildHeap_iff heap policy).2
    ⟨horderable.perm hperm, fun entry hentry => hmakeable entry (hperm.mem_iff.2 hentry),
      hperm.length_eq ▸ hroom⟩
  have hrealised := (realised_of_buildHeap hheap).perm hperm
  have hrealised' := realised_of_buildHeap hheap'
  refine ⟨⟨prepared.program, heap', prepared.activation.relocate (rename prepared.labels labels'),
    labels', prepared.expected.map (Expected.relocate (rename prepared.labels labels'))⟩,
    ?_, rfl, rfl, rfl⟩
  exact prepare_eq_ok.2 ⟨hprogram, hheap', resolveAll_rename hrealised hrealised' hargs,
    resolveAll_rename hrealised hrealised' hstack,
    resolveExpected_rename hrealised hrealised' hexpected, hlocals⟩

theorem labelled_of_prepare (h : fixture.prepare policy = .ok prepared) :
    (∀ reference, prepared.activation.Refers reference → Labelled prepared.labels reference) ∧
      ∀ expected ∈ prepared.expected, expected.Within (Labelled prepared.labels) := by
  obtain ⟨-, -, hargs, hstack, hexpected, -⟩ := prepare_eq_ok.1 h
  refine ⟨?_, resolveExpected_labelled hexpected⟩
  rintro reference (harg | hvalue)
  · exact resolveAll_labelled hargs _ harg reference rfl
  · exact resolveAll_labelled hstack _ hvalue reference rfl

/-- The references that a run returns have labels. -/
theorem labelled_of_run
    {limits : Limits} {values : List Value} (h : fixture.prepare policy = .ok prepared)
    (hrun : (prepared.run limits).1 = .ok (.ok values)) :
    ∀ value ∈ values, value.Within (Labelled prepared.labels) := by
  obtain ⟨-, hheap, -⟩ := prepare_eq_ok.1 h
  obtain ⟨machine, hreachable, houtcome⟩ := Machine.exists_reachable_of_invoke hrun
  have hwithin := hreachable.within (realised_of_buildHeap hheap).closed_labelled
    (labelled_of_prepare h).1
  have hreturned : machine.returned = values := by
    rw [Machine.returned, houtcome]
  exact hreturned ▸ hwithin.returned

/-- The order of heap entries does not matter. A fixture can be prepared exactly if it can with
its entries in another order. Both runs then end for the same setup error or in the same
trap, or return the same values, once each address is taken by its label to where the
other fixture has the object, and either both outcomes are as expected or neither is. -/
theorem heap_order_immaterial
    {fixture : Fixture} {heap : List HeapEntry} (hperm : fixture.heap.Perm heap)
    (policy : ReclaimPolicy) :
    ((∃ prepared, fixture.prepare policy = .ok prepared) ↔
      ∃ prepared, { fixture with heap }.prepare policy = .ok prepared) ∧
    ∀ prepared prepared', fixture.prepare policy = .ok prepared →
      { fixture with heap }.prepare policy = .ok prepared' → ∀ limits,
        (prepared'.run limits).1 = (prepared.run limits).1.map
          (Outcome.relocate (rename prepared.labels prepared'.labels)) ∧
        (∀ values, (prepared.run limits).1 = .ok (.ok values) →
          ∀ reference, .ref reference ∈ values → ∃ label,
            prepared.labels.lookup label = some reference.address ∧
            prepared'.labels.lookup label =
              some (rename prepared.labels prepared'.labels reference.address)) ∧
        ∀ outcome, (prepared.run limits).1 = .ok outcome →
          (prepared'.check (outcome.relocate (rename prepared.labels prepared'.labels)) = .ok () ↔
            prepared.check outcome = .ok ()) := by
  constructor
  · constructor
    · rintro ⟨prepared, h⟩
      obtain ⟨prepared', h', -⟩ := exists_prepare_rearranged hperm h
      exact ⟨prepared', h'⟩
    · rintro ⟨prepared', h'⟩
      obtain ⟨prepared, h, -⟩ :=
        @exists_prepare_rearranged { fixture with heap } policy prepared' fixture.heap hperm.symm h'
      exact ⟨prepared, h⟩
  · intro prepared prepared' h h' limits
    obtain ⟨found, hfound, hprogram, hactivation, hexpected⟩ := exists_prepare_rearranged hperm h
    obtain rfl : found = prepared' := Except.ok.inj (hfound.symm.trans h')
    have hrealised := (realised_of_buildHeap (prepare_eq_ok.1 h).2.1).perm hperm
    have hrealised' := realised_of_buildHeap (prepare_eq_ok.1 h').2.1
    obtain ⟨hroots, hexpectedLabelled⟩ := labelled_of_prepare h
    refine ⟨?_, ?_, ?_⟩
    · simp only [Prepared.run, hprogram, hactivation]
      exact Machine.invoke_relocate fun reference hreaches =>
        mirrored_rename hrealised hrealised' (hreaches.of_closed hrealised.closed_labelled hroots)
    · intro values hrun reference hmem
      obtain ⟨label, hlabel⟩ := labelled_of_run h hrun _ hmem reference rfl
      exact ⟨label, hlabel, lookup_rename hrealised hrealised' hlabel⟩
    · intro outcome hrun
      refine Prepared.check_relocate (fun _ _ => rename_injective hrealised hrealised')
        hexpectedLabelled ?_ hexpected
      rintro values rfl
      exact labelled_of_run h hrun

/-- An array of two texts, listed between them, and a function that returns the first of the
texts in the array it is given. -/
def arrayBetweenTexts : Fixture where
  functions := [⟨"open", 1, 0, 1, ["poparg 0", "refslot 1", "ret"]⟩]
  entry := none
  heap := [⟨"first", "u8", none, none, some "x"⟩,
    ⟨"array", "ref", none, some [.ref "first", .ref "second"], none⟩,
    ⟨"second", "u8", none, none, some "y"⟩]
  args := [.ref "array"]
  stack := []
  locals := []
  expect := some (.stack [.ref "first"])

/-- Two texts, of the given bytes, and the array of them with its elements in the given places. -/
def textsAndArray (first second : UInt8) (place place' : UInt32) : Heap :=
  ⟨.recycle, #[⟨0, some (.ofBytes [first])⟩, ⟨0, some (.ofBytes [second])⟩,
    ⟨0, some ⟨.ref, [.ref ⟨⟨place, 0⟩, .integer .u8⟩, .ref ⟨⟨place', 0⟩, .integer .u8⟩],
      by simp [Value.kind]⟩⟩], [], 3⟩

/-- What is prepared if the array and the first text are in the given places. -/
def openingFirst (heap : Heap) (labels : Labels) (place : UInt32) : Prepared :=
  ⟨.single ⟨"open", 1, 0, 1, #[4, 0, 8, 1, 13]⟩, heap, .ofArgs [.ref ⟨⟨2, 0⟩, .ref⟩], labels,
    some (.stack [.ref ⟨⟨place, 0⟩, .integer .u8⟩])⟩

/-- With the entries in reverse order the two texts change places, and the function returns the
same text from its other place. -/
theorem heap_order_immaterial_reversed :
    ∃ prepared prepared',
      arrayBetweenTexts.prepare .recycle = .ok prepared ∧
      { arrayBetweenTexts with heap := arrayBetweenTexts.heap.reverse }.prepare .recycle =
        .ok prepared' ∧
      (prepared.run ⟨1, 1⟩).1 = .ok (.ok [.ref ⟨⟨0, 0⟩, .integer .u8⟩]) ∧
      (prepared'.run ⟨1, 1⟩).1 = .ok (.ok [.ref ⟨⟨1, 0⟩, .integer .u8⟩]) ∧
      prepared.check (.ok [.ref ⟨⟨0, 0⟩, .integer .u8⟩]) = .ok () ∧
      prepared'.check (.ok [.ref ⟨⟨1, 0⟩, .integer .u8⟩]) = .ok () := by
  have hprogram : arrayBetweenTexts.program =
      .ok (.single ⟨"open", 1, 0, 1, #[4, 0, 8, 1, 13]⟩) := by
    have hnew : Program.empty.find? "open" = none := by
      simp [Program.find?, Program.empty]
    simp only [arrayBetweenTexts, program, addFunctions, hnew]
    rfl
  have hheap : buildHeap arrayBetweenTexts.heap (.empty .recycle) =
      .ok ([("array", ⟨2, 0⟩), ("second", ⟨1, 0⟩), ("first", ⟨0, 0⟩)],
        textsAndArray 120 121 0 1) := by
    have horder : creationOrder arrayBetweenTexts.heap = .ok [0, 2, 1] := by
      cbv
    rw [buildHeap, bind_eq_of_eq_ok horder]
    rfl
  have hheap' : buildHeap arrayBetweenTexts.heap.reverse (.empty .recycle) =
      .ok ([("array", ⟨2, 0⟩), ("first", ⟨1, 0⟩), ("second", ⟨0, 0⟩)],
        textsAndArray 121 120 1 0) := by
    have horder : creationOrder arrayBetweenTexts.heap.reverse = .ok [0, 2, 1] := by
      cbv
    rw [buildHeap, bind_eq_of_eq_ok horder]
    rfl
  have hprepare : arrayBetweenTexts.prepare .recycle = .ok (openingFirst (textsAndArray 120 121 0 1)
      [("array", ⟨2, 0⟩), ("second", ⟨1, 0⟩), ("first", ⟨0, 0⟩)] 0) :=
    prepare_eq_ok.2 ⟨hprogram, hheap, rfl, rfl, rfl, rfl⟩
  have hprepare' : { arrayBetweenTexts with heap := arrayBetweenTexts.heap.reverse }.prepare
      .recycle = .ok (openingFirst (textsAndArray 121 120 1 0)
        [("array", ⟨2, 0⟩), ("first", ⟨1, 0⟩), ("second", ⟨0, 0⟩)] 1) :=
    prepare_eq_ok.2 ⟨hprogram, hheap', rfl, rfl, rfl, rfl⟩
  have hrun : ((openingFirst (textsAndArray 120 121 0 1)
      [("array", ⟨2, 0⟩), ("second", ⟨1, 0⟩), ("first", ⟨0, 0⟩)] 0).run ⟨1, 1⟩).1 =
        .ok (.ok [.ref ⟨⟨0, 0⟩, .integer .u8⟩]) :=
    congrArg Except.ok (Machine.run_eq_of_steps (n := 3) rfl)
  obtain ⟨hmoved, -, hcheck⟩ :=
    (heap_order_immaterial (List.reverse_perm arrayBetweenTexts.heap).symm .recycle).2
      _ _ hprepare hprepare' ⟨1, 1⟩
  rw [hrun] at hmoved
  have hexpected : (openingFirst (textsAndArray 120 121 0 1)
      [("array", ⟨2, 0⟩), ("second", ⟨1, 0⟩), ("first", ⟨0, 0⟩)] 0).check
        (.ok [.ref ⟨⟨0, 0⟩, .integer .u8⟩]) = .ok () := rfl
  exact ⟨_, _, hprepare, hprepare', hrun, hmoved, hexpected, (hcheck _ hrun).2 hexpected⟩

end Fixture

end TypedStack
