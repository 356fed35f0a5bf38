import TypedStack.Proofs.Container.RoundTrip
import TypedStack.Proofs.Fixture.CreationOrder
import TypedStack.Proofs.Fixture.Preparing
import TypedStack.Proofs.Machine.Relocation

/-!
# Fixtures and the containers built from them

The program of a fixture can be written to a container, which has no heap of its
own. Given the same texts, the two start alike: each puts the texts, and an array
of references to them, behind what its heap holds already. That is one object for
each heap entry of the fixture, and nothing for the container. So all that the run
can reach is shifted by the number of heap entries, and its outcome with it.
-/

namespace TypedStack

/-! ## Objects behind a heap -/

namespace Heap

/-- The heap with objects in new places behind all others. -/
def append (heap : Heap) (objects : List HeapObject) : Heap :=
  { heap with
    entries := heap.entries ++ (objects.map fun object => ⟨0, some object⟩).toArray
    live := heap.live + objects.length }

variable {heap : Heap} {objects : List HeapObject}

@[simp] theorem append_nil : heap.append [] = heap := by
  simp [append]

@[simp] theorem append_append (others : List HeapObject) :
    (heap.append objects).append others = heap.append (objects ++ others) := by
  simp [append, Nat.add_assoc]

@[simp] theorem size_append :
    (heap.append objects).entries.size = heap.entries.size + objects.length := by
  simp [append]

theorem object?_append {i : Nat} (h : heap.entries.size + i < maxPlaces) :
    (heap.append objects).object? ⟨UInt32.ofNat (heap.entries.size + i), 0⟩ = objects[i]? := by
  have hindex : (UInt32.ofNat (heap.entries.size + i)).toNat = heap.entries.size + i := by
    rw [UInt32.toNat_ofNat']
    exact Nat.mod_eq_of_lt h
  simp only [object?, append, hindex]
  rw [Array.getElem?_append_right (Nat.le_add_right _ _), Nat.add_sub_cancel_left,
    List.getElem?_toArray, List.getElem?_map]
  cases objects[i]? <;> rfl

theorem insert_of_room
    (hfree : heap.free = []) (hroom : heap.entries.size < maxPlaces) (object : HeapObject) :
    insert object heap = .ok ⟨UInt32.ofNat heap.entries.size, 0⟩ (heap.append [object]) := by
  simp [insert, append, hfree, hroom]

section

variable {after : Heap} {α β : Type} {first : Update α} {second : α → Update β}

theorem update_bind_of_ok {a : α} (h : first heap = .ok a after) :
    (first >>= second) heap = second a after := by
  simp only [bind, EStateM.bind, h]

theorem update_bind_of_error {e : HeapError} (h : first heap = .error e after) :
    (first >>= second) heap = .error e after := by
  simp only [bind, EStateM.bind, h]

end

/-- An object that is put into a heap is referred to at once. -/
theorem insert_bind_reference
    {α : Type} {next : Value → Update α} (hfree : heap.free = [])
    (hroom : heap.entries.size < maxPlaces) (object : HeapObject) :
    (insert object >>= fun address => look (·.reference address) >>= next) heap =
      next (.ref ⟨⟨UInt32.ofNat heap.entries.size, 0⟩, object.element⟩)
        (heap.append [object]) := by
  have hobject : (heap.append [object]).object ⟨UInt32.ofNat heap.entries.size, 0⟩ = .ok object :=
    object_eq_ok.2 (object?_append (i := 0) hroom)
  rw [update_bind_of_ok (insert_of_room hfree hroom object)]
  apply update_bind_of_ok
  rw [look_eq_ok, Heap.reference, hobject]
  exact ⟨rfl, rfl⟩

theorem insert_bind_of_full
    {α : Type} {next : Address → Update α} (h : heap.Full) (object : HeapObject) :
    (insert object >>= next) heap = .error .exhausted heap :=
  update_bind_of_error (insert_of_full h object)

theorem create_eq_insert (object : HeapObject) :
    create object.element object.payload = insert object := by
  rw [create, HeapObject.make_eq_ok.2 ⟨rfl, rfl⟩]

end Heap

/-! ## The objects of texts -/

namespace Activation

/-- References to byte arrays in places one behind the other. -/
def referencesFrom (first count : Nat) : List Value :=
  (List.range' first count).map fun place => .ref ⟨⟨UInt32.ofNat place, 0⟩, .integer .u8⟩

theorem kind_of_mem_referencesFrom
    {first count : Nat} {value : Value} (h : value ∈ referencesFrom first count) :
    value.kind = .ref := by
  obtain ⟨place, -, rfl⟩ := List.mem_map.1 h
  rfl

/-- The bytes of a text. -/
def textObject (text : String) : HeapObject :=
  .ofBytes (Bytes.ofString text)

/-- The array of references to texts, of which the first is in the given place. -/
def textArray (first count : Nat) : HeapObject where
  element := .ref
  payload := referencesFrom first count
  uniform := fun _ => kind_of_mem_referencesFrom

theorem create_referencesFrom (first count : Nat) :
    Heap.create .ref (referencesFrom first count) = Heap.insert (textArray first count) :=
  Heap.create_eq_insert (textArray first count)

/-- The objects of a main function that is given texts: these from the first place
on, and the array behind them. -/
def textObjects (first : Nat) (texts : List String) : List HeapObject :=
  texts.map textObject ++ [textArray first texts.length]

/-- The activation whose argument is the array in the given place. -/
def ofArray (place : Nat) : Activation :=
  .ofArgs [.ref ⟨⟨UInt32.ofNat place, 0⟩, .ref⟩]

variable {heap : Heap} {texts : List String}

theorem textReferences_of_room
    (hfree : heap.free = []) (hroom : heap.entries.size + texts.length ≤ Heap.maxPlaces) :
    textReferences texts heap =
      .ok (referencesFrom heap.entries.size texts.length) (heap.append (texts.map textObject)) := by
  induction texts generalizing heap with
  | nil => simp [textReferences, referencesFrom, pure, EStateM.pure]
  | cons text rest ih =>
    rw [List.length_cons] at hroom
    have hrest := @ih (heap.append [textObject text]) hfree (by simp; omega)
    refine (Heap.insert_bind_reference hfree (by omega) (textObject text)).trans ?_
    refine Heap.update_bind_eq_ok.2 ⟨_, _, hrest, ?_⟩
    rw [Heap.append_append, Heap.size_append]
    rfl

theorem textReferences_exhausted
    (hfree : heap.free = []) (hsize : heap.entries.size ≤ Heap.maxPlaces)
    (hroom : Heap.maxPlaces < heap.entries.size + texts.length) :
    ∃ after, textReferences texts heap = .error .exhausted after := by
  induction texts generalizing heap with
  | nil => exact absurd hroom (Nat.not_lt_of_le hsize)
  | cons text rest ih =>
    rw [List.length_cons] at hroom
    by_cases hplace : heap.entries.size < Heap.maxPlaces
    · obtain ⟨after, hrest⟩ := @ih (heap.append [textObject text]) hfree
        (by simpa using Nat.succ_le_of_lt hplace) (by simp; omega)
      exact ⟨after, (Heap.insert_bind_reference hfree hplace (textObject text)).trans
        (Heap.update_bind_of_error hrest)⟩
    · exact ⟨heap, Heap.insert_bind_of_full ⟨hfree, Nat.le_of_not_lt hplace⟩ _⟩

/-- Once the texts have their places, the array is put behind them. -/
theorem ofTexts_eq
    (hfree : heap.free = []) (hroom : heap.entries.size + texts.length ≤ Heap.maxPlaces) :
    ofTexts texts heap =
      (Heap.insert (textArray heap.entries.size texts.length) >>= fun address =>
        Heap.look (·.reference address) >>= fun argument => pure (ofArgs [argument]))
          (heap.append (texts.map textObject)) := by
  rw [← create_referencesFrom]
  exact Heap.update_bind_of_ok (textReferences_of_room hfree hroom)

theorem ofTexts_of_room
    (hfree : heap.free = []) (hroom : heap.entries.size + texts.length < Heap.maxPlaces) :
    ofTexts texts heap =
      .ok (ofArray (heap.entries.size + texts.length))
        (heap.append (textObjects heap.entries.size texts)) := by
  have htexts : (heap.append (texts.map textObject)).free = [] := hfree
  have hplace : (heap.append (texts.map textObject)).entries.size < Heap.maxPlaces := by
    simpa using hroom
  rw [ofTexts_eq hfree (Nat.le_of_lt hroom), Heap.insert_bind_reference htexts hplace,
    Heap.append_append, Heap.size_append, List.length_map]
  rfl

theorem ofTexts_exhausted
    (hfree : heap.free = []) (hsize : heap.entries.size ≤ Heap.maxPlaces)
    (hroom : Heap.maxPlaces ≤ heap.entries.size + texts.length) :
    ∃ after, ofTexts texts heap = .error .exhausted after := by
  rcases Nat.lt_or_eq_of_le hroom with hlt | heq
  · obtain ⟨after, htexts⟩ := textReferences_exhausted hfree hsize hlt
    exact ⟨after, Heap.update_bind_of_error htexts⟩
  · -- the texts take the last places, and there is none for the array
    have hfull : (heap.append (texts.map textObject)).Full := ⟨hfree, by simpa using hroom⟩
    exact ⟨_, (ofTexts_eq hfree (Nat.le_of_eq heq.symm)).trans (Heap.insert_bind_of_full hfull _)⟩

end Activation

/-! ## Shifting -/

/-- The address a number of places further on. -/
def Address.shift (places : Nat) (address : Address) : Address :=
  ⟨address.index + UInt32.ofNat places, address.generation⟩

theorem Address.shift_ofNat (places i : Nat) :
    Address.shift places ⟨UInt32.ofNat i, 0⟩ = ⟨UInt32.ofNat (places + i), 0⟩ := by
  simp [shift, UInt32.ofNat_add, UInt32.add_comm]

namespace Activation

theorem relocate_referencesFrom (places first count : Nat) :
    (referencesFrom first count).map (Value.relocate (Address.shift places)) =
      referencesFrom (places + first) count := by
  rw [referencesFrom, referencesFrom, ← List.map_add_range', List.map_map, List.map_map]
  apply List.map_congr_left
  intro place _
  simp only [Function.comp_apply, Value.relocate, Reference.relocate, Address.shift_ofNat]

theorem relocate_textObject (ρ : Address → Address) (text : String) :
    (textObject text).relocate ρ = textObject text := by
  simp only [textObject, HeapObject.ofBytes, HeapObject.relocate, List.map_map]
  rfl

theorem relocate_textArray (places first count : Nat) :
    (textArray first count).relocate (Address.shift places) = textArray (places + first) count := by
  simp only [textArray, HeapObject.relocate, relocate_referencesFrom]

theorem relocate_textObjects (places first : Nat) (texts : List String) :
    (textObjects first texts).map (HeapObject.relocate (Address.shift places)) =
      textObjects (places + first) texts := by
  simp only [textObjects, List.map_append, List.map_map, List.map_cons, List.map_nil,
    relocate_textArray]
  congr 1
  exact List.map_congr_left fun text _ => relocate_textObject _ text

theorem relocate_ofArray (places place : Nat) :
    (ofArray place).relocate (Address.shift places) = ofArray (places + place) := by
  simp only [ofArray, ofArgs, Activation.relocate, List.map_cons, List.map_nil, Value.relocate,
    Reference.relocate, Address.shift_ofNat]

theorem place_of_mem_textObjects
    {first : Nat} {texts : List String} {object : HeapObject} {reference : Reference}
    (hobject : object ∈ textObjects first texts) (hmem : .ref reference ∈ object.payload) :
    ∃ i < texts.length, reference.address = ⟨UInt32.ofNat (first + i), 0⟩ := by
  rcases List.mem_append.1 hobject with htext | harray
  · obtain ⟨text, -, rfl⟩ := List.mem_map.1 htext
    obtain ⟨byte, -, hbyte⟩ := List.mem_map.1 hmem
    cases hbyte
  · rw [List.mem_singleton.1 harray] at hmem
    obtain ⟨place, hplace, hreference⟩ := List.mem_map.1 hmem
    obtain ⟨i, hi, rfl⟩ := List.mem_range'.1 hplace
    cases hreference
    exact ⟨i, hi, by rw [Nat.one_mul]⟩

section

variable {heap : Heap} {policy : ReclaimPolicy} {texts : List String} {reference : Reference}

theorem object?_textObjects {i : Nat} (h : i < Heap.maxPlaces) :
    ((Heap.empty policy).append (textObjects 0 texts)).object? ⟨UInt32.ofNat i, 0⟩ =
      (textObjects 0 texts)[i]? := by
  simpa [Heap.empty] using
    @Heap.object?_append (.empty policy) (textObjects 0 texts) i (by simpa [Heap.empty] using h)

/-- From the array nothing is reached but the array and the texts. -/
theorem place_of_reaches
    (hroom : texts.length < Heap.maxPlaces)
    (h : ((Heap.empty policy).append (textObjects 0 texts)).Reaches
      (ofArray texts.length).Refers reference) :
    ∃ i ≤ texts.length, reference.address = ⟨UInt32.ofNat i, 0⟩ := by
  induction h with
  | root h =>
    rcases h with harg | hstack
    · cases List.mem_singleton.1 harg
      exact ⟨texts.length, Nat.le_refl _, rfl⟩
    · cases hstack
  | element _ object_eq mem ih =>
    obtain ⟨i, hi, haddress⟩ := ih
    rw [haddress, Heap.object_eq_ok, object?_textObjects (by omega)] at object_eq
    obtain ⟨j, hj, hnext⟩ := place_of_mem_textObjects (List.mem_of_getElem? object_eq) mem
    rw [Nat.zero_add] at hnext
    exact ⟨j, Nat.le_of_lt hj, hnext⟩

/-- The objects of texts that were put into an empty heap are mirrored behind any
other. -/
theorem mirrored_textObjects
    (hroom : heap.entries.size + texts.length < Heap.maxPlaces)
    (h : ((Heap.empty policy).append (textObjects 0 texts)).Reaches
      (ofArray texts.length).Refers reference) :
    ((Heap.empty policy).append (textObjects 0 texts)).Mirrored
      (heap.append (textObjects heap.entries.size texts)) (Address.shift heap.entries.size)
      reference := by
  obtain ⟨i, hi, haddress⟩ := place_of_reaches (by omega) h
  rw [Heap.Mirrored, haddress, Address.shift_ofNat, object?_textObjects (by omega),
    Heap.object?_append (by omega), ← List.getElem?_map, relocate_textObjects, Nat.add_zero]

theorem invoke_textObjects
    {program : Program} {limits : Limits} {outcome : Outcome}
    (hroom : heap.entries.size + texts.length < Heap.maxPlaces)
    (h : Machine.invoke program ((Heap.empty policy).append (textObjects 0 texts)) limits
      (ofArray texts.length) = .ok outcome) :
    Machine.invoke program (heap.append (textObjects heap.entries.size texts)) limits
        (ofArray (heap.entries.size + texts.length)) =
      .ok (outcome.relocate (Address.shift heap.entries.size)) := by
  rw [← relocate_ofArray,
    Machine.invoke_relocate fun reference => mirrored_textObjects hroom, h]
  rfl

end

/-- A function with one argument can be started with an array. -/
theorem exists_invoke_ofArray
    {program : Program} {entry : Function} (heap : Heap) (limits : Limits) (place : Nat)
    (hentry : program.entry.bind program.function? = some entry) (harity : entry.arity = 1) :
    ∃ outcome, Machine.invoke program heap limits (ofArray place) = .ok outcome := by
  obtain ⟨index, hindex, hfunction⟩ := Option.bind_eq_some_iff.1 hentry
  simp [Machine.invoke, Machine.start, hindex, hfunction, harity, ofArray, ofArgs, Except.map]

end Activation

/-! ## The heap of a fixture -/

/-- A heap whose objects are in its first places, with nothing ever released. -/
structure Heap.Packed (heap : Heap) (size : Nat) : Prop where
  free_eq : heap.free = []
  size_eq : heap.entries.size = size
  size_le : size ≤ maxPlaces

theorem Heap.packed_empty (policy : ReclaimPolicy) : (empty policy).Packed 0 :=
  ⟨rfl, rfl, Nat.zero_le _⟩

theorem Heap.Packed.of_inserted
    {heap after : Heap} {object : HeapObject} {address : Address} {size : Nat}
    (h : heap.Packed size) (hinserted : Inserted heap object address after) :
    after.Packed (size + 1) := by
  obtain ⟨free_eq, rfl, -⟩ := h
  cases hinserted with
  | reused reused_eq =>
    rw [free_eq] at reused_eq
    cases reused_eq
  | appended _ room => exact ⟨free_eq, Array.size_push _, room⟩

namespace Fixture

variable {labels labels' : Labels} {heap heap' : Heap} {entries : List HeapEntry}

theorem makeEntries_packed
    {order : List Nat} {size : Nat} (horder : ∀ index ∈ order, index < entries.length)
    (hheap : heap.Packed size)
    (h : makeEntries entries order labels heap = .ok (labels', heap')) :
    heap'.Packed (size + order.length) := by
  induction order generalizing labels heap size with
  | nil =>
    cases h
    exact hheap
  | cons index rest ih =>
    obtain ⟨hindex, hrest⟩ := List.forall_mem_cons.1 horder
    simp only [makeEntries, List.getElem?_eq_getElem hindex] at h
    split at h
    · cases h
    · rename_i hentry
      obtain ⟨kind, values, address, -, -, -, hcreate, -⟩ := makeEntry_eq_ok.1 hentry
      obtain ⟨object, -, -, hinserted⟩ := Heap.inserted_of_create hcreate
      have hpacked := ih hrest (hheap.of_inserted hinserted) h
      rwa [Nat.add_right_comm, Nat.add_assoc] at hpacked

/-- Every heap entry is made once. -/
theorem buildHeap_packed
    {policy : ReclaimPolicy} (h : buildHeap entries (.empty policy) = .ok (labels', heap')) :
    heap'.Packed entries.length := by
  obtain ⟨order, horder, hmade⟩ := bind_eq_ok.1 h
  obtain ⟨-, hordered, hall⟩ := ordered_of_creationOrder horder
  have hlength : order.length = entries.length := by
    have hperm := hordered.perm_range fun index hindex => List.mem_reverse.2 (hall index hindex)
    rw [← List.length_reverse, hperm.length_eq, List.length_range]
  have hpacked := makeEntries_packed
    (fun index hindex => hordered.lt_length (List.mem_reverse.2 hindex))
    (Heap.packed_empty policy) hmade
  rwa [Nat.zero_add, hlength] at hpacked

variable {fixture : Fixture} {policy : ReclaimPolicy} {prepared : Prepared}

theorem prepared_bare
    (hstack : fixture.stack = []) (hlocals : fixture.locals = [])
    (h : fixture.prepare policy = .ok prepared) :
    fixture.program = .ok prepared.program ∧ prepared.heap.Packed fixture.heap.length ∧
      prepared.activation.stack = [] ∧ prepared.activation.locals = [] := by
  obtain ⟨program, hprogram, h⟩ := bind_eq_ok.1 h
  obtain ⟨⟨labels, heap⟩, hheap, h⟩ := bind_eq_ok.1 h
  obtain ⟨args, -, h⟩ := bind_eq_ok.1 h
  obtain ⟨stack, hvalues, h⟩ := bind_eq_ok.1 h
  obtain ⟨expected, -, h⟩ := bind_eq_ok.1 h
  obtain ⟨locals, hkinds, h⟩ := bind_eq_ok.1 h
  cases h
  rw [hstack] at hvalues
  rw [hlocals] at hkinds
  cases hvalues
  cases hkinds
  exact ⟨hprogram, buildHeap_packed hheap, rfl, rfl⟩

end Fixture

/-! ## Running both -/

namespace Image

theorem ofBytes_toBinary
    {program : Program} {bytes : Bytes} (h : program.toBinary = .ok bytes)
    (hentry : ∀ entry ∈ program.entry, entry.toNat < program.functions.size) :
    ofBytes bytes = .ok (.container program (.ofProgram program)) := by
  have hfits := Container.fits_of_toBinary h
  have hbytes := Except.ok.inj (h.symm.trans (Container.toBinary_of_fits hfits))
  have hread : Program.readFrom (.ofBytes bytes) = .ok (program, .ofProgram program) :=
    Container.readFrom_eq_ok.2 ⟨_, hbytes, rfl, Container.Layout.holds_ofProgram hfits hentry,
      Container.Layout.info_ofProgram hfits⟩
  have hsignature : Container.signature.isPrefixOf bytes = true := by
    rw [hbytes, List.isPrefixOf_iff_prefix]
    exact List.prefix_append _ _
  rw [ofBytes, if_pos hsignature, hread]

section

variable {source : Fixture} {program : Program} {policy : ReclaimPolicy} {prepared : Prepared}
  {args : List String}

theorem prepare_container
    {entry : Function} (info : Container.Info)
    (hentry : program.entry.bind program.function? = some entry) (harity : entry.arity = 1)
    (hroom : args.length < Heap.maxPlaces) :
    (container program info).prepare policy args =
      .ok ⟨program, (Heap.empty policy).append (Activation.textObjects 0 args),
        .ofArray args.length, [], none⟩ := by
  have htexts := @Activation.ofTexts_of_room (.empty policy) args rfl
    (by simpa [Heap.empty] using hroom)
  have hsize : (Heap.empty policy).entries.size = 0 := rfl
  rw [hsize, Nat.zero_add] at htexts
  simp only [prepare, hentry, containerActivation, harity, if_true, htexts]

theorem prepare_fixture
    (hprepare : source.prepare policy = .ok prepared) (hargs : args ≠ []) :
    (fixture source).prepare policy args =
      (prepared.withMainArgs args).mapError fun e => .fixture (.heap e) := by
  have hempty : args.isEmpty = false := by simpa using hargs
  simp [prepare, hprepare, hempty]

theorem withMainArgs_of_room
    (hfree : prepared.heap.free = []) (hstack : prepared.activation.stack = [])
    (hlocals : prepared.activation.locals = [])
    (hroom : prepared.heap.entries.size + args.length < Heap.maxPlaces) :
    prepared.withMainArgs args =
      .ok { prepared with
        heap := prepared.heap.append (Activation.textObjects prepared.heap.entries.size args)
        activation := .ofArray (prepared.heap.entries.size + args.length) } := by
  rw [Prepared.withMainArgs, Activation.ofTexts_of_room hfree hroom]
  simp [hstack, hlocals, Activation.ofArray, Activation.ofArgs]

end

/-- A fixture without initial stack and locals, whose entry takes one argument, runs
like the container built from its program. The container reads back as the program;
given the same texts, both can be started, and they end with the same trap or with
the same values, where the references of the fixture are further on by the number of
its heap entries. Only where the heap entries, the texts and their array need more
places than a heap can have is the fixture refused. -/
theorem built_container_runs_like_fixture
    {source : Fixture} {policy policy' : ReclaimPolicy} {prepared : Prepared} {entry : Function}
    {bytes : Bytes} {args : List String} {limits : Limits} (hstack : source.stack = [])
    (hlocals : source.locals = []) (hprepare : source.prepare policy = .ok prepared)
    (hentry : prepared.program.entry.bind prepared.program.function? = some entry)
    (harity : entry.arity = 1) (hbinary : prepared.program.toBinary = .ok bytes)
    (hargs : args ≠ []) :
    source.program = .ok prepared.program ∧
    ∃ info, ofBytes bytes = .ok (container prepared.program info) ∧
      ((Heap.maxPlaces ≤ source.heap.length + args.length ∧
          (fixture source).prepare policy args = .error (.fixture (.heap .exhausted))) ∨
        ∃ (ready boxed : Prepared) (outcome : Outcome),
          (fixture source).prepare policy args = .ok ready ∧
          (container prepared.program info).prepare policy' args = .ok boxed ∧
          (boxed.run limits).1 = .ok outcome ∧
          (ready.run limits).1 = .ok (outcome.relocate (Address.shift source.heap.length))) := by
  obtain ⟨hprogram, hpacked, hnoStack, hnoLocals⟩ := Fixture.prepared_bare hstack hlocals hprepare
  have hinside : ∀ index ∈ prepared.program.entry,
      index.toNat < prepared.program.functions.size := by
    intro index hindex
    rw [Option.mem_def.1 hindex] at hentry
    exact (Array.getElem?_eq_some_iff.1 hentry).1
  refine ⟨hprogram, _, ofBytes_toBinary hbinary hinside, ?_⟩
  rw [prepare_fixture hprepare hargs, ← hpacked.size_eq]
  by_cases hroom : prepared.heap.entries.size + args.length < Heap.maxPlaces
  · refine .inr ?_
    obtain ⟨outcome, houtcome⟩ := Activation.exists_invoke_ofArray
      ((Heap.empty policy').append (Activation.textObjects 0 args)) limits args.length hentry harity
    rw [withMainArgs_of_room hpacked.free_eq hnoStack hnoLocals hroom,
      prepare_container _ hentry harity (by omega)]
    exact ⟨_, _, outcome, rfl, rfl, houtcome, Activation.invoke_textObjects hroom houtcome⟩
  · have hfull := Nat.le_of_not_lt hroom
    have hsize : prepared.heap.entries.size ≤ Heap.maxPlaces := by
      rw [hpacked.size_eq]
      exact hpacked.size_le
    obtain ⟨after, htexts⟩ := Activation.ofTexts_exhausted hpacked.free_eq hsize hfull
    refine .inl ⟨hfull, ?_⟩
    rw [Prepared.withMainArgs, htexts]
    rfl

/-- A fixture with a text of its own, and a function that opens the array it is
given. -/
def textAside : Fixture where
  functions := [⟨"open", 1, 0, 1, ["poparg 0", "refslot 1", "ret"]⟩]
  entry := none
  heap := [⟨"text", "u8", none, none, some "x"⟩]
  args := []
  stack := []
  locals := []
  expect := none

/-- The program of that function. -/
def opening : Program :=
  .single ⟨"open", 1, 0, 1, #[4, 0, 8, 1, 13]⟩

theorem prepare_textAside :
    textAside.prepare .recycle =
      .ok ⟨opening, (Heap.empty .recycle).append [.ofBytes [120]], .empty,
        [("text", ⟨0, 0⟩)], none⟩ := by
  have hprogram : textAside.program = .ok opening := by
    have hnew : Program.empty.find? "open" = none := by
      simp [Program.find?, Program.empty]
    simp only [textAside, Fixture.program, Fixture.addFunctions, hnew]
    rfl
  have hheap : Fixture.buildHeap textAside.heap (.empty .recycle) =
      .ok ([("text", ⟨0, 0⟩)], (Heap.empty .recycle).append [.ofBytes [120]]) := by
    have horder : Fixture.creationOrder textAside.heap = .ok [0] := by
      cbv
    rw [Fixture.buildHeap, bind_eq_of_eq_ok horder]
    rfl
  rw [Fixture.prepare, bind_eq_of_eq_ok hprogram, bind_eq_of_eq_ok hheap]
  rfl

theorem fits_opening : Container.Fits opening :=
  ⟨by decide, by decide, by decide⟩

theorem entry_opening :
    opening.entry.bind opening.function? = some ⟨"open", 1, 0, 1, #[4, 0, 8, 1, 13]⟩ := rfl

/-- The text that the function returns is the second one of the fixture, and the
first one of the container. -/
theorem built_container_runs_like_fixture_opened :
    ∃ bytes info ready boxed,
      opening.toBinary = .ok bytes ∧ ofBytes bytes = .ok (container opening info) ∧
      (fixture textAside).prepare .recycle ["y"] = .ok ready ∧
      (container opening info).prepare .retain ["y"] = .ok boxed ∧
      (boxed.run ⟨1, 1⟩).1 = .ok (.ok [.ref ⟨⟨0, 0⟩, .integer .u8⟩]) ∧
      (ready.run ⟨1, 1⟩).1 = .ok (.ok [.ref ⟨⟨1, 0⟩, .integer .u8⟩]) := by
  have hbinary := Container.toBinary_of_fits fits_opening
  obtain ⟨-, info, hread, ⟨hfull, -⟩ | ⟨ready, boxed, outcome, hready, hboxed, hrun, hmoved⟩⟩ :=
    @built_container_runs_like_fixture textAside .recycle .retain _ _ _ ["y"] ⟨1, 1⟩ rfl rfl
      prepare_textAside entry_opening rfl hbinary (List.cons_ne_nil _ _)
  · exact absurd hfull (by decide)
  · have hcontainer := @prepare_container _ .retain ["y"] _ info entry_opening rfl (by decide)
    obtain rfl := Except.ok.inj (hboxed.symm.trans hcontainer)
    have hopened : outcome = .ok [.ref ⟨⟨0, 0⟩, .integer .u8⟩] :=
      Except.ok.inj (hrun.symm.trans (congrArg Except.ok (Machine.run_eq_of_steps (n := 3) rfl)))
    rw [hopened] at hrun hmoved
    exact ⟨_, info, ready, _, hbinary, hread, hready, hcontainer, hrun, hmoved⟩

/-- Given one text less than there are places, the fixture is short of a place for its own. -/
theorem prepare_textAside_exhausted {args : List String}
    (h : args.length + 1 = Heap.maxPlaces) :
    (fixture textAside).prepare .recycle args = .error (.fixture (.heap .exhausted)) := by
  have hargs : args ≠ [] := by
    rintro rfl
    cases h
  have hsize : ((Heap.empty .recycle).append [.ofBytes [120]]).entries.size = 1 := rfl
  obtain ⟨after, htexts⟩ := @Activation.ofTexts_exhausted
    ((Heap.empty .recycle).append [.ofBytes [120]]) args rfl (by omega) (by omega)
  rw [prepare_fixture prepare_textAside hargs, Prepared.withMainArgs, htexts]
  rfl

/-- With so many texts, the container built from the program of the fixture runs where the
fixture is refused. -/
theorem fixture_refused_once_exhausted :
    ∃ prepared bytes info boxed outcome,
      textAside.prepare .recycle = .ok prepared ∧ prepared.program.toBinary = .ok bytes ∧
      ofBytes bytes = .ok (container prepared.program info) ∧
      (fixture textAside).prepare .recycle (List.replicate (Heap.maxPlaces - 1) "y") =
        .error (.fixture (.heap .exhausted)) ∧
      (container prepared.program info).prepare .recycle
        (List.replicate (Heap.maxPlaces - 1) "y") = .ok boxed ∧
      (boxed.run ⟨1, 1⟩).1 = .ok outcome := by
  have hplaces : 0 < Heap.maxPlaces := by decide
  have hlength : (List.replicate (Heap.maxPlaces - 1) "y").length = Heap.maxPlaces - 1 :=
    List.length_replicate
  -- the texts are not to be written out
  generalize List.replicate (Heap.maxPlaces - 1) "y" = args at hlength ⊢
  have hbinary := Container.toBinary_of_fits fits_opening
  obtain ⟨outcome, houtcome⟩ := Activation.exists_invoke_ofArray
    ((Heap.empty .recycle).append (Activation.textObjects 0 args)) ⟨1, 1⟩ args.length
    entry_opening rfl
  refine ⟨_, _, _, _, outcome, prepare_textAside, hbinary, ofBytes_toBinary hbinary ?_,
    prepare_textAside_exhausted (by omega), prepare_container _ entry_opening rfl (by omega),
    houtcome⟩
  rintro _ ⟨⟩
  decide

end Image

end TypedStack
