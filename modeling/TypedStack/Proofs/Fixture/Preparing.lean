import TypedStack.Image
import TypedStack.Proofs.Except
import TypedStack.Proofs.Machine.Dangling

/-!
# References in prepared images

Preparing an image makes its heap from nothing and refers only to objects that are
there: the value for a label is looked up in the heap, and so is the value for each
text. Nothing is released on the way. So whatever the image is and however it names
its entries, the heap is well typed in the end, the activation refers to objects in
it, and no run meets a dangling reference.
-/

namespace TypedStack

/-! ## Arguments made of texts -/

namespace Activation

variable {heap after : Heap} {texts : List String}

theorem textReferences_wellTyped
    {references : List Value} (hheap : heap.WellTyped)
    (h : textReferences texts heap = .ok references after) :
    after.WellTyped ∧ heap.Extends after ∧ ∀ value ∈ references, value.Within after.Names := by
  induction texts generalizing heap references with
  | nil =>
    cases h
    exact ⟨hheap, .refl _, nofun⟩
  | cons text rest ih =>
    obtain ⟨address, _, hcreate, hrefer⟩ := Heap.update_bind_eq_ok.1 h
    obtain ⟨reference, middle, hlook, hrest⟩ := Heap.update_bind_eq_ok.1 hrefer
    obtain ⟨hreference, rfl⟩ := Heap.look_eq_ok.1 hlook
    obtain ⟨others, _, hothers, hdone⟩ := Heap.update_bind_eq_ok.1 hrest
    cases hdone
    have hinserted := Heap.inserted_of_insert hcreate
    have hmiddle : middle.WellTyped := by
      refine hheap.of_inserted hinserted fun value hvalue => ?_
      obtain ⟨byte, -, rfl⟩ := List.mem_map.1 hvalue
      exact Value.within_of_kind_ne_ref nofun
    obtain ⟨hafter, hextends, hwithin⟩ := ih hmiddle hothers
    refine ⟨hafter, (hinserted.extends hheap.consistent).trans hextends, ?_⟩
    exact List.forall_mem_cons.2
      ⟨hextends.within (Heap.within_of_reference hreference), hwithin⟩

theorem ofTexts_wellTyped
    {activation : Activation} (hheap : heap.WellTyped)
    (h : ofTexts texts heap = .ok activation after) :
    after.WellTyped ∧ heap.Extends after ∧
      ∀ reference, activation.Refers reference → after.Names reference := by
  obtain ⟨references, middle, htexts, hmain⟩ := Heap.update_bind_eq_ok.1 h
  obtain ⟨address, _, hcreate, hrefer⟩ := Heap.update_bind_eq_ok.1 hmain
  obtain ⟨argument, _, hlook, hdone⟩ := Heap.update_bind_eq_ok.1 hrefer
  obtain ⟨hargument, rfl⟩ := Heap.look_eq_ok.1 hlook
  cases hdone
  obtain ⟨hmiddle, hextends, hreferences⟩ := textReferences_wellTyped hheap htexts
  obtain ⟨object, -, hpayload, hinserted⟩ := Heap.inserted_of_create hcreate
  rw [← hpayload] at hreferences
  refine ⟨hmiddle.of_inserted hinserted hreferences,
    hextends.trans (hinserted.extends hmiddle.consistent), ?_⟩
  rintro reference (harg | hstack)
  · exact Heap.within_of_reference hargument reference (List.mem_singleton.1 harg).symm
  · cases hstack

end Activation

/-! ## Heap entries and values of fixtures -/

namespace Fixture

section

variable {labels labels' : Labels} {heap heap' : Heap} {entry : HeapEntry}

theorem resolve_within
    {spec : ValueSpec} {value : Value} (h : resolve labels heap spec = .ok value) :
    value.Within heap.Names := by
  cases spec with
  | ref label =>
    unfold resolve at h
    cases hlabel : labels.lookup label with
    | none =>
      simp only [hlabel] at h
      cases h
    | some address =>
      simp only [hlabel] at h
      cases hreference : heap.reference address with
      | error e =>
        rw [hreference] at h
        cases h
      | ok found =>
        rw [hreference] at h
        cases h
        exact Heap.within_of_reference hreference
  | _ =>
    cases h
    exact Value.within_of_kind_ne_ref nofun

theorem resolveAll_within
    {specs : List ValueSpec} {values : List Value} (h : resolveAll labels heap specs = .ok values) :
    ∀ value ∈ values, value.Within heap.Names := by
  have hresolved := mapM_eq_ok.1 h
  clear h
  induction hresolved with
  | nil => exact nofun
  | cons hvalue _ ih => exact List.forall_mem_cons.2 ⟨resolve_within hvalue, ih⟩

theorem payload_within
    {kind : Kind} {values : List Value} (h : payload labels heap entry kind = .ok values) :
    ∀ value ∈ values, value.Within heap.Names := by
  unfold payload at h
  split at h
  · cases h
  · split at h
    · cases h
      intro value hvalue
      obtain ⟨byte, -, rfl⟩ := List.mem_map.1 hvalue
      exact Value.within_of_kind_ne_ref nofun
    · cases h
  · exact resolveAll_within h
  · split at h
    · cases h
    · rename_i zero hzero
      cases h
      intro value hvalue
      rw [List.eq_of_mem_replicate hvalue]
      exact Value.within_of_kind_ne_ref (Value.kind_ne_ref_of_zero? hzero)

/-- An entry is made if its kind exists, its payload can be resolved and has the
length it says, and the heap takes the object. -/
theorem makeEntry_eq_ok :
    makeEntry labels heap entry = .ok (labels', heap') ↔
      ∃ kind values address, resolveKind entry.kind = .ok kind ∧
        payload labels heap entry kind = .ok values ∧
        checkCount entry values.length = .ok () ∧
        Heap.create kind values heap = .ok address heap' ∧
        labels' = (entry.id, address) :: labels := by
  unfold makeEntry
  constructor
  · intro h
    obtain ⟨kind, hkind, h⟩ := bind_eq_ok.1 h
    obtain ⟨values, hvalues, h⟩ := bind_eq_ok.1 h
    obtain ⟨⟨⟩, hcount, h⟩ := bind_eq_ok.1 h
    cases hcreate : Heap.create kind values heap with
    | error e after =>
      rw [hcreate] at h
      cases h
    | ok address after =>
      rw [hcreate] at h
      cases h
      exact ⟨kind, values, address, hkind, hvalues, hcount, hcreate, rfl⟩
  · rintro ⟨kind, values, address, hkind, hvalues, hcount, hcreate, rfl⟩
    rw [bind_eq_of_eq_ok hkind, bind_eq_of_eq_ok hvalues, bind_eq_of_eq_ok hcount, hcreate]
    rfl

theorem makeEntry_wellTyped
    (hheap : heap.WellTyped) (h : makeEntry labels heap entry = .ok (labels', heap')) :
    heap'.WellTyped := by
  obtain ⟨kind, values, address, -, hvalues, -, hcreate, -⟩ := makeEntry_eq_ok.1 h
  obtain ⟨object, -, rfl, hinserted⟩ := Heap.inserted_of_create hcreate
  exact hheap.of_inserted hinserted (payload_within hvalues)

theorem makeEntries_wellTyped
    {entries : List HeapEntry} {order : List Nat} (hheap : heap.WellTyped)
    (h : makeEntries entries order labels heap = .ok (labels', heap')) : heap'.WellTyped := by
  induction order generalizing labels heap with
  | nil =>
    cases h
    exact hheap
  | cons index rest ih =>
    unfold makeEntries at h
    split at h
    · exact ih hheap h
    · split at h
      · cases h
      · rename_i hentry
        exact ih (makeEntry_wellTyped hheap hentry) h

theorem buildHeap_wellTyped
    {entries : List HeapEntry} (hheap : heap.WellTyped)
    (h : buildHeap entries heap = .ok (labels', heap')) : heap'.WellTyped := by
  obtain ⟨order, -, hmade⟩ := bind_eq_ok.1 h
  exact makeEntries_wellTyped hheap hmade

end

end Fixture

/-! ## Preparing -/

namespace Prepared

/-- The heap is well typed, and the activation refers to objects in it. -/
structure Grounded (prepared : Prepared) : Prop where
  heap : prepared.heap.WellTyped
  activation : ∀ reference, prepared.activation.Refers reference →
    prepared.heap.Names reference

end Prepared

theorem Fixture.grounded_of_prepare
    {fixture : Fixture} {policy : ReclaimPolicy} {prepared : Prepared}
    (h : fixture.prepare policy = .ok prepared) : prepared.Grounded := by
  obtain ⟨program, -, h⟩ := bind_eq_ok.1 h
  obtain ⟨⟨labels, heap⟩, hheap, h⟩ := bind_eq_ok.1 h
  obtain ⟨args, hargs, h⟩ := bind_eq_ok.1 h
  obtain ⟨stack, hstack, h⟩ := bind_eq_ok.1 h
  obtain ⟨expected, -, h⟩ := bind_eq_ok.1 h
  obtain ⟨locals, -, h⟩ := bind_eq_ok.1 h
  cases h
  refine ⟨buildHeap_wellTyped (Heap.wellTyped_empty policy) hheap, ?_⟩
  rintro reference (harg | hvalue)
  · exact resolveAll_within hargs _ harg reference rfl
  · exact resolveAll_within hstack _ hvalue reference rfl

theorem Prepared.Grounded.withMainArgs
    {prepared after : Prepared} {texts : List String} (hgrounded : prepared.Grounded)
    (h : prepared.withMainArgs texts = .ok after) : after.Grounded := by
  unfold Prepared.withMainArgs at h
  split at h
  · cases h
  · rename_i activation heap htexts
    cases h
    obtain ⟨hheap, hextends, hrefers⟩ := Activation.ofTexts_wellTyped hgrounded.heap htexts
    refine ⟨hheap, ?_⟩
    rintro reference (harg | hstack)
    · exact hrefers reference (.inl harg)
    · exact hextends.names (hgrounded.activation reference (.inr hstack))

namespace Image

variable {image : Image} {policy : ReclaimPolicy} {args : List String} {prepared : Prepared}

theorem grounded_of_prepare (h : image.prepare policy args = .ok prepared) :
    prepared.Grounded := by
  cases image with
  | fixture fixture =>
    unfold prepare at h
    cases hfixture : fixture.prepare policy with
    | error e =>
      simp only [hfixture] at h
      cases h
    | ok found =>
      have hgrounded := Fixture.grounded_of_prepare hfixture
      simp only [hfixture] at h
      split at h
      · cases h
        exact hgrounded
      · cases hargs : found.withMainArgs args with
        | error e =>
          rw [hargs] at h
          cases h
        | ok after =>
          rw [hargs] at h
          cases h
          exact hgrounded.withMainArgs hargs
  | container program info =>
    unfold prepare at h
    cases hentry : program.entry.bind program.function? with
    | none =>
      simp only [hentry] at h
      cases h
    | some entry =>
      simp only [hentry, containerActivation] at h
      split at h
      · cases h
      · rename_i activation heap hactivation
        cases h
        split at hactivation
        · obtain ⟨hheap, -, hrefers⟩ :=
            Activation.ofTexts_wellTyped (Heap.wellTyped_empty policy) hactivation
          exact ⟨hheap, hrefers⟩
        · cases hactivation
          refine ⟨Heap.wellTyped_empty policy, ?_⟩
          rintro reference (harg | hstack)
          · cases harg
          · cases hstack

/-- However an image is prepared and limited, a reference in a live frame of its run
names an object of the heap and has its element kind, and the run does not trap for
a dangling reference. -/
theorem run_without_dangling_references
    {limits : Limits} {outcome : Outcome} (hprepare : image.prepare policy args = .ok prepared)
    (hrun : (prepared.run limits).1 = .ok outcome) :
    (∀ machine,
      Machine.Reachable prepared.program prepared.heap limits prepared.activation machine →
      ∀ frame ∈ machine.frames, ∀ reference, .ref reference ∈ frame.values →
        machine.heap.Names reference) ∧
    ∀ trap, outcome = .error trap → trap.kind ≠ .danglingReference := by
  have hgrounded := grounded_of_prepare hprepare
  constructor
  · intro machine hreachable frame hframe reference hmem
    have hwithin := hreachable.within_names hgrounded.heap hgrounded.activation
    rw [hreachable.sound.heap_eq]
    exact Frame.within_iff.1 (hwithin.frames frame hframe) _ hmem reference rfl
  · rintro trap rfl
    obtain ⟨machine, hreachable, houtcome⟩ := Machine.exists_reachable_of_invoke hrun
    exact hreachable.trap_ne_dangling hgrounded.heap hgrounded.activation houtcome

/-- A fixture that lists an array before the text it refers to, and a function that
opens the array it is given. -/
def arrayBeforeText : Fixture where
  functions := [⟨"open", 1, 0, 1, ["poparg 0", "refslot 1", "ret"]⟩]
  entry := none
  heap := [⟨"array", "ref", none, some [.ref "text"], none⟩,
    ⟨"text", "u8", none, none, some "x"⟩]
  args := [.ref "array"]
  stack := []
  locals := []
  expect := none

/-- The text is made first. -/
def textAndArray : Heap :=
  ⟨.recycle, #[⟨0, some (.ofBytes [120])⟩,
    ⟨0, some ⟨.ref, [.ref ⟨⟨0, 0⟩, .integer .u8⟩], by simp [Value.kind]⟩⟩], [], 2⟩

/-- The function comes to hold a reference that its activation does not. -/
theorem run_without_dangling_references_opened :
    ∃ prepared : Prepared,
      (fixture arrayBeforeText).prepare .recycle [] = .ok prepared ∧
      (prepared.run ⟨1, 1⟩).1 = .ok (.ok [.ref ⟨⟨0, 0⟩, .integer .u8⟩]) ∧
      ∃ machine,
        Machine.Reachable prepared.program prepared.heap ⟨1, 1⟩ prepared.activation machine ∧
        .ref ⟨⟨0, 0⟩, .integer .u8⟩ ∈ machine.frame.values ∧
        ¬prepared.activation.Refers ⟨⟨0, 0⟩, .integer .u8⟩ ∧
        machine.heap.Names ⟨⟨0, 0⟩, .integer .u8⟩ := by
  have hprogram : arrayBeforeText.program =
      .ok (.single ⟨"open", 1, 0, 1, #[4, 0, 8, 1, 13]⟩) := by
    have hnew : Program.empty.find? "open" = none := by
      simp [Program.find?, Program.empty]
    simp only [arrayBeforeText, Fixture.program, Fixture.addFunctions, hnew]
    rfl
  have hheap : Fixture.buildHeap arrayBeforeText.heap (.empty .recycle) =
      .ok ([("array", ⟨1, 0⟩), ("text", ⟨0, 0⟩)], textAndArray) := by
    have horder : Fixture.creationOrder arrayBeforeText.heap = .ok [1, 0] := by
      cbv
    rw [Fixture.buildHeap, bind_eq_of_eq_ok horder]
    rfl
  have hprepare : (fixture arrayBeforeText).prepare .recycle [] =
      .ok ⟨.single ⟨"open", 1, 0, 1, #[4, 0, 8, 1, 13]⟩, textAndArray,
        .ofArgs [.ref ⟨⟨1, 0⟩, .ref⟩], [("array", ⟨1, 0⟩), ("text", ⟨0, 0⟩)], none⟩ := by
    rw [prepare, Fixture.prepare, bind_eq_of_eq_ok hprogram, bind_eq_of_eq_ok hheap]
    rfl
  have hrun : (Prepared.run ⟨.single ⟨"open", 1, 0, 1, #[4, 0, 8, 1, 13]⟩, textAndArray,
      .ofArgs [.ref ⟨⟨1, 0⟩, .ref⟩], [("array", ⟨1, 0⟩), ("text", ⟨0, 0⟩)], none⟩ ⟨1, 1⟩).1 =
        .ok (.ok [.ref ⟨⟨0, 0⟩, .integer .u8⟩]) :=
    congrArg Except.ok (Machine.run_eq_of_steps (n := 3) rfl)
  have hopened := (Machine.Reachable.start (rfl : Machine.start
    (.single ⟨"open", 1, 0, 1, #[4, 0, 8, 1, 13]⟩) textAndArray ⟨1, 1⟩
      (.ofArgs [.ref ⟨⟨1, 0⟩, .ref⟩]) = .ok _)).step.step
  have hholds := List.mem_cons_self (a := Value.ref ⟨⟨0, 0⟩, .integer .u8⟩)
    (l := [.ref ⟨⟨1, 0⟩, .ref⟩])
  refine ⟨_, hprepare, hrun, _, hopened, hholds, ?_, ?_⟩
  · rintro (harg | hstack)
    · cases List.mem_singleton.1 harg
    · cases hstack
  · exact (run_without_dangling_references hprepare hrun).1 _ hopened _ List.mem_cons_self _ hholds

end Image

end TypedStack
