import TypedStack.Proofs.Machine.Termination

/-!
# References cannot be made up

Every instruction moves values or makes numbers; the only one that brings in a
reference from elsewhere reads it out of an object that a reference on the stack
names. So a set of references that is closed under reading from the heap and holds
those of the activation holds all references of a run, in whatever part of whatever
frame they are. The least such set consists of the references that can be reached
through the heap.
-/

namespace TypedStack

/-- References that can be reached through a heap from those in `roots`. -/
inductive Heap.Reaches (heap : Heap) (roots : Reference → Prop) : Reference → Prop where
  | root {reference : Reference} (h : roots reference) : Reaches heap roots reference
  | element {reference next : Reference} {object : HeapObject}
      (h : Reaches heap roots reference) (object_eq : heap.object reference.address = .ok object)
      (mem : .ref next ∈ object.payload) : Reaches heap roots next

/-- Whether an activation holds a reference. -/
def Activation.Refers (activation : Activation) (reference : Reference) : Prop :=
  .ref reference ∈ activation.args ∨ .ref reference ∈ activation.stack

/-! ## The values of a machine -/

/-- The values of all arguments, moved out or not. -/
def Arguments.values (arguments : Arguments) : List Value :=
  arguments.slots.map (·.value)

def LocalSlot.value? : LocalSlot → Option Value
  | uninit => none
  | declared _ => none
  | holding value => some value

def Locals.values (locals : Locals) : List Value :=
  locals.slots.filterMap LocalSlot.value?

def Frame.values (frame : Frame) : List Value :=
  frame.stack.values ++ frame.arguments.values ++ frame.locals.values

/-- The values that a run has returned: none as long as it goes on, and none if it
has trapped. -/
def Machine.returned (machine : Machine) : List Value :=
  match machine.outcome with
  | some (.ok values) => values
  | some (.error _) | none => []

/-- The values in a machine: those in live frames, and those returned. -/
def Machine.values (machine : Machine) : List Value :=
  machine.frames.flatMap Frame.values ++ machine.returned

/-! ## Sets of references -/

/-- The value is no reference, or one in the set. -/
def Value.Within (known : Reference → Prop) (value : Value) : Prop :=
  ∀ reference, value = .ref reference → known reference

/-- The set holds all references that can be read through those in it. -/
def Heap.Closed (heap : Heap) (known : Reference → Prop) : Prop :=
  ∀ reference object, known reference → heap.object reference.address = .ok object →
    ∀ value ∈ object.payload, value.Within known

/-- The references in a frame are in the set. -/
structure Frame.Within (known : Reference → Prop) (frame : Frame) : Prop where
  stack : ∀ value ∈ frame.stack.values, value.Within known
  arguments : ∀ value ∈ frame.arguments.values, value.Within known
  locals : ∀ value ∈ frame.locals.values, value.Within known

section

variable {known : Reference → Prop} {heap : Heap} {value : Value} {frame : Frame}

theorem Heap.closed_reaches (heap : Heap) (roots : Reference → Prop) :
    heap.Closed (heap.Reaches roots) := by
  intro reference object hreaches hobject value hvalue next hnext
  rw [hnext] at hvalue
  exact .element hreaches hobject hvalue

theorem Value.within_of_kind_ne_ref (h : value.kind ≠ .ref) : value.Within known := by
  rintro reference rfl
  exact absurd rfl h

theorem Frame.within_iff :
    frame.Within known ↔ ∀ value ∈ frame.values, value.Within known := by
  simp only [Frame.values, List.mem_append]
  constructor
  · rintro h value ((hmem | hmem) | hmem)
    · exact h.stack value hmem
    · exact h.arguments value hmem
    · exact h.locals value hmem
  · intro h
    exact ⟨fun value hmem => h value (.inl (.inl hmem)),
      fun value hmem => h value (.inl (.inr hmem)), fun value hmem => h value (.inr hmem)⟩

theorem Frame.Within.imp
    {known' : Reference → Prop} (h : frame.Within known)
    (himp : ∀ reference, known reference → known' reference) : frame.Within known' where
  stack value hmem reference hvalue := himp reference (h.stack value hmem reference hvalue)
  arguments value hmem reference hvalue := himp reference (h.arguments value hmem reference hvalue)
  locals value hmem reference hvalue := himp reference (h.locals value hmem reference hvalue)

/-! ## Values that instructions read -/

theorem OperandStack.mem_of_popN
    {stack after : OperandStack} {n : Nat} {values : List Value}
    (h : stack.popN n = .ok (values, after)) :
    (∀ value ∈ values, value ∈ stack.values) ∧ ∀ value ∈ after.values, value ∈ stack.values := by
  obtain ⟨-, rfl, rfl⟩ := popN_eq_ok.1 h
  constructor
  · exact fun value hmem => List.mem_of_mem_take (List.mem_reverse.1 hmem)
  · exact fun value hmem => List.mem_of_mem_drop hmem

theorem Arguments.mem_of_read
    {arguments : Arguments} {index : Nat} (h : arguments.read index = .ok value) :
    value ∈ arguments.values := by
  unfold read at h
  split at h
  · cases h
  · rename_i argument hargument
    split at h
    · cases h
    · cases h
      exact List.mem_map.2 ⟨argument, List.mem_of_getElem? hargument, rfl⟩

/-- What is read from a local slot was written there, or it is the zero of a
kind. -/
theorem Locals.mem_or_zero_of_read
    {locals : Locals} {index : Nat} (h : locals.read index = .ok value) :
    value ∈ locals.values ∨ ∃ kind, Value.zero? kind = some value := by
  unfold read at h
  split at h
  · cases h
  · cases h
  · rename_i kind _
    split at h
    · rename_i hzero
      cases h
      exact .inr ⟨kind, hzero⟩
    · cases h
  · rename_i hslot
    cases h
    exact .inl (List.mem_filterMap.2 ⟨_, List.mem_of_getElem? hslot, rfl⟩)

theorem Value.kind_ne_ref_of_zero? {kind : Kind} (h : Value.zero? kind = some value) :
    value.kind ≠ .ref := by
  cases kind with
  | integer _ => exact Option.some.inj h ▸ nofun
  | float _ => exact Option.some.inj h ▸ nofun
  | bool => exact Option.some.inj h ▸ nofun
  | ref => cases h

/-- What is read from an object is its length or in its payload. -/
theorem Frame.within_of_fetch
    (hclosed : heap.Closed known) {reference : Reference} (hknown : known reference)
    {index : Nat} (h : Frame.fetch heap reference.address index = .ok value) :
    value.Within known := by
  unfold Frame.fetch Heap.deref at h
  cases hobject : heap.object reference.address with
  | error e =>
    simp only [hobject] at h
    cases h
  | ok object =>
    cases index with
    | zero =>
      simp only [hobject, HeapObject.get?] at h
      cases h
      exact Value.within_of_kind_ne_ref nofun
    | succ index =>
      simp only [hobject, HeapObject.get?] at h
      split at h
      · rename_i hvalue
        cases h
        exact hclosed reference object hknown hobject value (List.mem_of_getElem? hvalue)
      · cases h

/-! ## What instructions write -/

end

namespace Frame

open TypedStack.Action

/-- An action that comes to its end with references from the set only. -/
def StaysWithin
    {α : Type} (known : Reference → Prop) (action : Action Frame α) (frame : Frame) : Prop :=
  After action frame (fun _ after => after.Within known) (fun _ _ => True)

section

variable {known : Reference → Prop} {heap : Heap} {value : Value} {frame : Frame} {α β τ : Type}

theorem staysWithin_check_bind
    {test : Frame → Except TrapKind β} {rest : β → Action Frame α}
    (h : ∀ b, test frame = .ok b → StaysWithin known (rest b) frame) :
    StaysWithin known (check test >>= rest) frame := by
  unfold StaysWithin
  rw [after_bind, after_check]
  exact ⟨h, fun _ _ => trivial⟩

theorem staysWithin_change
    {get : Frame → τ} {put : Frame → τ → Frame} {operation : τ → Except TrapKind (α × τ)}
    (h : ∀ a part, operation (get frame) = .ok (a, part) → (put frame part).Within known) :
    StaysWithin known (change get put operation) frame := by
  unfold StaysWithin
  rw [after_change]
  exact ⟨h, fun _ _ => trivial⟩

theorem staysWithin_change_bind
    {get : Frame → τ} {put : Frame → τ → Frame} {operation : τ → Except TrapKind (β × τ)}
    {rest : β → Action Frame α}
    (h : ∀ b part, operation (get frame) = .ok (b, part) →
      StaysWithin known (rest b) (put frame part)) :
    StaysWithin known (change get put operation >>= rest) frame := by
  unfold StaysWithin
  rw [after_bind, after_change]
  exact ⟨h, fun _ _ => trivial⟩

/-- Only the values of a stack matter. -/
theorem Within.with_stack
    (h : frame.Within known) {stack : OperandStack}
    (hstack : ∀ value ∈ stack.values, value.Within known) :
    Frame.Within known { frame with stack } :=
  ⟨hstack, h.arguments, h.locals⟩

theorem Within.push (h : frame.Within known) (hvalue : value.Within known) :
    StaysWithin known (push value) frame := by
  apply staysWithin_change
  intro _ stack hpushed
  obtain ⟨-, rfl⟩ := OperandStack.push_eq_ok.1 (silent_eq_ok.1 hpushed)
  exact h.with_stack (List.forall_mem_cons.2 ⟨hvalue, h.stack⟩)

theorem Within.replaceTop (h : frame.Within known) (hvalue : value.Within known) :
    StaysWithin known (replaceTop value) frame := by
  apply staysWithin_change_bind
  intro _ stack hreplaced
  obtain ⟨rest, hvalues, rfl⟩ := OperandStack.replaceTop_eq_ok.1 hreplaced
  have hrest : ∀ value ∈ rest, value.Within known := by
    intro value hmem
    exact h.stack value (hvalues ▸ List.mem_cons_of_mem _ hmem)
  exact h.with_stack (List.forall_mem_cons.2 ⟨hvalue, hrest⟩)

theorem Within.loadArg (h : frame.Within known) (slot : Nat) :
    StaysWithin known (loadArg slot) frame := by
  refine staysWithin_check_bind fun _ _ => staysWithin_check_bind fun value hread => ?_
  exact h.push (h.arguments value (Arguments.mem_of_read hread))

theorem Within.popArg (h : frame.Within known) (slot : Nat) :
    StaysWithin known (popArg slot) frame := by
  refine staysWithin_check_bind fun _ _ => staysWithin_change_bind fun value arguments htaken => ?_
  obtain ⟨hread, rfl⟩ := Arguments.take_eq_ok.1 htaken
  have hvalue : value.Within known := h.arguments value (Arguments.mem_of_read hread)
  have hafter : Frame.Within known
      { frame with arguments := ⟨frame.arguments.slots.set slot ⟨value, true⟩⟩ } := by
    refine ⟨h.stack, ?_, h.locals⟩
    intro other hother
    obtain ⟨argument, hargument, rfl⟩ := List.mem_map.1 hother
    rcases List.mem_or_eq_of_mem_set hargument with hkept | rfl
    · exact h.arguments _ (List.mem_map.2 ⟨argument, hkept, rfl⟩)
    · exact hvalue
  exact hafter.push hvalue

/-- A slot that is written brings in what it holds now. -/
theorem Within.set_local
    (h : frame.Within known) (index : Nat) {slot : LocalSlot}
    (hslot : ∀ value, slot.value? = some value → value.Within known) :
    Frame.Within known { frame with locals := ⟨frame.locals.slots.set index slot⟩ } := by
  refine ⟨h.stack, h.arguments, ?_⟩
  intro value hvalue
  obtain ⟨found, hfound, hholds⟩ := List.mem_filterMap.1 hvalue
  rcases List.mem_or_eq_of_mem_set hfound with hkept | rfl
  · exact h.locals value (List.mem_filterMap.2 ⟨found, hkept, hholds⟩)
  · exact hslot value hholds

theorem Within.initLocal (h : frame.Within known) (kind : Kind) (slot : Nat) :
    StaysWithin known (initLocal kind slot) frame := by
  apply staysWithin_change
  intro _ locals hdeclared
  obtain ⟨-, rfl⟩ := Locals.init_eq_ok.1 (silent_eq_ok.1 hdeclared)
  exact h.set_local slot nofun

theorem Within.popLocal (h : frame.Within known) (slot : Nat) :
    StaysWithin known (popLocal slot) frame := by
  refine staysWithin_check_bind fun value hpeek => staysWithin_check_bind fun _ _ => ?_
  refine staysWithin_change_bind fun top stack hpopped => staysWithin_change ?_
  intro _ locals hwritten
  obtain ⟨hvalues, -⟩ := OperandStack.pop_eq_ok.1 hpopped
  obtain ⟨-, rfl⟩ := Locals.write_eq_ok.1 (silent_eq_ok.1 hwritten)
  have hrest : ∀ value ∈ stack.values, value.Within known := by
    intro value hmem
    exact h.stack value (hvalues ▸ List.mem_cons_of_mem _ hmem)
  have hvalue : value.Within known := h.stack value (OperandStack.mem_of_below hpeek)
  refine (h.with_stack hrest).set_local slot ?_
  rintro held ⟨⟩
  exact hvalue

theorem Within.pushLocal (h : frame.Within known) (slot : Nat) :
    StaysWithin known (pushLocal slot) frame := by
  refine staysWithin_check_bind fun _ _ => staysWithin_check_bind fun value hread => ?_
  apply h.push
  rcases Locals.mem_or_zero_of_read hread with hmem | ⟨kind, hzero⟩
  · exact h.locals value hmem
  · exact Value.within_of_kind_ne_ref (Value.kind_ne_ref_of_zero? hzero)

theorem Within.refSlot (h : frame.Within known) (hclosed : heap.Closed known) (slot : Nat) :
    StaysWithin known (refSlot heap slot) frame := by
  refine staysWithin_check_bind fun reference href => staysWithin_check_bind fun value hfetch => ?_
  have hknown : known reference := h.stack _ (OperandStack.mem_of_referenceBelow href) _ rfl
  exact h.replaceTop (within_of_fetch hclosed hknown hfetch)

theorem Within.pushArray (h : frame.Within known) (hclosed : heap.Closed known) :
    StaysWithin known (pushArray heap) frame := by
  refine staysWithin_check_bind fun _ _ => staysWithin_check_bind fun reference href => ?_
  refine staysWithin_check_bind fun index _ => staysWithin_check_bind fun value hfetch => ?_
  refine staysWithin_change_bind fun _ stack hpopped => ?_
  have hknown : known reference := h.stack _ (OperandStack.mem_of_referenceBelow href) _ rfl
  have hrest : ∀ value ∈ stack.values, value.Within known :=
    fun value hmem => h.stack value ((OperandStack.mem_of_popN hpopped).2 value hmem)
  exact (h.with_stack hrest).push (within_of_fetch hclosed hknown hfetch)

theorem Within.convert
    (h : frame.Within known) {conversion : Value → Except ConversionError Value}
    (hconversion : ∀ top result, conversion top = .ok result → result.kind ≠ .ref) :
    StaysWithin known (convert conversion) frame := by
  refine staysWithin_check_bind fun top _ => staysWithin_check_bind fun value hvalue => ?_
  apply h.replaceTop
  cases hresult : conversion top with
  | error e =>
    rw [hresult] at hvalue
    cases hvalue
  | ok result =>
    rw [hresult] at hvalue
    cases hvalue
    exact Value.within_of_kind_ne_ref (hconversion top _ hresult)

/-- An instruction that works on a frame brings in no reference but those read
through the ones in the frame. -/
theorem Within.perform
    (h : frame.Within known) (hclosed : heap.Closed known) (instruction : Instruction) :
    StaysWithin known (perform heap instruction) frame := by
  cases instruction with
  | nop => exact h
  | pushU8 value => exact h.push (Value.within_of_kind_ne_ref nofun)
  | loadArg slot => exact h.loadArg _
  | popArg slot => exact h.popArg _
  | initLocal kind slot => exact h.initLocal _ _
  | popLocal slot => exact h.popLocal _
  | pushLocal slot => exact h.pushLocal _
  | refSlot slot => exact h.refSlot hclosed _
  | pushArray => exact h.pushArray hclosed
  | checkedConvert target =>
    exact h.convert fun _ _ hresult => Value.kind_ne_ref_of_convertChecked hresult
  | uncheckedConvert target =>
    exact h.convert fun _ _ hresult => Value.kind_ne_ref_of_convertUnchecked hresult
  | call function => exact h
  | ret => exact h

/-- A frame that has just been entered holds its arguments only. -/
theorem within_enter
    {args : List Value} (hargs : ∀ value ∈ args, value.Within known) (function : UInt16)
    (locals limit : Nat) : (enter function args locals limit).Within known where
  stack := nofun
  arguments := by simpa [enter, Arguments.values, Arguments.ofValues] using hargs
  locals := by simp [enter, Locals.values, Locals.blank, LocalSlot.value?]

end

end Frame

namespace Machine

/-! ## Transitions and runs -/

section

variable {known : Reference → Prop} {machine after : Machine}

/-- A transition carries references over between frames and brings in none but
those read through the ones that are there. -/
theorem Transition.frames_within
    {flow : Flow} (h : Transition machine flow after) (hclosed : machine.heap.Closed known)
    (hframes : ∀ frame ∈ machine.frames, frame.Within known) :
    ∀ frame ∈ after.frames, frame.Within known := by
  have hframe : machine.frame.Within known := hframes _ List.mem_cons_self
  have hcallers : ∀ frame ∈ machine.callers, frame.Within known :=
    fun frame hmem => hframes frame (List.mem_cons_of_mem _ hmem)
  cases h with
  | within _ _ _ performed =>
    have hafter := (hframe.perform hclosed _).of_ok performed
    exact List.forall_mem_cons.2
      ⟨⟨hafter.stack, hafter.arguments, hafter.locals⟩, hcallers⟩
  | enter _ _ _ popped =>
    obtain ⟨hargs, hstack⟩ := OperandStack.mem_of_popN popped
    refine List.forall_mem_cons.2 ⟨Frame.within_enter ?_ _ _ _, ?_⟩
    · exact fun value hmem => hframe.stack value (hargs value hmem)
    · refine List.forall_mem_cons.2 ⟨⟨?_, hframe.arguments, hframe.locals⟩, hcallers⟩
      exact fun value hmem => hframe.stack value (hstack value hmem)
  | @leave _ _ caller callers _ _ _ callers_eq extended =>
    obtain ⟨-, rfl⟩ := OperandStack.extend_eq_ok.1 extended
    rw [callers_eq, List.forall_mem_cons] at hcallers
    obtain ⟨hcaller, hcallers⟩ := hcallers
    refine List.forall_mem_cons.2 ⟨hcaller.with_stack ?_, hcallers⟩
    intro value hmem
    rcases List.mem_append.1 hmem with hreturned | hkept
    · apply hframe.stack
      simpa [OperandStack.toList] using hreturned
    · exact hcaller.stack value hkept
  | finish _ _ _ =>
    refine List.forall_mem_cons.2 ⟨hframe.with_stack ?_, hcallers⟩
    exact fun _ hmem => absurd hmem List.not_mem_nil

theorem Transition.returned_within
    {values : List Value} (h : Transition machine (.returned values) after)
    (hframe : machine.frame.Within known) : ∀ value ∈ values, value.Within known := by
  cases h with
  | finish _ _ _ => exact fun value hmem => hframe.stack value (List.mem_reverse.1 hmem)

/-- The references in a machine are in the set. -/
structure Within (known : Reference → Prop) (machine : Machine) : Prop where
  frames : ∀ frame ∈ machine.frames, frame.Within known
  returned : ∀ value ∈ machine.returned, value.Within known

variable {program : Program} {heap : Heap} {limits : Limits} {activation : Activation}

theorem within_start
    (hstart : start program heap limits activation = .ok machine)
    (hactivation : ∀ reference, activation.Refers reference → known reference) :
    machine.Within known := by
  obtain ⟨entry, function, -, -, -, -, -, rfl⟩ := start_eq_ok hstart
  refine ⟨List.forall_mem_singleton.2 ⟨?_, ?_, ?_⟩, nofun⟩
  · rintro value hmem reference rfl
    exact hactivation reference (.inr (List.mem_reverse.1 hmem))
  · intro value hmem reference hvalue
    have hargs : value ∈ activation.args := by
      simpa [Arguments.values, Arguments.ofValues] using hmem
    exact hactivation reference (.inl (hvalue ▸ hargs))
  · intro value hmem
    obtain ⟨slot, hslot, hholds⟩ := List.mem_filterMap.1 hmem
    -- what is declared holds nothing yet
    have hempty : slot.value? = none := by
      rcases List.mem_append.1 hslot with hdeclared | hblank
      · obtain ⟨kind, -, rfl⟩ := List.mem_map.1 hdeclared
        cases kind <;> rfl
      · rw [List.eq_of_mem_replicate hblank]
        rfl
    rw [hempty] at hholds
    cases hholds

/-- A set that is closed under reading from the heap and holds the references of
the activation holds those of every state of the run. -/
theorem Reachable.within
    (h : Reachable program heap limits activation machine) (hclosed : heap.Closed known)
    (hactivation : ∀ reference, activation.Refers reference → known reference) :
    machine.Within known := by
  refine h.induct (motive := Machine.Within known) ?_ ?_ ?_ ?_
  · exact fun machine hstart => within_start hstart hactivation
  · intro machine kind _ _ _ ih
    exact ⟨ih.frames, nofun⟩
  · intro machine after hreachable hrunning htransition ih
    rw [← hreachable.sound.heap_eq] at hclosed
    refine ⟨htransition.frames_within hclosed ih.frames, ?_⟩
    simp [returned, htransition.outcome_eq, hrunning]
  · intro machine values after hreachable _ htransition ih
    rw [← hreachable.sound.heap_eq] at hclosed
    refine ⟨htransition.frames_within hclosed ih.frames, ?_⟩
    exact htransition.returned_within (ih.frames _ List.mem_cons_self)

theorem Reachable.within_reaches (h : Reachable program heap limits activation machine) :
    machine.Within (heap.Reaches activation.Refers) :=
  h.within (heap.closed_reaches _) fun _ => .root

theorem Within.of_mem_values
    (h : machine.Within known) {value : Value} (hmem : value ∈ machine.values) :
    value.Within known := by
  rcases List.mem_append.1 hmem with hframes | hreturned
  · obtain ⟨frame, hframe, hvalue⟩ := List.mem_flatMap.1 hframes
    exact Frame.within_iff.1 (h.frames frame hframe) value hvalue
  · exact h.returned value hreturned

/-- A reference anywhere in a state of a run, or among the values that the run
returns, can be reached through the heap from the references of the activation. -/
theorem references_reached
    (program : Program) (heap : Heap) (limits : Limits) (activation : Activation) :
    (∀ machine, Reachable program heap limits activation machine →
      ∀ reference, .ref reference ∈ machine.values →
        heap.Reaches activation.Refers reference) ∧
    ∀ values, invoke program heap limits activation = .ok (.ok values) →
      ∀ reference, .ref reference ∈ values → heap.Reaches activation.Refers reference := by
  have hstates : ∀ machine, Reachable program heap limits activation machine →
      ∀ reference, .ref reference ∈ machine.values →
        heap.Reaches activation.Refers reference :=
    fun machine hreachable reference hmem =>
      hreachable.within_reaches.of_mem_values hmem reference rfl
  refine ⟨hstates, fun values hinvoke reference hmem => ?_⟩
  obtain ⟨machine, hreachable, houtcome⟩ := exists_reachable_of_invoke hinvoke
  apply hstates machine hreachable reference
  have hreturned : machine.returned = values := by
    rw [Machine.returned, houtcome]
  rw [Machine.values, hreturned]
  exact List.mem_append_right _ hmem

end

/-- A function that opens the array it is given returns a reference that its
activation does not hold, and that can be reached through the array. -/
theorem references_reached_opened :
    ∃ heap : Heap,
      invoke (.single ⟨"open", 1, 0, 1, #[4, 0, 8, 1, 13]⟩) heap ⟨1, 1⟩
        (.ofArgs [.ref ⟨⟨1, 0⟩, .ref⟩]) = .ok (.ok [.ref ⟨⟨0, 0⟩, .integer .u8⟩]) ∧
      ¬(Activation.ofArgs [.ref ⟨⟨1, 0⟩, .ref⟩]).Refers ⟨⟨0, 0⟩, .integer .u8⟩ ∧
      heap.Reaches (Activation.ofArgs [.ref ⟨⟨1, 0⟩, .ref⟩]).Refers ⟨⟨0, 0⟩, .integer .u8⟩ := by
  have hinvoke : invoke (.single ⟨"open", 1, 0, 1, #[4, 0, 8, 1, 13]⟩)
      ⟨.retain, #[⟨0, some (.ofBytes [7])⟩,
        ⟨0, some ⟨.ref, [.ref ⟨⟨0, 0⟩, .integer .u8⟩], by simp [Value.kind]⟩⟩], [], 2⟩
      ⟨1, 1⟩ (.ofArgs [.ref ⟨⟨1, 0⟩, .ref⟩]) = .ok (.ok [.ref ⟨⟨0, 0⟩, .integer .u8⟩]) :=
    congrArg Except.ok (run_eq_of_steps (n := 3) rfl)
  refine ⟨_, hinvoke, ?_, ?_⟩
  · rintro (harg | hstack)
    · cases List.mem_singleton.1 harg
    · cases hstack
  · exact (references_reached _ _ _ _).2 _ hinvoke _ (List.mem_singleton.2 rfl)

end Machine

end TypedStack
