import TypedStack.Proofs.Conversion.Wrapping
import TypedStack.Proofs.Heap.History
import TypedStack.Proofs.Machine.Termination
import TypedStack.Proofs.Sharing.Texts

/-!
# What a main function is started with

A main function is given texts by way of the heap: each is an array of bytes, and the only
argument refers to an array of references to them. They are put into a heap that may have been
in use, one after the other, wherever a place is left. So what each text is read as, that no
place is shared, and that nothing else is touched has to hold after all of the insertions. How
many objects there are and how many more there can be is counted by rules of its own, one for
each way of composing updates.

A function that returns the first element of the array then returns the number of the texts,
as long as the number is one of the kind that the function converts it to.
-/

namespace TypedStack

/-! ## Counting objects and places -/

namespace Heap

/-- The update puts `n` objects into the heap, each into a place of its own, and is stopped
for want of places only if there are fewer than `n`. -/
structure Puts {α : Type} (n : Nat) (update : Update α) : Prop where
  done : ∀ heap a after, update heap = .ok a after →
    after.live = heap.live + n ∧ after.vacancies + n = heap.vacancies
  exhausted : ∀ heap after, update heap = .error .exhausted after → heap.vacancies < n

section

variable {α β : Type} {m n : Nat}

theorem puts_pure (a : α) : Puts 0 (pure a) where
  done _ _ _ h := by
    cases h
    exact ⟨rfl, rfl⟩
  exhausted _ _ h := by cases h

theorem puts_insert (object : HeapObject) : Puts 1 (insert object) where
  done heap address after h :=
    have hinserted := inserted_of_insert h
    ⟨hinserted.live_eq, hinserted.vacancies_eq⟩
  exhausted heap after h := by
    by_cases hfull : heap.Full
    · rw [full_iff_vacancies.1 hfull]
      exact Nat.one_pos
    · obtain ⟨address, found, hinsert⟩ := exists_insert_eq_ok hfull object
      cases hinsert.symm.trans h

theorem puts_create (element : Kind) (payload : List Value) : Puts 1 (create element payload) := by
  unfold create
  cases HeapObject.make element payload with
  | error mismatch =>
    constructor
    · intro heap address after h
      cases h
    · intro heap after h
      cases h
  | ok object => exact puts_insert object

theorem puts_reference (address : Address) : Puts 0 (look (·.reference address)) where
  done _ _ _ h := by
    obtain ⟨-, rfl⟩ := look_eq_ok.1 h
    exact ⟨rfl, rfl⟩
  exhausted heap _ h := by
    -- the only error of a lookup is that the address dangles
    simp only [look, Heap.reference, Heap.object] at h
    cases hobject : heap.object? address <;> simp [hobject, Except.map] at h

theorem Puts.bind {first : Update α} {second : α → Update β}
    (hfirst : Puts m first) (hsecond : ∀ a, Puts n (second a)) :
    Puts (m + n) (first >>= second) where
  done heap b after h := by
    obtain ⟨a, middle, ha, hb⟩ := update_bind_eq_ok.1 h
    have hmiddle := hfirst.done heap a middle ha
    have hafter := (hsecond a).done middle b after hb
    omega
  exhausted heap after h := by
    rcases update_bind_eq_error.1 h with herror | ⟨a, middle, ha, herror⟩
    · have hfew := hfirst.exhausted heap after herror
      omega
    · have hmiddle := hfirst.done heap a middle ha
      have hfew := (hsecond a).exhausted middle after herror
      omega

end

end Heap

namespace Activation

theorem puts_textReferences (texts : List String) :
    Heap.Puts texts.length (textReferences texts) := by
  induction texts with
  | nil => exact Heap.puts_pure []
  | cons text rest ih =>
    have hall := (Heap.puts_insert (textObject text)).bind fun address =>
      (Heap.puts_reference address).bind fun reference =>
        ih.bind fun references => Heap.puts_pure (reference :: references)
    rw [Nat.add_zero, Nat.zero_add, Nat.add_comm] at hall
    exact hall

theorem puts_ofTexts (texts : List String) : Heap.Puts (texts.length + 1) (ofTexts texts) :=
  (puts_textReferences texts).bind fun references =>
    (Heap.puts_create .ref references).bind fun address =>
      (Heap.puts_reference address).bind fun argument => Heap.puts_pure (ofArgs [argument])

/-! ## What the function finds -/

/-- The texts have been put into a heap for a main function. Its argument refers to `array`,
which is read as the number of the texts and a reference to each of them; a text is read as the
number of its bytes and each of these. Places are not shared and were vacant before, what was
there is there still, and there are no other objects. -/
structure Presents (heap : Heap) (texts : List String) (places : List Address)
    (array : Address) (after : Heap) : Prop where
  count : after.deref array 0 = .ok (.wrapInteger .usize texts.length)
  count_exact :
    (Value.wrapInteger .usize texts.length).toInt? = some (texts.length : Int)
  length_eq : places.length = texts.length
  text : ∀ (i : Nat) place, places[i]? = some place →
    after.deref array (i + 1) = .ok (.ref ⟨place, .integer .u8⟩)
  bytes : ∀ (i : Nat) text place, texts[i]? = some text → places[i]? = some place →
    after.deref place 0 = .ok (.wrapInteger .usize (Bytes.ofString text).length)
  bytes_exact : ∀ text ∈ texts, (Bytes.ofString text).length ≤ IntegerKind.usize.max →
    (Value.wrapInteger .usize (Bytes.ofString text).length).toInt? =
      some ((Bytes.ofString text).length : Int)
  byte : ∀ (i : Nat) text place, texts[i]? = some text → places[i]? = some place →
    ∀ (j : Nat) b, (Bytes.ofString text)[j]? = some b → after.deref place (j + 1) = .ok (.u8 b)
  distinct : (places ++ [array]).Nodup
  vacant : ∀ place ∈ places ++ [array], heap.isLive place = false
  kept : ∀ address object, heap.object address = .ok object →
    after.object address = .ok object
  live_eq : after.live = heap.live + (texts.length + 1)

/-- A number of objects is a machine word. -/
theorem toInt?_count {n : Nat} (h : n < Heap.maxPlaces) :
    (Value.wrapInteger .usize n).toInt? = some (n : Int) := by
  apply Value.toInt?_wrapInteger (Int.natCast_nonneg _)
  have hplaces : (Heap.maxPlaces : Int) ≤ IntegerKind.usize.max := by decide
  omega

section

variable {heap after : Heap} {texts : List String} {places : List Address} {array : Address}

theorem presents_of_provided
    (h : Provided after texts places array) (hgrown : heap.Grown after)
    (hvacant : ∀ place ∈ places ++ [array], heap.object? place = none)
    (hlive : after.live = heap.live + (texts.length + 1)) :
    Presents heap texts places array after := by
  have harray := Heap.reads_of_object? h.array_eq
  have hlength : (arrayOf places).length = texts.length := by
    simp [HeapObject.length, arrayOf, referencesTo, h.length_eq]
  have htext (i : Nat) (text : String) (place : Address) (hi : texts[i]? = some text)
      (hplace : places[i]? = some place) : after.Reads place (textObject text) :=
    Heap.reads_of_object? (h.object_eq i text place hi hplace)
  have hbytes (text : String) : (textObject text).length = (Bytes.ofString text).length := by
    rw [HeapObject.length, textObject, HeapObject.ofBytes, List.length_map]
  refine {
    count := ?_
    count_exact := toInt?_count h.room
    length_eq := h.length_eq
    text := ?_
    bytes := ?_
    bytes_exact := ?_
    byte := ?_
    distinct := h.nodup_all
    vacant := ?_
    kept := ?_
    live_eq := hlive }
  · rw [← hlength]
    exact harray.length
  · intro i place hplace
    apply harray.element
    simp [arrayOf, referencesTo, hplace]
  · intro i text place hi hplace
    rw [← hbytes]
    exact (htext i text place hi hplace).length
  · intro text _ hfits
    exact Value.toInt?_wrapInteger (Int.natCast_nonneg _) hfits
  · intro i text place hi hplace j b hb
    apply (htext i text place hi hplace).element
    rw [textObject, HeapObject.ofBytes, List.getElem?_map, hb, Option.map_some]
  · intro place hplace
    rw [Heap.isLive, hvacant place hplace, Option.isSome_none]
  · intro address object hobject
    exact Heap.object_eq_ok.2 (hgrown.extends _ _ (Heap.object_eq_ok.1 hobject))

end

end Activation

/-! ## Instructions on a frame -/

namespace Frame

open TypedStack.Action

section

variable {frame : Frame} {stack : OperandStack} {value top : Value}

theorem loadArg_of_ok {slot : Nat} (hvalue : frame.arguments.read slot = .ok value)
    (hpush : frame.stack.push value = .ok stack) :
    loadArg slot frame = .ok () { frame with stack } := by
  have hroom : check (fun frame : Frame => frame.stack.ensureRoom 1) frame = .ok () frame :=
    check_of_ok (OperandStack.ensureRoom_eq_ok.2 (OperandStack.push_eq_ok.1 hpush).1)
  have hread : check (fun frame : Frame => frame.arguments.read slot) frame = .ok value frame :=
    check_of_ok hvalue
  have hsilent : silent (·.push value) frame.stack = .ok ((), stack) := silent_eq_ok.2 hpush
  have hpushed : onStack (silent (·.push value)) frame = .ok () { frame with stack } :=
    change_of_ok hsilent
  rw [loadArg, bind_of_ok hroom, bind_of_ok hread]
  exact hpushed

theorem replaceTop_of_ok (h : frame.stack.replaceTop value = .ok (top, stack)) :
    replaceTop value frame = .ok () { frame with stack } := by
  have hreplaced : onStack (·.replaceTop value) frame = .ok top { frame with stack } :=
    change_of_ok h
  rw [replaceTop, bind_of_ok hreplaced]
  rfl

theorem refSlot_of_ok {heap : Heap} {slot : Nat} {reference : Reference}
    (hreference : frame.stack.referenceBelow 0 = .ok reference)
    (hvalue : heap.deref reference.address slot = .ok value)
    (hreplace : frame.stack.replaceTop value = .ok (top, stack)) :
    refSlot heap slot frame = .ok () { frame with stack } := by
  have hfound : check (fun frame : Frame => frame.stack.referenceBelow 0) frame =
      .ok reference frame :=
    check_of_ok hreference
  have hfetch : fetch heap reference.address slot = .ok value := by
    rw [fetch, hvalue]
    rfl
  have hfetched : check (fun _ : Frame => fetch heap reference.address slot) frame =
      .ok value frame :=
    check_of_ok hfetch
  rw [refSlot, bind_of_ok hfound, bind_of_ok hfetched]
  exact replaceTop_of_ok hreplace

variable {conversion : Value → Except ConversionError Value}

theorem convert_of_ok (htop : frame.stack.peek = .ok top) (hvalue : conversion top = .ok value)
    (hreplace : frame.stack.replaceTop value = .ok (top, stack)) :
    convert conversion frame = .ok () { frame with stack } := by
  have hfound : check (fun frame : Frame => frame.stack.peek) frame = .ok top frame :=
    check_of_ok htop
  have hconverted : check (fun _ : Frame => (conversion top).mapError ConversionError.trapKind)
      frame = .ok value frame := by
    apply check_of_ok
    rw [hvalue]
    rfl
  rw [convert, bind_of_ok hfound, bind_of_ok hconverted]
  exact replaceTop_of_ok hreplace

theorem convert_of_error {e : ConversionError} (htop : frame.stack.peek = .ok top)
    (he : conversion top = .error e) :
    convert conversion frame = .error e.trapKind frame := by
  have hfound : check (fun frame : Frame => frame.stack.peek) frame = .ok top frame :=
    check_of_ok htop
  have hrefused : check (fun _ : Frame => (conversion top).mapError ConversionError.trapKind)
      frame = .error e.trapKind frame := by
    apply check_of_error
    rw [he]
    rfl
  rw [convert, bind_of_ok hfound]
  exact bind_of_error hrefused _

end

end Frame

/-! ## A function that counts its texts -/

namespace Machine

/-- The entry of the program takes one argument and returns the first element of the object
that the argument refers to, converted to a signed integer of thirty-two bits. -/
structure CountsTexts (program : Program) (entry : UInt16) (function : Function) : Prop where
  entry_eq : program.entry = some entry
  function_eq : program.function? entry = some function
  arity_eq : function.arity = 1
  returns_eq : function.returns = 1
  code_eq : Instruction.assemble ["loadarg 0", "refslot 0", "cconv.i32", "ret"] =
    .ok function.code.toList

namespace CountsTexts

/-- The run of the entry with the given argument, at an offset and with values on the stack. -/
def machineAt (program : Program) (heap : Heap) (limits : Limits) (entry : UInt16)
    (function : Function) (argument : Value) (pc : Nat) (values : List Value) : Machine where
  program
  heap
  limits
  frame := {
    function := entry
    pc
    arguments := .ofValues [argument]
    locals := .declared function.locals.toNat []
    stack := ⟨limits.stack, values⟩ }
  callers := []
  room := limits.frames - 1
  outcome := none

variable {program : Program} {heap : Heap} {limits : Limits} {entry : UInt16}
  {function : Function} {argument value : Value}

theorem code_toList (h : CountsTexts program entry function) :
    function.code.toList = [3, 0, 8, 0, 10, 6, 13] :=
  (Except.ok.inj h.code_eq).symm

theorem fetched (h : CountsTexts program entry function) (heap : Heap) (limits : Limits)
    (argument : Value) (values : List Value) {pc next : Nat} {instruction : Instruction}
    (hpc : pc < 7)
    (hdecode : Instruction.decodeAt [3, 0, 8, 0, 10, 6, 13] pc = .ok (instruction, next)) :
    Fetched (machineAt program heap limits entry function argument pc values) function
      instruction next where
  function_eq := h.function_eq
  inside := by
    rw [← Array.length_toList, h.code_toList]
    exact hpc
  decodeAt_eq := by
    rw [h.code_toList]
    exact hdecode

theorem invoke_eq (h : CountsTexts program entry function) :
    invoke program heap limits (.ofArgs [argument]) =
      .ok (machineAt program heap limits entry function argument 0 []).run := by
  have hstart : start program heap limits (.ofArgs [argument]) =
      .ok (machineAt program heap limits entry function argument 0 []) := by
    simp [start, h.entry_eq, h.function_eq, h.arity_eq, Activation.ofArgs, machineAt]
  rw [invoke, hstart]
  rfl

theorem run_loadArg (h : CountsTexts program entry function) (hlimit : 1 ≤ limits.stack) :
    (machineAt program heap limits entry function argument 0 []).run =
      (machineAt program heap limits entry function argument 2 [argument]).run := by
  have hfetched : Fetched (machineAt program heap limits entry function argument 0 []) function
      (.loadArg 0) 2 :=
    h.fetched _ _ _ _ (by decide) rfl
  have hpush : (machineAt program heap limits entry function argument 0 []).frame.stack.push
      argument = .ok ⟨limits.stack, [argument]⟩ :=
    OperandStack.push_eq_ok.2 ⟨hlimit, rfl⟩
  exact run_of_transition rfl
    (.within hfetched rfl (Nat.zero_le _) (Frame.loadArg_of_ok rfl hpush))

theorem run_refSlot {array : Address} {element : Kind} (h : CountsTexts program entry function)
    (hvalue : heap.deref array 0 = .ok value) :
    (machineAt program heap limits entry function argument 2 [.ref ⟨array, element⟩]).run =
      (machineAt program heap limits entry function argument 4 [value]).run := by
  have hfetched : Fetched
      (machineAt program heap limits entry function argument 2 [.ref ⟨array, element⟩]) function
      (.refSlot 0) 4 :=
    h.fetched _ _ _ _ (by decide) rfl
  exact run_of_transition rfl
    (.within hfetched rfl (Nat.le_refl _) (Frame.refSlot_of_ok rfl hvalue rfl))

theorem fetched_convert (h : CountsTexts program entry function) :
    Fetched (machineAt program heap limits entry function argument 4 [value]) function
      (.checkedConvert (.integer .i32)) 6 :=
  h.fetched _ _ _ _ (by decide) rfl

theorem run_convert {converted : Value} (h : CountsTexts program entry function)
    (hvalue : value.convertChecked (.integer .i32) = .ok converted) :
    (machineAt program heap limits entry function argument 4 [value]).run =
      (machineAt program heap limits entry function argument 6 [converted]).run :=
  run_of_transition rfl
    (.within h.fetched_convert rfl (Nat.le_refl _) (Frame.convert_of_ok rfl hvalue rfl))

theorem run_convert_overflow {e : ConversionError} (h : CountsTexts program entry function)
    (hvalue : value.convertChecked (.integer .i32) = .error e) :
    (machineAt program heap limits entry function argument 4 [value]).run =
      .error ⟨e.trapKind, entry, 4⟩ :=
  run_of_blocked rfl
    (.within h.fetched_convert rfl (Nat.le_refl _) (Frame.convert_of_error rfl hvalue))

theorem run_ret (h : CountsTexts program entry function) :
    (machineAt program heap limits entry function argument 6 [value]).run = .ok [value] := by
  have hreturns : 1 = function.returns.toNat := by
    rw [h.returns_eq]
    rfl
  have hfetched : Fetched (machineAt program heap limits entry function argument 6 [value])
      function .ret 7 :=
    h.fetched _ _ _ _ (by decide) rfl
  exact run_of_returned rfl (.finish hfetched hreturns rfl)

/-- A number of objects is converted unless it is too great. -/
theorem convertChecked_count {n : Nat} (h : n < Heap.maxPlaces) :
    (Value.wrapInteger .usize n).convertChecked (.integer .i32) =
      if n < Nat.pow 2 31 then .ok (.wrapInteger .i32 n)
      else .error (.overflow (.wrapInteger .usize n) (.integer .i32)) := by
  have hkind : (Value.wrapInteger .usize n).kind ≠ .integer .i32 := by
    intro hsame
    cases hsame
  have hrange : IntegerKind.i32.min ≤ (n : Int) ∧ (n : Int) ≤ IntegerKind.i32.max ↔
      n < Nat.pow 2 31 := by
    have hmin : IntegerKind.i32.min ≤ 0 := by decide
    have hmax : IntegerKind.i32.max = (Nat.pow 2 31 : Int) - 1 := rfl
    omega
  rw [Value.convertChecked_of_toInt? (Activation.toInt?_count h) hkind]
  simp only [hrange]

/-- The function returns the number of the texts, or is trapped if it is too great. -/
theorem invoke_of_count {array : Address} {n : Nat} (h : CountsTexts program entry function)
    (hlimit : 1 ≤ limits.stack) (hn : n < Heap.maxPlaces)
    (hcount : heap.deref array 0 = .ok (.wrapInteger .usize n)) :
    invoke program heap limits (.ofArgs [.ref ⟨array, .ref⟩]) =
      .ok (if n < Nat.pow 2 31 then .ok [.wrapInteger .i32 n]
        else .error ⟨.conversionOverflow, entry, 4⟩) := by
  rw [h.invoke_eq, h.run_loadArg hlimit, h.run_refSlot hcount]
  have hconverted := convertChecked_count hn
  split at hconverted
  · rename_i hsmall
    rw [h.run_convert hconverted, h.run_ret, if_pos hsmall]
  · rename_i hgreat
    rw [h.run_convert_overflow hconverted, if_neg hgreat]
    rfl

end CountsTexts

end Machine

/-! ## Texts handed to a main function -/

namespace Activation

/-- For texts that do not find enough places in a heap that has been in use, there is no
activation. All others are presented to the main function by its only argument, and one that
returns their number, as a signed integer of thirty-two bits, returns it if it is less than
`2 ^ 31` and is trapped at the conversion otherwise. -/
theorem ofTexts_faithful {policy : ReclaimPolicy} {operations : List Heap.Operation} {heap : Heap}
    (hheap : heap = (Heap.Session.ofOperations policy operations).heap) (texts : List String) :
    (heap.vacancies ≤ texts.length ∧ ∃ after, ofTexts texts heap = .error .exhausted after) ∨
    (texts.length < heap.vacancies ∧ ∃ places array after,
      ofTexts texts heap = .ok ⟨[.ref ⟨array, .ref⟩], [], []⟩ after ∧
      Presents heap texts places array after ∧
      ∀ program entry function limits, Machine.CountsTexts program entry function →
        1 ≤ limits.stack →
        Machine.invoke program after limits ⟨[.ref ⟨array, .ref⟩], [], []⟩ =
          .ok (if texts.length < Nat.pow 2 31 then .ok [.wrapInteger .i32 texts.length]
            else .error ⟨.conversionOverflow, entry, 4⟩)) := by
  have hconsistent : heap.Consistent :=
    hheap ▸ (Heap.Session.tracked_ofOperations policy operations).consistent
  have hputs := puts_ofTexts texts
  rcases ofTexts_cases hconsistent texts with ⟨after, -, -, herror⟩ |
    ⟨places, array, after, hgrown, hprovided, hvacant, hok⟩
  · have hfew := hputs.exhausted heap after herror
    exact .inl ⟨Nat.le_of_lt_succ hfew, after, herror⟩
  · obtain ⟨hlive, hvacancies⟩ := hputs.done heap _ after hok
    have hpresents := presents_of_provided hprovided hgrown hvacant hlive
    refine .inr ⟨by omega, places, array, after, hok, hpresents, ?_⟩
    intro program entry function limits hcounts hlimit
    exact hcounts.invoke_of_count hlimit hprovided.room hpresents.count

/-- A heap in which a place is used again, with room for one value on the stack. -/
theorem ofTexts_faithful_recycled :
    ∃ activation after,
      ofTexts ["a", "bc"] (Heap.Session.ofOperations .recycle
        [.createBytes [1], .createBytes [2], .release ⟨0, 0⟩]).heap = .ok activation after ∧
      after.live = 4 ∧
      Machine.invoke ⟨#[⟨"main", 1, 0, 1, #[3, 0, 8, 0, 10, 6, 13]⟩], some 0⟩ after ⟨1, 1⟩
        activation = .ok (.ok [.wrapInteger .i32 2]) := by
  rcases @ofTexts_faithful .recycle [.createBytes [1], .createBytes [2], .release ⟨0, 0⟩] _ rfl
      ["a", "bc"] with
    ⟨hfew, -⟩ | ⟨-, places, array, after, hok, hpresents, hinvoke⟩
  · exact absurd hfew (by decide)
  · refine ⟨_, after, hok, hpresents.live_eq, ?_⟩
    exact hinvoke _ 0 _ ⟨1, 1⟩ ⟨rfl, rfl, rfl, rfl, rfl⟩ (Nat.le_refl 1)

/-- As many texts as there are places leave none for the array. -/
theorem ofTexts_refused_once_exhausted :
    ∃ after, ofTexts (List.replicate Heap.maxPlaces "")
      (Heap.Session.ofOperations .retain []).heap = .error .exhausted after := by
  apply ofTexts_exhausted rfl (Nat.zero_le _)
  rw [List.length_replicate]
  exact Nat.le_add_left ..

end Activation

end TypedStack
