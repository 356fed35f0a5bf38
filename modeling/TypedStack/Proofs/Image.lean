import TypedStack.Proofs.Container.Format
import TypedStack.Proofs.Fixture.Building

/-!
# How containers start

A container that was read goes through two more stages before its first instruction: it is
prepared, and a machine is set up for it. Each of them checks for itself what it needs, an entry
that exists, arguments in the right number, room for what is on the stack. Reading has settled
most of this before. What is left to go wrong is told by the flags of the container and the
number of arguments of its entry.
-/

namespace TypedStack

/-! ## What reading settles -/

namespace Container

/-- The flags are in the byte behind the signature. -/
theorem Layout.getElem?_signature (layout : Layout) :
    layout.bytes[signature.length]? = some layout.flags.bits := by
  rw [Layout.bytes, List.getElem?_append_right (Nat.le_refl _), Nat.sub_self]
  rfl

theorem Flags.bits_and_one (flags : Flags) :
    flags.bits &&& 1 = if flags.library then 1 else 0 := by
  obtain ⟨library, sourceMap⟩ := flags
  cases library <;> cases sourceMap <;> rfl

/-- The entry of a program that a layout holds is one of its functions. -/
theorem Layout.Holds.exists_function {layout : Layout} {program : Program} {stored : UInt32}
    (h : layout.Holds program) (hstored : layout.entry = some stored) :
    ∃ entry function, program.entry = some entry ∧ program.function? entry = some function := by
  have hentry := h.entry
  rw [hstored, Option.map_some] at hentry
  obtain ⟨entry, hfound, hplace⟩ := Option.map_eq_some_iff.1 hentry.symm
  have hlt : entry.toNat < program.functions.size := by
    rw [hplace, ← Array.length_toList, ← h.functions.length_eq]
    exact h.entry_lt stored hstored
  exact ⟨entry, program.functions[entry.toNat], hfound, Array.getElem?_eq_getElem hlt⟩

/-- The lowest bit of the byte behind the signature tells whether there is an entry. -/
theorem entry_of_readFrom {bytes : Bytes} {program : Program} {info : Info}
    (h : Program.readFrom (.ofBytes bytes) = .ok (program, info)) :
    ∃ flags : UInt8, bytes[signature.length]? = some flags ∧
      ((flags &&& 1 = 1 ∧ program.entry = none) ∨
        (flags &&& 1 = 0 ∧ ∃ entry function, program.entry = some entry ∧
          program.function? entry = some function)) := by
  obtain ⟨layout, hbytes, -, hholds, -⟩ := readFrom_eq_ok.1 h
  obtain rfl : bytes = layout.bytes := hbytes
  refine ⟨_, layout.getElem?_signature, ?_⟩
  rw [Flags.bits_and_one, Layout.flags]
  cases hstored : layout.entry with
  | none =>
    have hentry := hholds.entry
    rw [hstored, Option.map_none] at hentry
    exact .inl ⟨rfl, Option.map_eq_none_iff.1 hentry.symm⟩
  | some stored => exact .inr ⟨rfl, hholds.exists_function hstored⟩

end Container

/-! ## What is left to the machine -/

/-- Without values on the stack and declared locals, only the number of arguments can keep a
machine from being started. -/
theorem Machine.invoke_eq_error
    {program : Program} {heap : Heap} {limits : Limits} {activation : Activation}
    {entry : UInt16} {function : Function} {e : SetupError} (hentry : program.entry = some entry)
    (hfunction : program.function? entry = some function) (hstack : activation.stack = [])
    (hlocals : activation.locals = []) :
    invoke program heap limits activation = .error e ↔
      activation.args.length ≠ function.arity.toNat ∧
        e = .argumentCount function.arity activation.args.length := by
  by_cases hargs : activation.args.length = function.arity.toNat
  · simp [invoke, start, hentry, hfunction, hargs, hstack, hlocals, Except.map]
  · simp [invoke, start, hentry, hfunction, hargs, Except.map, eq_comm]

namespace Image

variable {bytes : Bytes} {program : Program} {info : Container.Info} {entry : UInt16}
  {function : Function} {policy : ReclaimPolicy} {args : List String}

theorem readFrom_of_ofBytes (h : ofBytes bytes = .ok (.container program info)) :
    Program.readFrom (.ofBytes bytes) = .ok (program, info) := by
  unfold ofBytes at h
  split at h
  · split at h
    · rename_i hread
      cases h
      exact hread
    · cases h
  · split at h
    · cases h
    · cases h

theorem prepare_library (hentry : program.entry = none) :
    (container program info).prepare policy args = .error .library := by
  simp [prepare, hentry]

/-- A container with an entry is prepared with an argument if the entry takes one, and with
none otherwise, unless there is no room for what the argument refers to. -/
theorem prepare_container_cases (hentry : program.entry = some entry)
    (hfunction : program.function? entry = some function) :
    (function.arity = 1 ∧ Heap.maxPlaces ≤ args.length ∧
      (container program info).prepare policy args = .error (.heap .exhausted)) ∨
    ((function.arity = 1 → args.length < Heap.maxPlaces) ∧ ∃ prepared,
      (container program info).prepare policy args = .ok prepared ∧ prepared.program = program ∧
      prepared.activation.stack = [] ∧ prepared.activation.locals = [] ∧
      prepared.activation.args.length = if function.arity = 1 then 1 else 0) := by
  have hbind : program.entry.bind program.function? = some function := by
    rw [hentry, Option.bind_some, hfunction]
  by_cases harity : function.arity = 1
  · rw [if_pos harity]
    rcases Nat.lt_or_ge args.length Heap.maxPlaces with hroom | hfull
    · exact .inr ⟨fun _ => hroom, _, prepare_container info hbind harity hroom, rfl, rfl, rfl, rfl⟩
    · obtain ⟨after, htexts⟩ := @Activation.ofTexts_exhausted (.empty policy) args rfl
        (Nat.zero_le _) (by simpa [Heap.empty] using hfull)
      refine .inl ⟨harity, hfull, ?_⟩
      simp only [prepare, hbind, containerActivation, harity, if_true, htexts]
  · rw [if_neg harity]
    refine .inr ⟨fun h => absurd h harity,
      ⟨program, .empty policy, .empty, [], none⟩, ?_, rfl, rfl, rfl, rfl⟩
    simp only [prepare, hbind, containerActivation, harity, if_false]
    rfl

/-- How a container that was read starts. If the lowest bit of its flags says that it is a
library, it cannot be prepared. Otherwise it is prepared, except for a main function with more
texts than a heap has places, and a machine is set up for it unless its entry takes two
arguments or more, of which it is given none. Once it was run it has no argument left, so
that it cannot be run again if its entry takes any. -/
theorem container_starts_predictably (h : ofBytes bytes = .ok (.container program info))
    (policy : ReclaimPolicy) (args : List String) :
    ∃ flags : UInt8, bytes[Container.signature.length]? = some flags ∧
      ((flags &&& 1 = 1 ∧ (container program info).prepare policy args = .error .library) ∨
      (flags &&& 1 = 0 ∧ ∃ entry function, program.entry = some entry ∧
        program.function? entry = some function ∧
        ((function.arity = 1 ∧ Heap.maxPlaces ≤ args.length ∧
          (container program info).prepare policy args = .error (.heap .exhausted)) ∨
        ((function.arity = 1 → args.length < Heap.maxPlaces) ∧ ∃ prepared,
          (container program info).prepare policy args = .ok prepared ∧
          ∀ limits e,
            ((prepared.run limits).1 = .error e ↔
              2 ≤ function.arity ∧ e = .argumentCount function.arity 0) ∧
            ∀ limits', (((prepared.run limits).2.run limits').1 = .error e ↔
              1 ≤ function.arity ∧ e = .argumentCount function.arity 0))))) := by
  obtain ⟨flags, hflags, ⟨hset, hentry⟩ | ⟨hclear, entry, function, hentry, hfunction⟩⟩ :=
    Container.entry_of_readFrom (readFrom_of_ofBytes h)
  · exact ⟨flags, hflags, .inl ⟨hset, prepare_library hentry⟩⟩
  refine ⟨flags, hflags, .inr ⟨hclear, entry, function, hentry, hfunction, ?_⟩⟩
  refine (prepare_container_cases hentry hfunction).imp_right ?_
  rintro ⟨hroom, prepared, hprepare, rfl, hstack, hlocals, hargs⟩
  refine ⟨hroom, prepared, hprepare, fun limits e => ⟨?_, fun limits' => ?_⟩⟩
  · rw [Prepared.run, Machine.invoke_eq_error hentry hfunction hstack hlocals, hargs]
    by_cases harity : function.arity = 1
    · simp [harity]
    · rw [if_neg harity, UInt16.le_iff_toNat_le]
      rw [← UInt16.toNat_inj] at harity
      simp only [UInt16.toNat_ofNat] at harity ⊢
      exact and_congr_left fun _ => by omega
  · have hrun : ((prepared.run limits).2.run limits').1 =
        Machine.invoke prepared.program prepared.heap limits' .empty :=
      rfl
    rw [hrun, Machine.invoke_eq_error hentry hfunction rfl rfl, UInt16.le_iff_toNat_le]
    exact and_congr_left fun _ => ne_comm.trans Nat.pos_iff_ne_zero.symm

/-- A container whose only function takes so many arguments. -/
def taking (arity : UInt8) : Bytes :=
  Container.signature ++
    [0, 0, 0, 0, 0, 0, 0, 5, 0, 0, 0, 1, 0, 0, 0, 102, 1, 0,
      18, 0, 0, 0, 0, 0, arity, 0, 0, 0, 0, 0, 0, 0, 0, 0, 1, 0, 0, 0, 1, 0, 0, 0, 13]

theorem ofBytes_taking {arity : UInt8} (h : arity ∈ [1, 2]) :
    ofBytes (taking arity) = .ok (.container ⟨#[⟨"f", arity.toUInt16, 0, 0, #[13]⟩], some 0⟩
      ⟨⟨false, false⟩, some 0, 0, 1, 1, 1, 1, 0⟩) := by
  have hsignature : Container.signature.isPrefixOf (taking arity) = true := by
    rw [List.isPrefixOf_iff_prefix]
    exact List.prefix_append _ _
  have hread : ∀ arity ∈ [1, 2], Program.readFrom (.ofBytes (taking arity)) =
      .ok (⟨#[⟨"f", arity.toUInt16, 0, 0, #[13]⟩], some 0⟩,
        ⟨⟨false, false⟩, some 0, 0, 1, 1, 1, 1, 0⟩) := by
    decide +kernel
  rw [ofBytes, if_pos hsignature, hread arity h]

/-- One that takes two cannot be started with a text, here under limits that leave no room at
all. -/
theorem container_starts_predictably_miscount :
    ∃ program info prepared, ofBytes (taking 2) = .ok (.container program info) ∧
      (container program info).prepare .retain ["x"] = .ok prepared ∧
      (prepared.run ⟨0, 0⟩).1 = .error (.argumentCount 2 0) := by
  have hbytes := @ofBytes_taking 2 (by decide)
  obtain ⟨flags, hflags, ⟨hset, -⟩ | ⟨-, entry, function, hentry, hfunction, hstarts⟩⟩ :=
    container_starts_predictably hbytes .retain ["x"]
  · cases hflags
    cases hset
  · cases hentry
    cases hfunction
    rcases hstarts with ⟨harity, -⟩ | ⟨-, prepared, hprepare, hrun⟩
    · cases harity
    · exact ⟨_, _, prepared, hbytes, hprepare, (hrun ⟨0, 0⟩ _).1.2 ⟨by decide, rfl⟩⟩

/-- One that takes the texts is no library, and yet cannot be prepared with as many of them as a
heap has places. -/
theorem container_refused_once_exhausted :
    ∃ program info, ofBytes (taking 1) = .ok (.container program info) ∧
      (taking 1)[Container.signature.length]? = some 0 ∧
      (container program info).prepare .retain (List.replicate Heap.maxPlaces "") =
        .error (.heap .exhausted) := by
  refine ⟨_, _, ofBytes_taking (by decide), rfl, ?_⟩
  have hlength : (List.replicate Heap.maxPlaces "").length = Heap.maxPlaces :=
    List.length_replicate
  generalize List.replicate Heap.maxPlaces "" = args at hlength ⊢
  rcases @prepare_container_cases ⟨#[⟨"f", 1, 0, 0, #[13]⟩], some 0⟩ _ 0 _ .retain args rfl rfl with
    ⟨-, -, hrefused⟩ | ⟨hroom, -⟩
  · exact hrefused
  · exact absurd (hroom rfl) (Nat.not_lt_of_le (Nat.le_of_eq hlength.symm))

end Image

end TypedStack
