import TypedStack.Proofs.Instruction.Forms

/-!
# Truncated code

An instruction is read in stages: the opcode, the opcode behind `wide`, a kind, a slot. Each
stage finds that bytes are missing, or that something is wrong with those there are, or what
it looks for, and only then does the next one begin. So whatever was found remains, however
the code goes on. And bytes are found missing just where those there are begin a form of an
instruction: nothing is wrong with them, and the rest of the form makes them whole.
-/

namespace TypedStack

namespace Instruction

variable {α β : Type}

/-- Bytes were missing. -/
def IsTruncated (result : Except DecodeError α) : Prop :=
  ∃ offset, result = .error (.truncated offset)

@[simp] theorem not_isTruncated_ok (a : α) : ¬IsTruncated (.ok a) := by
  rintro ⟨offset, h⟩
  cases h

theorem isTruncated_truncated (offset : Nat) :
    IsTruncated (.error (.truncated offset) : Except DecodeError α) :=
  ⟨offset, rfl⟩

@[simp] theorem isTruncated_map {result : Except DecodeError α} {f : α → β} :
    IsTruncated (result.map f) ↔ IsTruncated result := by
  simp only [IsTruncated, map_eq_error]

/-! ## Readers that can be given more -/

/-- A reader stays with what it has found, whatever follows the bytes it was given, unless
some were missing; then there are bytes with which it finds what it looks for. -/
structure Resumable (reader : Bytes → Except DecodeError α) : Prop where
  settled : ∀ bytes more, ¬IsTruncated (reader bytes) → reader (bytes ++ more) = reader bytes
  completed : ∀ bytes, IsTruncated (reader bytes) → ∃ more a, reader (bytes ++ more) = .ok a

/-- A reader that looks at one byte, and finds what it looks for in one of them at least. -/
structure LooksAtByte (reader : Bytes → Except DecodeError α) : Prop where
  nil : IsTruncated (reader [])
  cons : ∀ byte rest, reader (byte :: rest) = reader [byte]
  found : ∀ byte, ¬IsTruncated (reader [byte])
  sample : ∃ byte a, reader [byte] = .ok a

section Rules

variable {reader first : Bytes → Except DecodeError α} {bytes : Bytes}

theorem resumable_const {result : Except DecodeError α} (h : ¬IsTruncated result) :
    Resumable fun _ => result where
  settled _ _ _ := rfl
  completed _ htruncated := absurd htruncated h

theorem Resumable.map (h : Resumable reader) (f : α → β) :
    Resumable fun bytes => (reader bytes).map f where
  settled bytes more hfound := by
    rw [isTruncated_map] at hfound
    exact congrArg (Except.map f) (h.settled bytes more hfound)
  completed bytes htruncated := by
    obtain ⟨more, a, ha⟩ := h.completed bytes (isTruncated_map.1 htruncated)
    exact ⟨more, f a, congrArg (Except.map f) ha⟩

theorem LooksAtByte.eq_nil (h : LooksAtByte reader) (htruncated : IsTruncated (reader bytes)) :
    bytes = [] := by
  cases bytes with
  | nil => rfl
  | cons byte rest =>
    rw [h.cons] at htruncated
    exact absurd htruncated (h.found byte)

theorem LooksAtByte.resumable (h : LooksAtByte reader) : Resumable reader where
  settled bytes more hfound := by
    cases bytes with
    | nil => exact absurd h.nil hfound
    | cons byte rest => rw [List.cons_append, h.cons, h.cons byte rest]
  completed bytes htruncated := by
    obtain ⟨byte, a, ha⟩ := h.sample
    rw [h.eq_nil htruncated]
    exact ⟨[byte], a, ha⟩

/-- A stage behind one that looks at a byte, if there are bytes with which both find what they
look for. -/
theorem LooksAtByte.bind {next : α → Bytes → Except DecodeError β} (hfirst : LooksAtByte first)
    (hnext : ∀ a, Resumable (next a)) {start : Bytes} {b : β}
    (hstart : (first start >>= fun a => next a start.tail) = .ok b) :
    Resumable fun bytes => first bytes >>= fun a => next a bytes.tail where
  settled bytes more hfound := by
    cases bytes with
    | nil =>
      obtain ⟨offset, hnil⟩ := hfirst.nil
      exact absurd ⟨offset, bind_eq_error.2 (.inl hnil)⟩ hfound
    | cons byte rest =>
      have hsettled : first (byte :: rest ++ more) = first (byte :: rest) := by
        rw [List.cons_append, hfirst.cons, hfirst.cons byte rest]
      cases hresult : first (byte :: rest) with
      | error e =>
        simp only [hsettled, hresult]
        rfl
      | ok a =>
        simp only [hresult] at hfound
        simp only [hsettled, hresult]
        exact (hnext a).settled rest more hfound
  completed bytes htruncated := by
    obtain ⟨offset, herror⟩ := htruncated
    rcases bind_eq_error.1 herror with hbyte | ⟨a, ha, hrest⟩
    · rw [hfirst.eq_nil ⟨offset, hbyte⟩]
      exact ⟨start, b, hstart⟩
    · cases bytes with
      | nil =>
        obtain ⟨place, hnil⟩ := hfirst.nil
        cases hnil.symm.trans ha
      | cons byte rest =>
        obtain ⟨more, b, hb⟩ := (hnext a).completed rest ⟨offset, hrest⟩
        rw [hfirst.cons] at ha
        exact ⟨more, b, bind_eq_ok.2 ⟨a, (hfirst.cons byte _).trans ha, hb⟩⟩

end Rules

/-! ## The stages of reading -/

section Stages

variable (offset : Nat)

theorem looksAtByte_readOpcode : LooksAtByte (readOpcode offset) where
  nil := isTruncated_truncated offset
  cons _ _ := rfl
  found byte := by
    rintro ⟨place, h⟩
    simp only [readOpcode] at h
    split at h <;> cases h
  sample := ⟨Opcode.nop.byte, .nop, rfl⟩

theorem looksAtByte_readKind : LooksAtByte (readKind offset) where
  nil := isTruncated_truncated offset
  cons _ _ := rfl
  found tag := by
    rintro ⟨place, h⟩
    simp only [readKind] at h
    split at h <;> cases h
  sample := ⟨Kind.bool.tag, .bool, rfl⟩

theorem looksAtByte_readU8 : LooksAtByte (readU8 offset) where
  nil := isTruncated_truncated offset
  cons _ _ := rfl
  found byte := not_isTruncated_ok byte
  sample := ⟨0, 0, rfl⟩

theorem resumable_readU16 : Resumable (readU16 offset) where
  settled bytes more hfound := by
    rcases bytes with _ | ⟨low, _ | ⟨high, rest⟩⟩
    · exact absurd (isTruncated_truncated offset) hfound
    · exact absurd (isTruncated_truncated offset) hfound
    · rfl
  completed bytes htruncated := by
    rcases bytes with _ | ⟨low, _ | ⟨high, rest⟩⟩
    · exact ⟨[0, 0], _, rfl⟩
    · exact ⟨[0], _, rfl⟩
    · exact absurd htruncated (not_isTruncated_ok _)

theorem resumable_readSlot (wide : Bool) : Resumable (readSlot wide offset) := by
  cases wide with
  | true => exact resumable_readU16 offset
  | false => exact (looksAtByte_readU8 offset).resumable.map _

theorem readOperands_initLocal_eq_bind (wide : Bool) (bytes : Bytes) :
    readOperands .initLocal wide offset bytes =
      readKind offset bytes >>= fun kind =>
        (readSlot wide (offset + 1) bytes.tail).map fun slot =>
          (initLocal kind slot, 1 + slotSize wide) := by
  cases hkind : readKind offset bytes <;> simp only [readOperands, hkind] <;> rfl

theorem resumable_readOperands_initLocal (wide : Bool) :
    Resumable (readOperands .initLocal wide offset) := by
  have hstart : readOperands .initLocal wide offset [Kind.bool.tag, 0, 0] =
      .ok (initLocal .bool 0, 1 + slotSize wide) := by
    cases wide <;> rfl
  have hstages := (looksAtByte_readKind offset).bind
    (fun kind => (resumable_readSlot (offset + 1) wide).map fun slot =>
      (initLocal kind slot, 1 + slotSize wide))
    ((readOperands_initLocal_eq_bind offset wide _).symm.trans hstart)
  simpa only [← readOperands_initLocal_eq_bind] using hstages

theorem resumable_readOperands (op : Opcode) (wide : Bool) :
    Resumable (readOperands op wide offset) := by
  cases op with
  | wide =>
    apply resumable_const
    rintro ⟨place, h⟩
    cases h
  | nop | pushArray | ret => exact resumable_const (not_isTruncated_ok _)
  | pushU8 => exact (looksAtByte_readU8 offset).resumable.map _
  | loadArg | popArg | popLocal | pushLocal | refSlot =>
    exact (resumable_readSlot offset wide).map _
  | initLocal => exact resumable_readOperands_initLocal offset wide
  | checkedConvert | uncheckedConvert => exact (looksAtByte_readKind offset).resumable.map _
  | call => exact (resumable_readU16 offset).map _

/-- Read an instruction whose opcode has been read behind `wide`. -/
def readWide (op : Opcode) (bytes : Bytes) : Except DecodeError (Instruction × Nat) :=
  if op.acceptsWide then
    (readOperands op true (offset + 2) bytes).map fun found => (found.1, found.2 + 2)
  else .error (.wideNotAllowed offset op)

/-- Read an instruction whose first opcode has been read. -/
def readBehind (op : Opcode) (bytes : Bytes) : Except DecodeError (Instruction × Nat) :=
  if op = .wide then readOpcode (offset + 1) bytes >>= fun op => readWide offset op bytes.tail
  else (readOperands op false (offset + 1) bytes).map fun found => (found.1, found.2 + 1)

theorem read_eq_bind (bytes : Bytes) :
    read offset bytes = readOpcode offset bytes >>= fun op => readBehind offset op bytes.tail := by
  unfold read
  cases readOpcode offset bytes with
  | error e => rfl
  | ok op =>
    cases op with
    | wide =>
      have htail : bytes.tail.tail = bytes.drop 2 := by
        rw [← List.drop_one, ← List.drop_one, List.drop_drop]
      rw [bind_eq_of_eq_ok rfl, readBehind, if_pos rfl, htail]
      cases readOpcode (offset + 1) bytes.tail <;> rfl
    | _ => rfl

theorem resumable_readWide (op : Opcode) : Resumable (readWide offset op) := by
  unfold readWide
  by_cases haccepts : op.acceptsWide = true
  · simp only [if_pos haccepts]
    exact (resumable_readOperands (offset + 2) op true).map _
  · simp only [if_neg haccepts]
    apply resumable_const
    rintro ⟨place, h⟩
    cases h

theorem resumable_readBehind (op : Opcode) : Resumable (readBehind offset op) := by
  unfold readBehind
  by_cases hwide : op = .wide
  · simp only [if_pos hwide]
    have hstart : (readOpcode (offset + 1) [Opcode.loadArg.byte, 0, 0] >>= fun op =>
        readWide offset op [0, 0]) = .ok (loadArg 0, 4) := rfl
    exact (looksAtByte_readOpcode (offset + 1)).bind (resumable_readWide offset) hstart
  · simp only [if_neg hwide]
    exact (resumable_readOperands (offset + 1) op false).map _

theorem resumable_read : Resumable (read offset) := by
  have hstart : read offset [Opcode.nop.byte] = .ok (nop, 1) := rfl
  have hstages := (looksAtByte_readOpcode offset).bind (resumable_readBehind offset)
    ((read_eq_bind offset _).symm.trans hstart)
  simpa only [← read_eq_bind] using hstages

end Stages

/-! ## Where bytes are missing -/

theorem HasForm.read_eq {wide : Bool} {instruction : Instruction} (h : instruction.HasForm wide)
    (offset : Nat) :
    read offset (instruction.form wide) = .ok (instruction, (instruction.form wide).length) :=
  read_eq_ok_iff_form.2 ⟨wide, h, rfl, List.prefix_refl _⟩

/-- Bytes are missing just where those there are were cut off from a form of an instruction. -/
theorem isTruncated_read_iff {offset : Nat} {bytes : Bytes} :
    IsTruncated (read offset bytes) ↔
      ∃ wide, ∃ instruction : Instruction, instruction.HasForm wide ∧
        bytes <+: instruction.form wide ∧ bytes ≠ instruction.form wide := by
  constructor
  · intro htruncated
    obtain ⟨more, ⟨instruction, size⟩, hread⟩ := (resumable_read offset).completed bytes htruncated
    obtain ⟨wide, hform, -, hprefix⟩ := read_eq_ok_iff_form.1 hread
    -- the form is not among the bytes, which would be read with it
    have hcut : ¬instruction.form wide <+: bytes := by
      intro hbytes
      have hfound := (@read_eq_ok_iff_form offset bytes instruction _).2 ⟨wide, hform, rfl, hbytes⟩
      rw [hfound] at htruncated
      exact not_isTruncated_ok _ htruncated
    refine ⟨wide, instruction, hform, ?_, ?_⟩
    · exact (List.prefix_or_prefix_of_prefix hprefix (List.prefix_append bytes more)).resolve_left
        hcut
    · rintro rfl
      exact hcut (List.prefix_refl _)
  · rintro ⟨wide, instruction, hform, ⟨more, hmore⟩, hne⟩
    by_contra hfound
    have hread := hform.read_eq offset
    rw [← hmore, (resumable_read offset).settled bytes more hfound, hmore] at hread
    have hlength := read_size_le hread
    exact hne ((List.prefix_iff_eq_take.1 ⟨more, hmore⟩).trans (List.take_of_length_le hlength))

/-- Decoding says that bytes are missing just where more bytes can help. Whatever else it
says, an instruction and the offset behind it or an error, it says of every code that goes on
from there. Where it says that bytes are missing, there are some with which the code ends in
an instruction. -/
theorem truncation_reported_exactly (code : Bytes) (pc : Nat) (hpc : pc ≤ code.length) :
    (¬IsTruncated (decodeAt code pc) →
      ∀ more, decodeAt (code ++ more) pc = decodeAt code pc) ∧
    (IsTruncated (decodeAt code pc) →
      ∃ more instruction,
        decodeAt (code ++ more) pc = .ok (instruction, (code ++ more).length)) := by
  have hdrop (more : Bytes) : (code ++ more).drop pc = code.drop pc ++ more :=
    List.drop_append_of_le_length hpc
  constructor
  · intro hfound more
    unfold decodeAt at hfound ⊢
    rw [isTruncated_map] at hfound
    rw [hdrop, (resumable_read pc).settled _ more hfound]
  · intro htruncated
    unfold decodeAt at htruncated
    rw [isTruncated_map, isTruncated_read_iff] at htruncated
    obtain ⟨wide, instruction, hform, ⟨more, hmore⟩, -⟩ := htruncated
    refine ⟨more, instruction, decodeAt_eq_ok.2 ⟨(instruction.form wide).length, ?_, ?_⟩⟩
    · rw [hdrop, hmore]
      exact hform.read_eq pc
    · rw [← hmore, ← hdrop, List.length_drop, List.length_append]
      omega

/-- Behind `wide`, what cannot follow is told apart from what is missing: `ret` is refused
whatever comes next, and a declaration cut off within its slot can be made whole. -/
theorem truncation_reported_exactly_behind_wide :
    (∀ more, decodeAt ([1, 0, 13] ++ more) 1 = .error (.wideNotAllowed 1 .ret)) ∧
      decodeAt [1, 0, 5, 13, 7] 1 = .error (.truncated 4) ∧
      ∃ more instruction, decodeAt ([1, 0, 5, 13, 7] ++ more) 1 =
        .ok (instruction, ([1, 0, 5, 13, 7] ++ more).length) := by
  have hrefused : decodeAt [1, 0, 13] 1 = .error (.wideNotAllowed 1 .ret) := rfl
  have hcut : decodeAt [1, 0, 5, 13, 7] 1 = .error (.truncated 4) := rfl
  refine ⟨fun more => ?_, hcut, ?_⟩
  · rw [← hrefused]
    apply (truncation_reported_exactly [1, 0, 13] 1 (by decide)).1
    rintro ⟨offset, h⟩
    cases hrefused.symm.trans h
  · exact (truncation_reported_exactly [1, 0, 5, 13, 7] 1 (by decide)).2 ⟨4, hcut⟩

end Instruction

end TypedStack
