import TypedStack.Instruction
import TypedStack.Bytes
import TypedStack.Text.Digits

/-!
# Reading instructions from code

Code may be any byte sequence. Decoding reads one instruction from the front of
a suffix of the code and tells how many bytes it took; errors carry the offset
in the code of the byte that is missing or wrong.
-/

namespace TypedStack

/-- Why no instruction could be read. -/
inductive DecodeError where
  | invalidOpcode (offset : Nat) (byte : UInt8)
  | invalidKind (offset : Nat) (byte : UInt8)
  | truncated (offset : Nat)
  | wideNotAllowed (offset : Nat) (op : Opcode)
  deriving DecidableEq, Repr

/-- The wording of a decoding error. -/
def DecodeError.message : DecodeError → String
  | invalidOpcode offset byte =>
    "invalid opcode 0x" ++ Text.hex 2 byte.toNat ++ " at " ++ Text.offset offset
  | invalidKind offset byte =>
    "invalid kind tag 0x" ++ Text.hex 2 byte.toNat ++ " at " ++ Text.offset offset
  | truncated offset => "truncated instruction at " ++ Text.offset offset
  | wideNotAllowed offset op =>
    "wide prefix before " ++ op.name ++ " at " ++ Text.offset offset

namespace Instruction

/-- Read the opcode at the front. -/
def readOpcode (offset : Nat) : Bytes → Except DecodeError Opcode
  | [] => .error (.truncated offset)
  | byte :: _ =>
    match Opcode.ofByte? byte with
    | some op => .ok op
    | none => .error (.invalidOpcode offset byte)

/-- Read the kind at the front. -/
def readKind (offset : Nat) : Bytes → Except DecodeError Kind
  | [] => .error (.truncated offset)
  | tag :: _ =>
    match Kind.ofTag? tag with
    | some kind => .ok kind
    | none => .error (.invalidKind offset tag)

/-- Read the byte at the front. -/
def readU8 (offset : Nat) : Bytes → Except DecodeError UInt8
  | [] => .error (.truncated offset)
  | byte :: _ => .ok byte

/-- Read the number in the two bytes at the front; if either is missing, the
offset of the first is reported. -/
def readU16 (offset : Nat) : Bytes → Except DecodeError UInt16
  | low :: high :: _ => .ok (UInt16.ofNat (Bytes.toNatLE [low, high]))
  | _ => .error (.truncated offset)

/-- Read a slot of one byte, or of two behind `wide`. -/
def readSlot (wide : Bool) (offset : Nat) (bytes : Bytes) : Except DecodeError UInt16 :=
  if wide then readU16 offset bytes
  else (readU8 offset bytes).map fun byte => UInt16.ofNat byte.toNat

/-- How many bytes a slot takes. -/
def slotSize (wide : Bool) : Nat :=
  if wide then 2 else 1

/-- Read the operands of an opcode, which start at `offset`, and tell how many
bytes they take. -/
def readOperands (op : Opcode) (wide : Bool) (offset : Nat) (bytes : Bytes) :
    Except DecodeError (Instruction × Nat) :=
  let slotted (make : UInt16 → Instruction) :=
    (readSlot wide offset bytes).map fun slot => (make slot, slotSize wide)
  match op with
  | .wide => .error (.wideNotAllowed (offset - 1) .wide)
  | .nop => .ok (nop, 0)
  | .pushU8 => (readU8 offset bytes).map fun value => (pushU8 value, 1)
  | .loadArg => slotted loadArg
  | .popArg => slotted popArg
  | .initLocal =>
    match readKind offset bytes with
    | .error e => .error e
    | .ok kind =>
      (readSlot wide (offset + 1) bytes.tail).map fun slot =>
        (initLocal kind slot, 1 + slotSize wide)
  | .popLocal => slotted popLocal
  | .pushLocal => slotted pushLocal
  | .refSlot => slotted refSlot
  | .pushArray => .ok (pushArray, 0)
  | .checkedConvert => (readKind offset bytes).map fun target => (checkedConvert target, 1)
  | .uncheckedConvert => (readKind offset bytes).map fun target => (uncheckedConvert target, 1)
  | .call => (readU16 offset bytes).map fun function => (call function, 2)
  | .ret => .ok (ret, 0)

/-- Read the instruction at the front of `bytes`, which start at `offset` of the
code, and tell how many bytes it takes. -/
def read (offset : Nat) (bytes : Bytes) : Except DecodeError (Instruction × Nat) :=
  match readOpcode offset bytes with
  | .error e => .error e
  | .ok .wide =>
    match readOpcode (offset + 1) bytes.tail with
    | .error e => .error e
    | .ok op =>
      if op.acceptsWide then
        (readOperands op true (offset + 2) (bytes.drop 2)).map fun (instruction, size) =>
          (instruction, size + 2)
      else .error (.wideNotAllowed offset op)
  | .ok op =>
    (readOperands op false (offset + 1) bytes.tail).map fun (instruction, size) =>
      (instruction, size + 1)

/-- The instruction at offset `pc` of the code, and the offset behind it. -/
def decodeAt (code : Bytes) (pc : Nat) : Except DecodeError (Instruction × Nat) :=
  (read pc (code.drop pc)).map fun (instruction, size) => (instruction, pc + size)

/-- An instruction is read with the operands of its opcode, behind `wide` if it
has a slot or without. -/
theorem read_eq_ok {offset : Nat} {bytes : Bytes} {instruction : Instruction} {size : Nat} :
    read offset bytes = .ok (instruction, size) ↔
      (∃ op operands, readOpcode offset bytes = .ok .wide ∧
        readOpcode (offset + 1) bytes.tail = .ok op ∧ op.acceptsWide = true ∧
        readOperands op true (offset + 2) (bytes.drop 2) = .ok (instruction, operands) ∧
        size = operands + 2) ∨
      ∃ op operands, readOpcode offset bytes = .ok op ∧ op ≠ .wide ∧
        readOperands op false (offset + 1) bytes.tail = .ok (instruction, operands) ∧
        size = operands + 1 := by
  constructor
  · intro h
    unfold read at h
    split at h
    · simp at h
    · rename_i hwide
      split at h
      · simp at h
      · rename_i op hop
        split at h
        · rename_i haccepts
          rcases hoperands : readOperands op true (offset + 2) (bytes.drop 2) with
            e | ⟨found, operands⟩
          · simp [hoperands, Except.map] at h
          · simp only [hoperands, Except.map, Except.ok.injEq, Prod.mk.injEq] at h
            obtain ⟨rfl, rfl⟩ := h
            exact .inl ⟨op, operands, hwide, hop, haccepts, hoperands, rfl⟩
        · simp at h
    · rename_i op hne hop
      rcases hoperands : readOperands op false (offset + 1) bytes.tail with
        e | ⟨found, operands⟩
      · simp [hoperands, Except.map] at h
      · simp only [hoperands, Except.map, Except.ok.injEq, Prod.mk.injEq] at h
        obtain ⟨rfl, rfl⟩ := h
        exact .inr ⟨op, operands, hop, hne, hoperands, rfl⟩
  · rintro (⟨op, operands, hwide, hop, haccepts, hoperands, rfl⟩ |
      ⟨op, operands, hop, hne, hoperands, rfl⟩)
    · simp [read, hwide, hop, haccepts, hoperands, Except.map]
    · cases op with
      | wide => exact absurd rfl hne
      | _ => simp [read, hop, hoperands, Except.map]

/-- An instruction takes at least one byte. -/
theorem read_size_pos {offset : Nat} {bytes : Bytes} {instruction : Instruction} {size : Nat}
    (h : read offset bytes = .ok (instruction, size)) : 0 < size := by
  rcases read_eq_ok.1 h with ⟨_, _, -, -, -, -, rfl⟩ | ⟨_, _, -, -, -, rfl⟩
  · exact Nat.succ_pos _
  · exact Nat.succ_pos _

section Sizes

variable {offset : Nat} {bytes : Bytes} {instruction : Instruction} {size : Nat}

theorem readKind_length {kind : Kind} (h : readKind offset bytes = .ok kind) :
    1 ≤ bytes.length := by
  cases bytes with
  | nil => simp [readKind] at h
  | cons => simp

theorem readSlot_length {wide : Bool} {slot : UInt16}
    (h : readSlot wide offset bytes = .ok slot) : slotSize wide ≤ bytes.length := by
  match wide, bytes with
  | _, [] => cases wide <;> simp [readSlot, readU8, readU16, Except.map] at h
  | false, _ :: _ => simp [slotSize]
  | true, [_] => simp [readSlot, readU16] at h
  | true, _ :: _ :: _ => simp [slotSize]

theorem map_size_eq {α : Type} {read : Except DecodeError α} {make : α → Instruction}
    {found : Nat} (h : (read.map fun a => (make a, size)) = .ok (instruction, found)) :
    ∃ a, read = .ok a ∧ found = size := by
  cases read with
  | error e => simp [Except.map] at h
  | ok a =>
    simp only [Except.map, Except.ok.injEq, Prod.mk.injEq] at h
    exact ⟨a, rfl, h.2.symm⟩

/-- Operands are read from bytes that are there. -/
theorem readOperands_size_le {op : Opcode} {wide : Bool}
    (h : readOperands op wide offset bytes = .ok (instruction, size)) :
    size ≤ bytes.length := by
  have hslotted {make : UInt16 → Instruction}
      (h : ((readSlot wide offset bytes).map fun slot => (make slot, slotSize wide)) =
        .ok (instruction, size)) : size ≤ bytes.length := by
    obtain ⟨slot, hslot, rfl⟩ := map_size_eq h
    exact readSlot_length hslot
  have hkind {make : Kind → Instruction}
      (h : ((readKind offset bytes).map fun kind => (make kind, 1)) = .ok (instruction, size)) :
      size ≤ bytes.length := by
    obtain ⟨kind, hkind, rfl⟩ := map_size_eq h
    exact readKind_length hkind
  cases op with
  | wide => simp [readOperands] at h
  | nop | pushArray | ret =>
    simp only [readOperands, Except.ok.injEq, Prod.mk.injEq] at h
    omega
  | pushU8 =>
    obtain ⟨byte, hbyte, rfl⟩ := map_size_eq h
    cases bytes with
    | nil => simp [readU8] at hbyte
    | cons => simp
  | loadArg | popArg | popLocal | pushLocal | refSlot => exact hslotted h
  | initLocal =>
    simp only [readOperands] at h
    split at h
    · simp at h
    · rename_i kind hfirst
      obtain ⟨slot, hslot, rfl⟩ := map_size_eq h
      have hkindLength := readKind_length hfirst
      have hslotLength := readSlot_length hslot
      rw [List.length_tail] at hslotLength
      omega
  | checkedConvert | uncheckedConvert => exact hkind h
  | call =>
    obtain ⟨index, hindex, rfl⟩ := map_size_eq h
    have hslot : readSlot true offset bytes = .ok index := hindex
    exact readSlot_length hslot

theorem readOpcode_length {op : Opcode} (h : readOpcode offset bytes = .ok op) :
    1 ≤ bytes.length := by
  cases bytes with
  | nil => simp [readOpcode] at h
  | cons => simp

/-- An instruction is read from bytes that are there. -/
theorem read_size_le (h : read offset bytes = .ok (instruction, size)) :
    size ≤ bytes.length := by
  rcases read_eq_ok.1 h with
    ⟨op, operands, -, hop, -, hoperands, rfl⟩ | ⟨op, operands, hop, -, hoperands, rfl⟩
  · have hopcode := readOpcode_length hop
    have hsize := readOperands_size_le hoperands
    rw [List.length_tail] at hopcode
    rw [List.length_drop] at hsize
    omega
  · have hopcode := readOpcode_length hop
    have hsize := readOperands_size_le hoperands
    rw [List.length_tail] at hsize
    omega

end Sizes

theorem decodeAt_eq_ok {code : Bytes} {pc next : Nat} {instruction : Instruction} :
    decodeAt code pc = .ok (instruction, next) ↔
      ∃ size, read pc (code.drop pc) = .ok (instruction, size) ∧ next = pc + size := by
  unfold decodeAt
  rcases read pc (code.drop pc) with e | ⟨found, size⟩
  · simp [Except.map]
  · simp only [Except.map, Except.ok.injEq, Prod.mk.injEq]
    constructor
    · rintro ⟨rfl, rfl⟩
      exact ⟨size, ⟨rfl, rfl⟩, rfl⟩
    · rintro ⟨_, ⟨rfl, rfl⟩, rfl⟩
      exact ⟨rfl, rfl⟩

theorem decodeAt_eq_error {code : Bytes} {pc : Nat} {e : DecodeError} :
    decodeAt code pc = .error e ↔ read pc (code.drop pc) = .error e := by
  unfold decodeAt
  cases read pc (code.drop pc) <;> simp [Except.map]

/-- Decoding moves forward. -/
theorem lt_of_decodeAt {code : Bytes} {pc next : Nat} {instruction : Instruction}
    (h : decodeAt code pc = .ok (instruction, next)) : pc < next := by
  obtain ⟨size, hread, rfl⟩ := decodeAt_eq_ok.1 h
  have := read_size_pos hread
  omega

/-- Decoding does not go beyond the code. -/
theorem le_length_of_decodeAt {code : Bytes} {pc next : Nat} {instruction : Instruction}
    (h : decodeAt code pc = .ok (instruction, next)) : next ≤ code.length := by
  obtain ⟨size, hread, rfl⟩ := decodeAt_eq_ok.1 h
  have hpos := read_size_pos hread
  have hsize := read_size_le hread
  rw [List.length_drop] at hsize
  omega

/-- Reading makes progress. -/
theorem length_sub_size_lt {offset : Nat} {bytes : Bytes} {instruction : Instruction} {size : Nat}
    (hnil : bytes ≠ []) (h : read offset bytes = .ok (instruction, size)) :
    bytes.length - size < bytes.length := by
  have hsize := read_size_pos h
  have hlength := List.length_pos_iff.2 hnil
  omega

/-- The largest number of bytes that an instruction takes. -/
def maxSize : Nat := 5

/-- Reading looks at no more bytes than an instruction can take. -/
theorem read_take_maxSize (offset : Nat) (bytes : Bytes) :
    read offset (bytes.take maxSize) = read offset bytes := by
  match bytes with
  | [] => rfl
  | [_] => rfl
  | [_, _] => rfl
  | [_, _, _] => rfl
  | [_, _, _, _] => rfl
  | _ :: _ :: _ :: _ :: _ :: _ =>
    simp [maxSize, read, readOpcode, readOperands, readSlot, readU8, readU16, readKind]

/-- The instruction at offset `pc` of code in an array, and the offset behind
it. -/
def fetch (code : Array UInt8) (pc : Nat) : Except DecodeError (Instruction × Nat) :=
  (read pc (code.extract pc (pc + maxSize)).toList).map fun (instruction, size) =>
    (instruction, pc + size)

/-- Fetching from an array is decoding its bytes. -/
theorem fetch_eq_decodeAt (code : Array UInt8) (pc : Nat) :
    fetch code pc = decodeAt code.toList pc := by
  have hwindow : (code.extract pc (pc + maxSize)).toList = (code.toList.drop pc).take maxSize := by
    simp
  rw [fetch, hwindow, read_take_maxSize, decodeAt]

end Instruction

end TypedStack
