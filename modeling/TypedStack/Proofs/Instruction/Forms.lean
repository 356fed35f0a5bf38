import TypedStack.Instruction.Decoding
import TypedStack.Instruction.Encoding
import TypedStack.Proofs.Except

/-!
# Forms of instructions

Code has at most two forms for an instruction: behind `wide`, with two bytes for
the slot operand, and without, with one byte. Reading accepts the forms that an
instruction has and nothing else, whatever follows them, which is what
`read_eq_ok_iff_form` says. Encoding takes the shorter of the two, so that the longer
one is redundant where both exist.
-/

namespace TypedStack

namespace Instruction

/-- The slot operand, if there is one. -/
def slot? : Instruction → Option UInt16
  | loadArg slot | popArg slot | initLocal _ slot | popLocal slot | pushLocal slot
  | refSlot slot => some slot
  | nop | pushU8 _ | pushArray | checkedConvert _ | uncheckedConvert _ | call _ | ret => none

/-- The bytes of the operands, behind `wide` or not. -/
def operands (wide : Bool) : Instruction → Bytes
  | nop | pushArray | ret => []
  | pushU8 value => [value]
  | loadArg slot | popArg slot | popLocal slot | pushLocal slot | refSlot slot =>
    Bytes.ofNatLE (slotSize wide) slot.toNat
  | initLocal kind slot => kind.tag :: Bytes.ofNatLE (slotSize wide) slot.toNat
  | checkedConvert target | uncheckedConvert target => [target.tag]
  | call function => Bytes.ofNatLE 2 function.toNat

/-- The bytes of an instruction, behind `wide` or not. -/
def form (wide : Bool) (instruction : Instruction) : Bytes :=
  (if wide then [Opcode.wide.byte] else []) ++
    instruction.opcode.byte :: instruction.operands wide

/-- Whether the bytes behind `wide`, or without it, have room for the slot. -/
def SlotFits (wide : Bool) (instruction : Instruction) : Prop :=
  ∀ slot, instruction.slot? = some slot → slot.toNat < Nat.pow 256 (slotSize wide)

/-- Whether an instruction has a form. There is one behind `wide` for a slot, and
one without if no slot is too large for it. -/
def HasForm (wide : Bool) (instruction : Instruction) : Prop :=
  instruction.SlotFits wide ∧ (wide = true → instruction.slot?.isSome)

/-! ## Operands -/

section Operands

variable {offset : Nat} {bytes : Bytes}

theorem readU8_eq_ok {value : UInt8} :
    readU8 offset bytes = .ok value ↔ [value] <+: bytes := by
  cases bytes with
  | nil => simp [readU8]
  | cons byte rest => simp [readU8, eq_comm]

theorem readKind_eq_ok {kind : Kind} :
    readKind offset bytes = .ok kind ↔ [kind.tag] <+: bytes := by
  cases bytes with
  | nil => simp [readKind]
  | cons tag rest =>
    have htag : readKind offset (tag :: rest) = .ok kind ↔ Kind.ofTag? tag = some kind := by
      cases h : Kind.ofTag? tag <;> simp [readKind, h]
    rw [htag, Kind.ofTag?_eq_some, List.cons_prefix_cons]
    simp [eq_comm]

theorem readOpcode_eq_ok {op : Opcode} :
    readOpcode offset bytes = .ok op ↔ [op.byte] <+: bytes := by
  cases bytes with
  | nil => simp [readOpcode]
  | cons byte rest =>
    have hbyte : readOpcode offset (byte :: rest) = .ok op ↔ Opcode.ofByte? byte = some op := by
      cases h : Opcode.ofByte? byte <;> simp [readOpcode, h]
    rw [hbyte, Opcode.ofByte?_eq_some, List.cons_prefix_cons]
    simp [eq_comm]

theorem readU16_eq_ok {value : UInt16} :
    readU16 offset bytes = .ok value ↔ Bytes.ofNatLE 2 value.toNat <+: bytes := by
  match bytes with
  | [] => simp [readU16, Bytes.ofNatLE]
  | [_] => simp [readU16, Bytes.ofNatLE]
  | low :: high :: rest =>
    have hlt : Bytes.toNatLE [low, high] < UInt16.size := by
      have hlow := low.toNat_lt
      have hhigh := high.toNat_lt
      simp only [Bytes.toNatLE, UInt16.size]
      omega
    have hvalue : value.toNat < Nat.pow 256 2 := value.toNat_lt
    have hform :=
      @Bytes.toNatLE_take_eq_iff (low :: high :: rest) 2 value.toNat (by simp)
    rw [readU16, Except.ok.injEq, ← UInt16.toNat_inj, UInt16.toNat_ofNat_of_lt' hlt,
      ← and_iff_right (b := _ <+: _) hvalue, ← hform]
    rfl

theorem readSlot_eq_ok {wide : Bool} {slot : UInt16} :
    readSlot wide offset bytes = .ok slot ↔
      slot.toNat < Nat.pow 256 (slotSize wide) ∧
        Bytes.ofNatLE (slotSize wide) slot.toNat <+: bytes := by
  cases wide with
  | true =>
    have hslot : slot.toNat < Nat.pow 256 (slotSize true) := slot.toNat_lt
    rw [and_iff_right hslot]
    exact readU16_eq_ok
  | false =>
    cases bytes with
    | nil => simp [readSlot, readU8, slotSize, Except.map, Bytes.ofNatLE]
    | cons byte rest =>
      have hlt : byte.toNat < UInt16.size := Nat.lt_trans byte.toNat_lt (by decide)
      have hform :=
        @Bytes.toNatLE_take_eq_iff (byte :: rest) (slotSize false) slot.toNat (by simp [slotSize])
      rw [← hform]
      simp only [readSlot, readU8, Bool.false_eq_true, if_false, Except.map, Except.ok.injEq,
        slotSize, List.take_succ_cons, List.take_zero, Bytes.toNatLE, ← UInt16.toNat_inj,
        UInt16.toNat_ofNat_of_lt' hlt, Nat.mul_zero, Nat.add_zero]

theorem readOperands_initLocal
    {wide : Bool} {instruction : Instruction} {size : Nat} :
    readOperands .initLocal wide offset bytes = .ok (instruction, size) ↔
      ∃ kind slot, initLocal kind slot = instruction ∧ 1 + slotSize wide = size ∧
        readKind offset bytes = .ok kind ∧
        readSlot wide (offset + 1) bytes.tail = .ok slot := by
  cases hkind : readKind offset bytes with
  | error e => simp [readOperands, hkind]
  | ok kind =>
    simp only [readOperands, hkind, map_eq_ok, Except.ok.injEq, Prod.mk.injEq]
    constructor
    · rintro ⟨slot, ⟨hmake, hsize⟩, hslot⟩
      exact ⟨kind, slot, hmake, hsize, rfl, hslot⟩
    · rintro ⟨_, slot, hmake, hsize, rfl, hslot⟩
      exact ⟨slot, ⟨hmake, hsize⟩, hslot⟩

theorem cons_prefix_iff {byte : UInt8} {part : Bytes} :
    byte :: part <+: bytes ↔ [byte] <+: bytes ∧ part <+: bytes.tail := by
  cases bytes with
  | nil => simp
  | cons first rest => simp [List.cons_prefix_cons]

/-- Operands are read from the bytes that stand for them. -/
theorem readOperands_eq_ok
    {op : Opcode} {wide : Bool} {instruction : Instruction} {size : Nat} :
    readOperands op wide offset bytes = .ok (instruction, size) ↔
      instruction.opcode = op ∧ (instruction.operands wide).length = size ∧
        instruction.SlotFits wide ∧ instruction.operands wide <+: bytes := by
  cases op with
  | wide => cases instruction <;> simp [readOperands, opcode]
  | nop | pushArray | ret =>
    cases instruction <;> simp [readOperands, opcode, operands, SlotFits, slot?]
  | pushU8 =>
    simp only [readOperands, map_eq_ok, readU8_eq_ok]
    cases instruction <;> simp [opcode, operands, SlotFits, slot?, and_assoc]
  | checkedConvert | uncheckedConvert =>
    simp only [readOperands, map_eq_ok, readKind_eq_ok]
    cases instruction <;> simp [opcode, operands, SlotFits, slot?, and_assoc]
  | call =>
    simp only [readOperands, map_eq_ok, readU16_eq_ok]
    cases instruction <;> simp [opcode, operands, SlotFits, slot?, and_assoc]
  | loadArg | popArg | popLocal | pushLocal | refSlot =>
    simp only [readOperands, map_eq_ok, readSlot_eq_ok]
    cases instruction <;> simp [opcode, operands, SlotFits, slot?, and_assoc]
  | initLocal =>
    simp only [readOperands_initLocal, readKind_eq_ok, readSlot_eq_ok]
    cases instruction with
    | initLocal kind slot =>
      have hfits : (initLocal kind slot).SlotFits wide ↔
          slot.toNat < Nat.pow 256 (slotSize wide) := by
        simp [SlotFits, slot?]
      rw [hfits, operands, cons_prefix_iff, List.length_cons, Bytes.length_ofNatLE]
      constructor
      · rintro ⟨_, _, ⟨⟩, hsize, hkind, hslot, hbytes⟩
        exact ⟨rfl, by omega, hslot, hkind, hbytes⟩
      · rintro ⟨-, hsize, hslot, hkind, hbytes⟩
        exact ⟨kind, slot, rfl, by omega, hkind, hslot, hbytes⟩
    | _ => simp [opcode]

end Operands

/-! ## Reading -/

section Reading

variable {offset : Nat} {bytes : Bytes} {wide : Bool} {instruction : Instruction} {size : Nat}

theorem opcode_ne_wide (instruction : Instruction) : instruction.opcode ≠ .wide := by
  cases instruction <;> simp [opcode]

theorem acceptsWide_opcode (instruction : Instruction) :
    instruction.opcode.acceptsWide = instruction.slot?.isSome := by
  cases instruction <;> rfl

theorem form_true_prefix_iff :
    instruction.form true <+: bytes ↔
      [Opcode.wide.byte] <+: bytes ∧ [instruction.opcode.byte] <+: bytes.tail ∧
        instruction.operands true <+: bytes.drop 2 := by
  have htail : bytes.tail.tail = bytes.drop 2 := by
    rw [← List.drop_one, ← List.drop_one, List.drop_drop]
  have hform : instruction.form true =
      Opcode.wide.byte :: instruction.opcode.byte :: instruction.operands true := rfl
  rw [← htail, ← cons_prefix_iff, hform, ← cons_prefix_iff]

theorem form_false_prefix_iff :
    instruction.form false <+: bytes ↔
      [instruction.opcode.byte] <+: bytes ∧ instruction.operands false <+: bytes.tail :=
  cons_prefix_iff

/-- Reading accepts the forms of instructions and nothing else. -/
theorem read_eq_ok_iff_form :
    read offset bytes = .ok (instruction, size) ↔
      ∃ wide, instruction.HasForm wide ∧ (instruction.form wide).length = size ∧
        instruction.form wide <+: bytes := by
  simp only [read_eq_ok, readOpcode_eq_ok, readOperands_eq_ok]
  constructor
  · rintro (⟨_, _, hwide, hop, haccepts, ⟨rfl, rfl, hfits, hoperands⟩, rfl⟩ |
      ⟨_, _, hop, -, ⟨rfl, rfl, hfits, hoperands⟩, rfl⟩)
    · have hslot := (acceptsWide_opcode instruction).symm.trans haccepts
      exact ⟨true, ⟨hfits, fun _ => hslot⟩, rfl, form_true_prefix_iff.2 ⟨hwide, hop, hoperands⟩⟩
    · exact ⟨false, ⟨hfits, by simp⟩, rfl, form_false_prefix_iff.2 ⟨hop, hoperands⟩⟩
  · rintro ⟨wide, ⟨hfits, hslot⟩, rfl, hform⟩
    cases wide with
    | true =>
      obtain ⟨hwide, hop, hoperands⟩ := form_true_prefix_iff.1 hform
      have haccepts := (acceptsWide_opcode instruction).trans (hslot rfl)
      exact .inl ⟨_, _, hwide, hop, haccepts, ⟨rfl, rfl, hfits, hoperands⟩, rfl⟩
    | false =>
      obtain ⟨hop, hoperands⟩ := form_false_prefix_iff.1 hform
      exact .inr ⟨_, _, hop, opcode_ne_wide instruction, ⟨rfl, rfl, hfits, hoperands⟩, rfl⟩

end Reading

/-! ## Encoding -/

/-- Whether the slot needs the form behind `wide`. -/
def takesWide (instruction : Instruction) : Bool :=
  instruction.slot?.any needsWide

theorem encode_eq_form (instruction : Instruction) :
    instruction.encode = instruction.form instruction.takesWide := by
  cases instruction <;> rfl

/-- Without `wide` there are forms for the slots that do not need it. -/
theorem hasForm_false {instruction : Instruction} :
    instruction.HasForm false ↔ instruction.takesWide = false := by
  unfold HasForm SlotFits takesWide
  cases instruction.slot? with
  | none => simp
  | some slot =>
    have hpow : Nat.pow 256 (slotSize false) = 256 := rfl
    simp only [Option.some.injEq, forall_eq', Bool.false_eq_true, false_implies, and_true, hpow,
      Option.any_some, needsWide, decide_eq_false_iff_not]
    omega

theorem hasForm_true {instruction : Instruction} :
    instruction.HasForm true ↔ instruction.slot?.isSome := by
  have hfits : instruction.SlotFits true := fun slot _ => slot.toNat_lt
  simp [HasForm, hfits]

theorem hasForm_takesWide (instruction : Instruction) :
    instruction.HasForm instruction.takesWide := by
  cases hwide : instruction.takesWide with
  | false => exact hasForm_false.2 hwide
  | true =>
    rw [hasForm_true, Option.isSome_iff_ne_none]
    intro hnone
    simp [takesWide, hnone] at hwide

/-- What is encoded is read back, whatever follows. -/
theorem read_encode_append (offset : Nat) (instruction : Instruction) (rest : Bytes) :
    read offset (instruction.encode ++ rest) = .ok (instruction, instruction.encode.length) := by
  rw [read_eq_ok_iff_form, encode_eq_form]
  exact ⟨_, hasForm_takesWide instruction, rfl, List.prefix_append _ _⟩

theorem length_form_true {instruction : Instruction} (h : instruction.slot?.isSome) :
    (instruction.form true).length = (instruction.form false).length + 2 := by
  cases instruction <;> simp_all [form, operands, slotSize, slot?]

/-- Whether bytes start with `wide` although the slot would do without. -/
def Redundant (instruction : Instruction) (bytes : Bytes) : Prop :=
  bytes.head? = some Opcode.wide.byte ∧ ∃ slot ∈ instruction.slot?, slot.toNat ≤ 255

instance (instruction : Instruction) (bytes : Bytes) :
    Decidable (instruction.Redundant bytes) :=
  inferInstanceAs (Decidable (_ ∧ ∃ slot ∈ instruction.slot?, slot.toNat ≤ 255))

theorem redundant_form_true {instruction : Instruction} (h : instruction.HasForm true) :
    instruction.Redundant (instruction.form true) ↔ instruction.takesWide = false := by
  obtain ⟨slot, hslot⟩ := Option.isSome_iff_exists.1 (hasForm_true.1 h)
  simp [Redundant, form, takesWide, needsWide, hslot]

theorem not_redundant_form_false (instruction : Instruction) :
    ¬instruction.Redundant (instruction.form false) := by
  rintro ⟨hhead, -⟩
  have hbyte : instruction.opcode.byte = Opcode.wide.byte := Option.some.inj hhead
  have hop := Opcode.ofByte?_byte instruction.opcode
  rw [hbyte, Opcode.ofByte?_byte] at hop
  exact opcode_ne_wide instruction (Option.some.inj hop).symm

section Shortest

variable {instruction : Instruction} {wide : Bool}

theorem form_of_not_redundant
    (h : instruction.HasForm wide) (hform : ¬instruction.Redundant (instruction.form wide)) :
    instruction.form wide = instruction.encode := by
  rw [encode_eq_form]
  cases wide with
  | false => rw [hasForm_false.1 h]
  | true =>
    rw [redundant_form_true h, Bool.not_eq_false] at hform
    rw [hform]

theorem length_encode_lt
    (h : instruction.HasForm wide) (hform : instruction.Redundant (instruction.form wide)) :
    instruction.encode.length < (instruction.form wide).length := by
  cases wide with
  | false => exact absurd hform (not_redundant_form_false instruction)
  | true =>
    have hlength := length_form_true (hasForm_true.1 h)
    rw [encode_eq_form, (redundant_form_true h).1 hform]
    omega

/-- Encoding takes the shortest form that an instruction has. -/
theorem length_encode_le (h : instruction.HasForm wide) :
    instruction.encode.length ≤ (instruction.form wide).length := by
  by_cases hform : instruction.Redundant (instruction.form wide)
  · exact Nat.le_of_lt (length_encode_lt h hform)
  · have hsame := form_of_not_redundant h hform
    exact Nat.le_of_eq (congrArg List.length hsame.symm)

end Shortest

end Instruction

end TypedStack
