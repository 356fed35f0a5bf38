import TypedStack.Proofs.Except
import TypedStack.Proofs.Instruction.Assembly
import TypedStack.Proofs.Text.Grammar

/-!
# The grammar of assembly lines

A line is read through the words before its first semicolon. `Written` lists which words
are an instruction: a mnemonic, for some instructions with the name of a kind behind a dot,
and a numeral for the others. Every such list of words is the head of its instruction with
at most one numeral behind it, and this is what reading it backwards finds as well: each
branch of the reader that gives an instruction has met its mnemonic, its kind and its
numeral.
-/

namespace TypedStack

namespace Instruction

/-! ## Words and lines -/

/-- The words that are an instruction. Numbers are of sixteen bits, or of eight for a pushed
byte, and may be written as any numeral. -/
inductive Written : List (List Char) → Instruction → Prop
  | bare {mnemonic : String} {instruction : Instruction}
      (mem : (mnemonic, instruction) ∈ [("nop", nop), ("pusharray", pushArray), ("ret", ret)]) :
      Written [mnemonic.toList] instruction
  | conversion {mnemonic : String} {convert : Kind → Instruction} (target : Kind)
      (mem : (mnemonic, convert) ∈ [("cconv", checkedConvert), ("uconv", uncheckedConvert)]) :
      Written [mnemonic.toList ++ '.' :: target.name.toList] (convert target)
  | slotted {mnemonic : String} {access : UInt16 → Instruction} {word : List Char} {n : Nat}
      (mem : (mnemonic, access) ∈ [("loadarg", loadArg), ("poparg", popArg),
        ("poplocal", popLocal), ("pushlocal", pushLocal), ("refslot", refSlot), ("call", call)])
      (numeral : Text.IsNumeral word n) (bound : n ≤ 65535) :
      Written [mnemonic.toList, word] (access (UInt16.ofNat n))
  | declaration (kind : Kind) {word : List Char} {n : Nat}
      (numeral : Text.IsNumeral word n) (bound : n ≤ 65535) :
      Written ["initlocal".toList ++ '.' :: kind.name.toList, word]
        (initLocal kind (UInt16.ofNat n))
  | byte {word : List Char} {n : Nat} (numeral : Text.IsNumeral word n) (bound : n ≤ 255) :
      Written ["push.u8".toList, word] (pushU8 (UInt8.ofNat n))

/-- The words of a line: those before its first semicolon. -/
def LineWords (line : String) (words : List (List Char)) : Prop :=
  ∃ text, Text.CutAt ';' line.toList text ∧ Text.HasWords text words

theorem lineWords_iff {line : String} {words : List (List Char)} :
    LineWords line words ↔ Text.words (stripComment line) = words := by
  constructor
  · rintro ⟨text, hcut, hwords⟩
    rw [stripComment, Text.cutAt_iff.1 hcut]
    exact Text.hasWords_iff.1 hwords
  · intro h
    exact ⟨_, Text.cutAt_iff.2 rfl, Text.hasWords_iff.2 h⟩

/-! ## Heads and numerals -/

/-- The words are the head of the instruction and a numeral for its number, if it has one. -/
def Spells (words : List (List Char)) (instruction : Instruction) : Prop :=
  ∃ operand : Option (List Char), words = instruction.head :: operand.toList ∧
    operand.map Text.numeral? = instruction.number?.map some

theorem ofWords_of_spells {words : List (List Char)} {instruction : Instruction}
    (h : Spells words instruction) : ofWords words = .ok instruction := by
  obtain ⟨operand, rfl, hoperand⟩ := h
  rw [ofWords_head, build_of_numeral hoperand]

theorem head_of_kind?_none {instruction : Instruction} (h : instruction.kind? = none) :
    instruction.head = instruction.opcode.mnemonic.toList := by
  rw [head, h, Option.map_none, Option.getD_none, List.append_nil]

theorem head_of_kind?_some {instruction : Instruction} {kind : Kind}
    (h : instruction.kind? = some kind) :
    instruction.head = instruction.opcode.mnemonic.toList ++ '.' :: kind.name.toList := by
  rw [head, h, Option.map_some, Option.getD_some]

theorem spells_of_number {instruction : Instruction} {first word : List Char} {n : Nat}
    (hhead : instruction.head = first) (hnumber : instruction.number? = some n)
    (hnumeral : Text.numeral? word = some n) : Spells [first, word] instruction :=
  ⟨some word, by rw [hhead]; rfl, by rw [Option.map_some, hnumeral, hnumber, Option.map_some]⟩

theorem spells_of_none {instruction : Instruction} {first : List Char}
    (hhead : instruction.head = first) (hnumber : instruction.number? = none) :
    Spells [first] instruction :=
  ⟨none, by rw [hhead]; rfl, by rw [hnumber, Option.map_none, Option.map_none]⟩

theorem spells_of_written {words : List (List Char)} {instruction : Instruction}
    (h : Written words instruction) : Spells words instruction := by
  cases h with
  | bare hmem =>
    simp only [List.mem_cons, Prod.mk.injEq, List.not_mem_nil, or_false] at hmem
    rcases hmem with ⟨rfl, rfl⟩ | ⟨rfl, rfl⟩ | ⟨rfl, rfl⟩ <;>
      exact spells_of_none (head_of_kind?_none rfl) rfl
  | conversion target hmem =>
    simp only [List.mem_cons, Prod.mk.injEq, List.not_mem_nil, or_false] at hmem
    rcases hmem with ⟨rfl, rfl⟩ | ⟨rfl, rfl⟩ <;>
      exact spells_of_none (head_of_kind?_some rfl) rfl
  | slotted hmem hnumeral hbound =>
    have hslot : (UInt16.ofNat _).toNat = _ := UInt16.toNat_ofNat_of_lt (Nat.lt_succ_of_le hbound)
    rw [← Text.numeral?_eq_some, ← hslot] at hnumeral
    simp only [List.mem_cons, Prod.mk.injEq, List.not_mem_nil, or_false] at hmem
    rcases hmem with ⟨rfl, rfl⟩ | ⟨rfl, rfl⟩ | ⟨rfl, rfl⟩ | ⟨rfl, rfl⟩ | ⟨rfl, rfl⟩ | ⟨rfl, rfl⟩ <;>
      exact spells_of_number (head_of_kind?_none rfl) rfl hnumeral
  | declaration kind hnumeral hbound =>
    have hslot : (UInt16.ofNat _).toNat = _ := UInt16.toNat_ofNat_of_lt (Nat.lt_succ_of_le hbound)
    rw [← Text.numeral?_eq_some, ← hslot] at hnumeral
    exact spells_of_number (head_of_kind?_some rfl) rfl hnumeral
  | byte hnumeral hbound =>
    have hvalue : (UInt8.ofNat _).toNat = _ := UInt8.toNat_ofNat_of_lt (Nat.lt_succ_of_le hbound)
    rw [← Text.numeral?_eq_some, ← hvalue] at hnumeral
    exact spells_of_number (head_of_kind?_none rfl) rfl hnumeral

/-- A number of sixteen bits is within the bound. -/
theorem written_slot {mnemonic : String} {access : UInt16 → Instruction} {word : List Char}
    (mem : (mnemonic, access) ∈ [("loadarg", loadArg), ("poparg", popArg),
      ("poplocal", popLocal), ("pushlocal", pushLocal), ("refslot", refSlot), ("call", call)])
    (slot : UInt16) (hnumeral : Text.IsNumeral word slot.toNat) :
    Written [mnemonic.toList, word] (access slot) := by
  have hwritten := Written.slotted mem hnumeral (Nat.le_of_lt_succ slot.toNat_lt)
  rwa [UInt16.ofNat_toNat] at hwritten

theorem written_of_spells {words : List (List Char)} {instruction : Instruction}
    (h : Spells words instruction) : Written words instruction := by
  obtain ⟨operand, rfl, hoperand⟩ := h
  cases hnumber : instruction.number? with
  | none =>
    rw [hnumber, Option.map_none, Option.map_eq_none_iff] at hoperand
    rw [hoperand]
    cases instruction with
    | nop => rw [head_of_kind?_none rfl]; exact .bare (by simp [opcode, Opcode.mnemonic])
    | pushArray => rw [head_of_kind?_none rfl]; exact .bare (by simp [opcode, Opcode.mnemonic])
    | ret => rw [head_of_kind?_none rfl]; exact .bare (by simp [opcode, Opcode.mnemonic])
    | checkedConvert target =>
      rw [head_of_kind?_some rfl]
      exact .conversion target (by simp [opcode, Opcode.mnemonic])
    | uncheckedConvert target =>
      rw [head_of_kind?_some rfl]
      exact .conversion target (by simp [opcode, Opcode.mnemonic])
    | _ => cases hnumber
  | some n =>
    rw [hnumber, Option.map_some, Option.map_eq_some_iff] at hoperand
    obtain ⟨word, rfl, hword⟩ := hoperand
    rw [Text.numeral?_eq_some] at hword
    cases instruction with
    | nop | pushArray | ret | checkedConvert | uncheckedConvert => cases hnumber
    | pushU8 value =>
      obtain rfl : value.toNat = n := Option.some.inj hnumber
      have hwritten := Written.byte hword (Nat.le_of_lt_succ value.toNat_lt)
      rw [UInt8.ofNat_toNat] at hwritten
      rw [head_of_kind?_none rfl]
      exact hwritten
    | initLocal kind slot =>
      obtain rfl : slot.toNat = n := Option.some.inj hnumber
      have hwritten := Written.declaration kind hword (Nat.le_of_lt_succ slot.toNat_lt)
      rw [UInt16.ofNat_toNat] at hwritten
      rw [head_of_kind?_some rfl]
      exact hwritten
    | _ =>
      obtain rfl := Option.some.inj hnumber
      rw [head_of_kind?_none rfl]
      exact written_slot (by simp [opcode, Opcode.mnemonic]) _ hword

/-! ## What the reader has met -/

/-- The parts of a line that an instruction was read off: its mnemonic, the name of its kind,
a numeral for its number. -/
structure Parts (mnemonic : String) (suffix operand : Option String) (instruction : Instruction) :
    Prop where
  mnemonic_eq : instruction.opcode.mnemonic = mnemonic
  suffix_eq : ∀ kind, instruction.kind? = some kind → suffix = some kind.name
  operand_eq : operand.map (fun word => Text.numeral? word.toList) = instruction.number?.map some

variable {mnemonic : String} {suffix operand : Option String} {instruction result : Instruction}

theorem parts_of_withoutOperand (h : withoutOperand instruction operand = .ok result)
    (hmnemonic : instruction.opcode.mnemonic = mnemonic) (hnumber : instruction.number? = none)
    (hsuffix : ∀ kind, instruction.kind? = some kind → suffix = some kind.name) :
    Parts mnemonic suffix operand result := by
  cases operand with
  | some word => cases h
  | none =>
    obtain rfl : instruction = result := Except.ok.inj h
    exact ⟨hmnemonic, hsuffix, by rw [hnumber]; rfl⟩

theorem requireNumber_eq_ok {bound n : Nat} (hbound : bound < UInt64.size)
    (h : requireNumber bound mnemonic operand = .ok n) :
    operand.map (fun word => Text.numeral? word.toList) = some (some n) ∧ n ≤ bound := by
  cases operand with
  | none => cases h
  | some word =>
    obtain ⟨hnumeral, hle⟩ := (parseNumber_eq_ok hbound).1 h
    exact ⟨congrArg some hnumeral, hle⟩

theorem parts_of_requireSlot {access : UInt16 → Instruction}
    (h : (requireSlot mnemonic operand).map access = .ok result)
    (hmnemonic : ∀ slot, (access slot).opcode.mnemonic = mnemonic)
    (hnumber : ∀ slot, (access slot).number? = some slot.toNat)
    (hsuffix : ∀ slot kind, (access slot).kind? = some kind → suffix = some kind.name) :
    Parts mnemonic suffix operand result := by
  obtain ⟨slot, rfl, hslot⟩ := map_eq_ok.1 h
  obtain ⟨n, rfl, hn⟩ := map_eq_ok.1 hslot
  obtain ⟨hoperand, hle⟩ := requireNumber_eq_ok (by decide) hn
  have hslot : (UInt16.ofNat n).toNat = n := UInt16.toNat_ofNat_of_lt (Nat.lt_succ_of_le hle)
  refine ⟨hmnemonic _, hsuffix _, ?_⟩
  rw [hoperand, hnumber, hslot]
  rfl

theorem requireKind_eq_ok {kind : Kind} (h : requireKind mnemonic suffix = .ok kind) :
    suffix = some kind.name := by
  cases suffix with
  | none => cases h
  | some name =>
    rw [requireKind] at h
    cases hname : Kind.ofName? name with
    | none =>
      rw [hname] at h
      cases h
    | some found =>
      rw [hname] at h
      obtain rfl : found = kind := Except.ok.inj h
      rw [Kind.ofName?_eq_some.1 hname]

theorem parts_of_build (h : build mnemonic suffix operand = .ok result) :
    Parts mnemonic suffix operand result := by
  have hnone : ∀ kind, (none : Option Kind) = some kind → suffix = some kind.name :=
    fun _ hkind => absurd hkind (Option.some_ne_none _).symm
  unfold build at h
  split at h
  · exact parts_of_withoutOperand h rfl rfl hnone
  · obtain ⟨n, rfl, hn⟩ := map_eq_ok.1 h
    obtain ⟨hoperand, hle⟩ := requireNumber_eq_ok (by decide) hn
    have hvalue : (UInt8.ofNat n).toNat = n := UInt8.toNat_ofNat_of_lt (Nat.lt_succ_of_le hle)
    exact ⟨rfl, hnone, by rw [hoperand, number?, hvalue, Option.map_some]⟩
  · exact parts_of_requireSlot h (fun _ => rfl) (fun _ => rfl) fun _ => hnone
  · exact parts_of_requireSlot h (fun _ => rfl) (fun _ => rfl) fun _ => hnone
  · split at h
    · cases h
    · rename_i kind hkind
      refine parts_of_requireSlot h (fun _ => rfl) (fun _ => rfl) fun slot kind' hkind' => ?_
      rw [requireKind_eq_ok hkind, Option.some.inj hkind']
  · exact parts_of_requireSlot h (fun _ => rfl) (fun _ => rfl) fun _ => hnone
  · exact parts_of_requireSlot h (fun _ => rfl) (fun _ => rfl) fun _ => hnone
  · exact parts_of_requireSlot h (fun _ => rfl) (fun _ => rfl) fun _ => hnone
  · exact parts_of_withoutOperand h rfl rfl hnone
  · split at h
    · cases h
    · rename_i target htarget
      refine parts_of_withoutOperand h rfl rfl fun kind hkind => ?_
      rw [requireKind_eq_ok htarget, Option.some.inj hkind]
  · split at h
    · cases h
    · rename_i target htarget
      refine parts_of_withoutOperand h rfl rfl fun kind hkind => ?_
      rw [requireKind_eq_ok htarget, Option.some.inj hkind]
  · exact parts_of_requireSlot h (fun _ => rfl) (fun _ => rfl) fun _ => hnone
  · exact parts_of_withoutOperand h rfl rfl hnone
  · cases h

/-! ## Reading words backwards -/

/-- The first word is left whole or cut at a dot. -/
theorem splitHead_cases (word : List Char) :
    splitHead word = (String.ofList word, none) ∨
      ∃ first suffix, word = first ++ '.' :: suffix ∧
        splitHead word = (String.ofList first, some (String.ofList suffix)) := by
  obtain ⟨hdot, rest, hword, hrest⟩ := Text.cutAt_iff.2 (rfl : Text.before '.' word = _)
  generalize Text.before '.' word = first at hdot hword
  cases rest with
  | nil =>
    rw [List.append_nil] at hword
    rw [← hword] at hdot
    exact .inl (splitHead_of_notMem hdot)
  | cons mark suffix =>
    obtain rfl := hrest mark rfl
    by_cases hpush : word = Opcode.pushU8.mnemonic.toList
    · rw [hpush]
      exact .inl (by decide)
    · refine .inr ⟨first, suffix, hword, ?_⟩
      rw [hword] at hpush ⊢
      simp [splitHead, Text.before_append hdot, hpush]

theorem kind?_of_takesKind (h : takesKind instruction.opcode.mnemonic = true) :
    ∃ kind, instruction.kind? = some kind := by
  cases instruction with
  | initLocal | checkedConvert | uncheckedConvert => exact ⟨_, rfl⟩
  | _ => cases h

theorem spells_of_ofWords_cons {first : List Char} (word : Option (List Char))
    (h : ofWords (first :: word.toList) = .ok instruction) :
    Spells (first :: word.toList) instruction := by
  have hmap : (word.map String.ofList).map (fun text => Text.numeral? text.toList) =
      word.map Text.numeral? := by
    simp [Function.comp_def]
  rcases splitHead_cases first with hsplit | ⟨mnemonic, suffix, rfl, hsplit⟩
  · have hbuild : build (String.ofList first) none (word.map String.ofList) = .ok instruction := by
      cases word <;> simpa [ofWords, hsplit] using h
    have hparts := parts_of_build hbuild
    have hkind : instruction.kind? = none := by
      by_contra hsome
      obtain ⟨kind, hkind⟩ := Option.ne_none_iff_exists'.1 hsome
      cases hparts.suffix_eq kind hkind
    refine ⟨word, ?_, hmap ▸ hparts.operand_eq⟩
    rw [head_of_kind?_none hkind, hparts.mnemonic_eq, String.toList_ofList]
  · have hbuild : takesKind (String.ofList mnemonic) = true ∧
        build (String.ofList mnemonic) (some (String.ofList suffix)) (word.map String.ofList) =
          .ok instruction := by
      by_cases htakes : takesKind (String.ofList mnemonic) = true
      · refine ⟨htakes, ?_⟩
        cases word <;> simpa [ofWords, hsplit, htakes] using h
      · cases word <;> simp [ofWords, hsplit, htakes] at h
    have hparts := parts_of_build hbuild.2
    obtain ⟨kind, hkind⟩ := kind?_of_takesKind (hparts.mnemonic_eq ▸ hbuild.1)
    have hsuffix : suffix = kind.name.toList := by
      rw [← Option.some.inj (hparts.suffix_eq kind hkind), String.toList_ofList]
    refine ⟨word, ?_, hmap ▸ hparts.operand_eq⟩
    rw [head_of_kind?_some hkind, hparts.mnemonic_eq, String.toList_ofList, hsuffix]

theorem spells_of_ofWords {words : List (List Char)} (h : ofWords words = .ok instruction) :
    Spells words instruction := by
  cases words with
  | nil => cases h
  | cons first rest =>
    cases rest with
    | nil => exact spells_of_ofWords_cons none h
    | cons word others =>
      cases others with
      | nil => exact spells_of_ofWords_cons (some word) h
      | cons extra _ => cases h

theorem ofWords_eq_ok {words : List (List Char)} :
    ofWords words = .ok instruction ↔ Written words instruction := by
  constructor
  · intro h
    exact written_of_spells (spells_of_ofWords h)
  · intro h
    exact ofWords_of_spells (spells_of_written h)

/-- A line is read just as the grammar has it. Every line has one list of words, those before
its first semicolon, and it is read as an instruction exactly if these words are that
instruction written out. -/
theorem parse_accepts_exactly_grammar (line : String) :
    ∃ words, LineWords line words ∧ (∀ others, LineWords line others → others = words) ∧
      ∀ instruction, parse line = .ok instruction ↔ Written words instruction := by
  refine ⟨Text.words (stripComment line), lineWords_iff.2 rfl, ?_, ?_⟩
  · intro others hothers
    exact (lineWords_iff.1 hothers).symm
  · intro instruction
    rw [parse, ofWords_eq_ok]

/-- A wide blank in front, a sign and zeros behind the mark of hexadecimal digits in both
letter cases, and an instruction in the comment. -/
theorem parse_accepts_exactly_grammar_hexadecimal :
    Text.IsNumeral "0x+00fF".toList 255 ∧
      parse "\u3000call 0x+00fF;ret" = .ok (call 255) := by
  have hnumeral : Text.IsNumeral "0x+00fF".toList 255 :=
    Text.numeral?_eq_some.1 (by decide)
  have hwords : LineWords "\u3000call 0x+00fF;ret" ["call".toList, "0x+00fF".toList] :=
    lineWords_iff.2 (by decide)
  obtain ⟨words, -, hunique, hread⟩ := parse_accepts_exactly_grammar "\u3000call 0x+00fF;ret"
  refine ⟨hnumeral, (hread _).2 ?_⟩
  rw [← hunique _ hwords]
  exact .slotted (by simp) hnumeral (by decide)

end Instruction

end TypedStack
