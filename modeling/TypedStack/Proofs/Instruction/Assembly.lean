import TypedStack.Instruction.Assembly
import TypedStack.Proofs.Instruction.Stream
import TypedStack.Proofs.Text

/-!
# Instructions written as text and assembled

The text of an instruction is its words with a space between them. Assembly finds
these words again and reads the instruction off them, so the texts of instructions,
line by line or as one text, assemble to their code. With what is known of encoded
streams, the texts of a listing assemble to code with the same instructions.
-/

namespace TypedStack

namespace Instruction

/-! ## The words of an instruction -/

/-- The kind that stands behind a dot in the text of an instruction. -/
def kind? : Instruction → Option Kind
  | initLocal kind _ | checkedConvert kind | uncheckedConvert kind => some kind
  | nop | pushU8 _ | loadArg _ | popArg _ | popLocal _ | pushLocal _ | refSlot _ | pushArray
  | call _ | ret => none

/-- The number that stands behind a space in the text of an instruction. -/
def number? : Instruction → Option Nat
  | pushU8 value => some value.toNat
  | loadArg slot | popArg slot | initLocal _ slot | popLocal slot | pushLocal slot | refSlot slot
  | call slot => some slot.toNat
  | nop | pushArray | checkedConvert _ | uncheckedConvert _ | ret => none

/-- The first word of an instruction. -/
def head (instruction : Instruction) : List Char :=
  instruction.opcode.mnemonic.toList ++
    (instruction.kind?.map fun kind => '.' :: kind.name.toList).getD []

/-- The words of an instruction: one for the operation, one for a number. -/
def spelling (instruction : Instruction) : List (List Char) :=
  instruction.head :: instruction.number?.toList.map (Nat.toDigits 10)

/-- Between the words there is a space. -/
theorem toList_render (instruction : Instruction) :
    instruction.render.toList = [' '].intercalate instruction.spelling := by
  cases instruction <;>
    simp [render, spelling, head, kind?, number?, opcode, List.intercalate_cons_cons]

/-- A word of a line that starts no comment. -/
def IsPlain (word : List Char) : Prop :=
  Text.IsWord word ∧ ';' ∉ word

instance (word : List Char) : Decidable (IsPlain word) :=
  inferInstanceAs (Decidable (_ ∧ _))

theorem isPlain_mnemonic (op : Opcode) : IsPlain op.mnemonic.toList := by
  cases op <;> decide

theorem isPlain_name (kind : Kind) : IsPlain ('.' :: kind.name.toList) := by
  rcases kind with (_ | _ | _ | _ | _ | _ | _ | _ | _ | _) | (_ | _ | _) | _ | _ <;> decide

theorem isPlain_toDigits (n : Nat) : IsPlain (Nat.toDigits 10 n) := by
  refine ⟨Text.isWord_toDigits n, fun hmem => ?_⟩
  exact absurd (Text.isDigit_of_mem_toDigits _ hmem) (by decide)

theorem IsPlain.append {first second : List Char} (hfirst : IsPlain first)
    (hsecond : IsPlain second) : IsPlain (first ++ second) := by
  refine ⟨⟨by simp [hfirst.1.1], ?_⟩, ?_⟩
  · exact List.forall_mem_append.2 ⟨hfirst.1.2, hsecond.1.2⟩
  · exact fun hmem => (List.mem_append.1 hmem).elim hfirst.2 hsecond.2

theorem isPlain_head (instruction : Instruction) : IsPlain instruction.head := by
  have hmnemonic := isPlain_mnemonic instruction.opcode
  rw [head]
  cases instruction.kind? with
  | none => simpa using hmnemonic
  | some kind => exact hmnemonic.append (isPlain_name kind)

theorem isPlain_of_mem_spelling {instruction : Instruction} :
    ∀ word ∈ instruction.spelling, IsPlain word := by
  refine List.forall_mem_cons.2 ⟨isPlain_head instruction, ?_⟩
  intro word hword
  obtain ⟨n, -, rfl⟩ := List.mem_map.1 hword
  exact isPlain_toDigits n

/-! ## Reading an instruction off its words -/

/-- A bound of less than sixty-four bits makes the other bound superfluous. -/
theorem parseNumber_eq_ok {bound n : Nat} {word : String} (hbound : bound < UInt64.size) :
    parseNumber bound word = .ok n ↔ Text.numeral? word.toList = some n ∧ n ≤ bound := by
  have hfilter : parseNumber bound word = .ok n ↔
      (Text.numeral? word.toList).filter (· < UInt64.size) = some n ∧ n ≤ bound := by
    rw [parseNumber]
    cases (Text.numeral? word.toList).filter (· < UInt64.size) with
    | none => simp
    | some m =>
      by_cases hm : m ≤ bound
      · simp only [if_pos hm, Except.ok.injEq, Option.some.injEq]
        exact ⟨fun heq => ⟨heq, heq ▸ hm⟩, And.left⟩
      · simp only [if_neg hm, Option.some.injEq, reduceCtorEq, false_iff]
        exact fun ⟨heq, hle⟩ => hm (heq ▸ hle)
  rw [hfilter, Option.filter_eq_some_iff, decide_eq_true_iff]
  constructor
  · exact fun ⟨⟨hn, _⟩, hle⟩ => ⟨hn, hle⟩
  · exact fun ⟨hn, hle⟩ => ⟨⟨hn, Nat.lt_of_le_of_lt hle hbound⟩, hle⟩

theorem requireNumber_of_numeral
    {bound n : Nat} {word : List Char} (h : Text.numeral? word = some n) (hle : n ≤ bound)
    (hbound : bound < UInt64.size) (mnemonic : String) :
    requireNumber bound mnemonic (some (String.ofList word)) = .ok n := by
  rw [requireNumber, parseNumber_eq_ok hbound, String.toList_ofList]
  exact ⟨h, hle⟩

theorem requireSlot_of_numeral
    {word : List Char} {slot : UInt16} (h : Text.numeral? word = some slot.toNat)
    (mnemonic : String) : requireSlot mnemonic (some (String.ofList word)) = .ok slot := by
  have hbound : slot.toNat ≤ 65535 := Nat.le_of_lt_succ slot.toNat_lt
  rw [requireSlot, requireNumber_of_numeral h hbound (by decide)]
  simp [Except.map]

theorem splitHead_of_notMem {word : List Char} (h : '.' ∉ word) :
    splitHead word = (String.ofList word, none) := by
  simp [splitHead, Text.before_eq_self h]

/-- A word is cut at its dot, but for the one mnemonic that has a dot in it. -/
theorem splitHead_append {word : List Char} (h : '.' ∉ word)
    (hpush : word ≠ "push".toList) (suffix : List Char) :
    splitHead (word ++ '.' :: suffix) = (String.ofList word, some (String.ofList suffix)) := by
  have hother : word ++ '.' :: suffix ≠ Opcode.pushU8.mnemonic.toList := by
    intro heq
    have hbefore := congrArg (Text.before '.') heq
    rw [Text.before_append h] at hbefore
    exact hpush hbefore
  simp [splitHead, Text.before_append h, hother]

theorem dot_notMem_mnemonic {op : Opcode} (h : op ≠ .pushU8) : '.' ∉ op.mnemonic.toList := by
  revert h
  cases op <;> decide

theorem mnemonic_ne_push (op : Opcode) : op.mnemonic.toList ≠ "push".toList := by
  cases op <;> decide

theorem takesKind_mnemonic {instruction : Instruction} {kind : Kind}
    (h : instruction.kind? = some kind) :
    instruction.opcode ≠ .pushU8 ∧ takesKind instruction.opcode.mnemonic = true := by
  cases instruction with
  | initLocal | checkedConvert | uncheckedConvert => exact ⟨by simp [opcode], rfl⟩
  | _ => cases h

theorem splitHead_head (instruction : Instruction) :
    splitHead instruction.head =
      (instruction.opcode.mnemonic, instruction.kind?.map Kind.name) := by
  rw [head]
  cases hkind : instruction.kind? with
  | some kind =>
    have hdot := dot_notMem_mnemonic (takesKind_mnemonic hkind).1
    simp [splitHead_append hdot (mnemonic_ne_push _)]
  | none =>
    rw [Option.map_none, Option.getD_none, List.append_nil]
    by_cases hpush : instruction.opcode = .pushU8
    · rw [hpush]
      decide
    · simp [splitHead_of_notMem (dot_notMem_mnemonic hpush)]

/-- Assembly finds the parts of which the words were made. -/
theorem ofWords_head (instruction : Instruction) (operand : Option (List Char)) :
    ofWords (instruction.head :: operand.toList) =
      build instruction.opcode.mnemonic (instruction.kind?.map Kind.name)
        (operand.map String.ofList) := by
  have hhead := splitHead_head instruction
  cases hkind : instruction.kind? with
  | none =>
    rw [hkind] at hhead
    cases operand <;> simp [ofWords, hhead]
  | some kind =>
    rw [hkind] at hhead
    cases operand <;> simp [ofWords, hhead, (takesKind_mnemonic hkind).2]

/-- The number of an instruction can be written as any numeral for it. -/
theorem build_of_numeral {instruction : Instruction} {operand : Option (List Char)}
    (h : operand.map Text.numeral? = instruction.number?.map some) :
    build instruction.opcode.mnemonic (instruction.kind?.map Kind.name)
      (operand.map String.ofList) = .ok instruction := by
  cases hnumber : instruction.number? with
  | none =>
    rw [hnumber, Option.map_none, Option.map_eq_none_iff] at h
    cases instruction with
    | nop | pushArray | checkedConvert | uncheckedConvert | ret =>
      simp [h, build, opcode, Opcode.mnemonic, kind?, requireKind, withoutOperand]
    | _ => cases hnumber
  | some n =>
    rw [hnumber, Option.map_some, Option.map_eq_some_iff] at h
    obtain ⟨word, rfl, hword⟩ := h
    cases instruction with
    | nop | pushArray | checkedConvert | uncheckedConvert | ret => cases hnumber
    | pushU8 value =>
      obtain rfl : value.toNat = n := Option.some.inj hnumber
      have hbound : value.toNat ≤ 255 := Nat.le_of_lt_succ value.toNat_lt
      simp [build, opcode, Opcode.mnemonic, requireNumber_of_numeral hword hbound (by decide),
        Except.map]
    | _ =>
      obtain rfl := Option.some.inj hnumber
      simp [build, opcode, Opcode.mnemonic, kind?, requireSlot_of_numeral hword, requireKind,
        Except.map]

theorem words_stripComment_render (instruction : Instruction) :
    Text.words (stripComment instruction.render) = instruction.spelling := by
  rw [stripComment, toList_render, Text.before_eq_self, Text.words_intercalate]
  · exact fun word hword => (isPlain_of_mem_spelling word hword).1
  · intro hmem
    obtain hspace | ⟨word, hword, hmem⟩ := Text.mem_intercalate hmem
    · exact absurd hspace (by decide)
    · exact (isPlain_of_mem_spelling word hword).2 hmem

/-- The text of an instruction is read as that instruction. -/
theorem parse_render (instruction : Instruction) :
    parse instruction.render = .ok instruction := by
  have hspelling : instruction.spelling =
      instruction.head :: (instruction.number?.map (Nat.toDigits 10)).toList := by
    rw [spelling, Option.toList_map]
  rw [parse, words_stripComment_render, hspelling, ofWords_head, build_of_numeral]
  rw [Option.map_map]
  exact congrArg (instruction.number?.map ·) (funext Text.numeral?_toDigits)

/-! ## Assembling the texts of instructions -/

theorem isBlankLine_render (instruction : Instruction) :
    isBlankLine instruction.render = false := by
  rw [Bool.eq_false_iff]
  intro hblank
  have hwords := Text.words_of_blank (Text.trim_eq_nil.1 (List.isEmpty_iff.1 hblank))
  rw [words_stripComment_render] at hwords
  exact List.cons_ne_nil _ _ hwords

theorem parseLines_render (number : Nat) (instructions : List Instruction) :
    parseLines number (instructions.map render) = .ok instructions := by
  induction instructions generalizing number with
  | nil => rfl
  | cons instruction rest ih =>
    rw [List.map_cons, parseLines, isBlankLine_render, parse_render, ih]
    rfl

theorem assemble_render (instructions : List Instruction) :
    assemble (instructions.map render) = .ok (encodeAll instructions) := by
  rw [assemble, parseLines_render]
  rfl

theorem lines_render (instructions : List Instruction) :
    Text.lines (String.intercalate "\n" (instructions.map render)) = instructions.map render := by
  apply Text.lines_intercalate
  intro text htext
  obtain ⟨instruction, -, rfl⟩ := List.mem_map.1 htext
  rw [toList_render]
  apply Text.isLine_intercalate (List.cons_ne_nil _ _)
  exact fun word hword => (isPlain_of_mem_spelling word hword).1

/-! ## Assembling the texts of a listing -/

open Listing (ofCode)

/-- Assembly and listings agree. The texts of instructions assemble to their code,
as lines and as one text. So the texts of the instructions of a listing assemble to
code that lists the same instructions, which is the listed code itself exactly if
no line starts with `wide` for a slot of one byte. -/
theorem assembled_from_texts :
    (∀ instructions : List Instruction,
      assemble (instructions.map render) = .ok (encodeAll instructions) ∧
      assembleText (String.intercalate "\n" (instructions.map render)) =
        .ok (encodeAll instructions)) ∧
    ∀ code, (ofCode code).error = none →
      ∃ again, assemble ((ofCode code).instructions.map render) = .ok again ∧
        (ofCode again).error = none ∧
        (ofCode again).instructions = (ofCode code).instructions ∧
        (again = code ↔
          ∀ line ∈ (ofCode code).lines, ¬line.instruction.Redundant line.bytes) := by
  refine ⟨?_, ?_⟩
  · intro instructions
    rw [assembleText, lines_render]
    exact ⟨assemble_render instructions, assemble_render instructions⟩
  · intro code hcode
    obtain ⟨herror, hsame⟩ := Listing.ofSuffix_encodeAll 0 (ofCode code).instructions
    refine ⟨_, assemble_render (ofCode code).instructions, herror, hsame, ?_⟩
    have hiff := Listing.encodeAll_eq_flatMap_bytes_iff (Listing.spelled_ofCode code)
    rwa [Listing.flatMap_bytes_ofCode hcode] at hiff

/-- A slot that needs `wide` and one that does not, behind a kind with a dot. -/
theorem assembled_from_texts_wide :
    (ofCode [5, 14, 3, 0, 7, 0, 1, 13]).error = none ∧
      assemble ["initlocal.ref 3", "pushlocal 256", "ret"] = .ok [5, 14, 3, 0, 7, 0, 1, 13] := by
  have hlisting : ofCode [5, 14, 3, 0, 7, 0, 1, 13] =
      ⟨[⟨0, [5, 14, 3], .initLocal .ref 3⟩, ⟨3, [0, 7, 0, 1], .pushLocal 256⟩, ⟨7, [13], .ret⟩],
        none⟩ := by
    cbv
  have herror : (ofCode [5, 14, 3, 0, 7, 0, 1, 13]).error = none := by
    rw [hlisting]
  obtain ⟨again, hagain, -, -, hcode⟩ := assembled_from_texts.2 _ herror
  rw [hlisting] at hagain hcode
  refine ⟨herror, ?_⟩
  rw [← hcode.2 (by decide)]
  exact hagain

end Instruction

end TypedStack
