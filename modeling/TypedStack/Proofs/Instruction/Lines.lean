import TypedStack.Proofs.Instruction.Grammar

/-!
# Assembling lines

A line is skipped if nothing but blanks comes before its comment, and these are just the
lines without words, so the reader is never given an empty line. The lines of a list are
then read one by one: a list of lines either reads as instructions, or has a first line
that does not, known by the lines before it. Both are stated without the loop, and lists of
lines put together are seen to behave like their parts.
-/

namespace TypedStack

namespace Instruction

variable {line : String} {lines rest : List String} {instruction : Instruction}
  {instructions : List Instruction} {cause : ParseError} {number : Nat} {code : Bytes}

/-! ## Lines without words -/

/-- A line of blanks and, behind them, a comment at most. -/
def Blank (line : String) : Prop :=
  ∃ blanks comment, line.toList = blanks ++ comment ∧ (∀ c ∈ blanks, Text.isBlank c = true) ∧
    ∀ c ∈ comment.head?, c = ';'

theorem blank_iff : Blank line ↔ ∀ c ∈ stripComment line, Text.isBlank c = true := by
  constructor
  · rintro ⟨blanks, comment, hline, hblank, hcomment⟩
    have hmark : ';' ∉ blanks := fun hmem => absurd (hblank _ hmem) (by decide)
    rw [stripComment, Text.cutAt_iff.1 ⟨hmark, comment, hline, hcomment⟩]
    exact hblank
  · intro h
    obtain ⟨-, comment, hline, hcomment⟩ := Text.cutAt_iff.2 (rfl : stripComment line = _)
    exact ⟨_, comment, hline, h, hcomment⟩

/-- The test that the loop makes. -/
theorem isBlankLine_iff : isBlankLine line = true ↔ Blank line := by
  rw [isBlankLine, List.isEmpty_iff, Text.trim_eq_nil, blank_iff]

theorem words_eq_nil_iff : Text.words (stripComment line) = [] ↔ Blank line := by
  rw [blank_iff]
  constructor
  · intro h
    have hwords := Text.hasWords_iff.2 h
    generalize stripComment line = text at hwords
    cases hwords with
    | none hblank => exact hblank
  · exact Text.words_of_blank

section

variable {bound : Nat} {mnemonic : String} {suffix operand : Option String}

theorem requireNumber_ne_empty : requireNumber bound mnemonic operand ≠ .error .empty := by
  intro h
  cases operand with
  | none => cases h
  | some word =>
    rw [requireNumber, parseNumber] at h
    split at h
    · split at h <;> cases h
    · cases h

theorem requireSlot_ne_empty : requireSlot mnemonic operand ≠ .error .empty :=
  fun h => requireNumber_ne_empty (map_eq_error.1 h)

theorem requireKind_ne_empty : requireKind mnemonic suffix ≠ .error .empty := by
  intro h
  cases suffix with
  | none => cases h
  | some name =>
    rw [requireKind] at h
    split at h <;> cases h

theorem withoutOperand_ne_empty : withoutOperand instruction operand ≠ .error .empty := by
  intro h
  cases operand with
  | none => cases h
  | some word => cases h

/-- Whatever the parts of a line are, the reader finds them not to be none. -/
theorem build_ne_empty : build mnemonic suffix operand ≠ .error .empty := by
  intro h
  unfold build at h
  split at h
  · exact withoutOperand_ne_empty h
  · exact requireNumber_ne_empty (map_eq_error.1 h)
  · exact requireSlot_ne_empty (map_eq_error.1 h)
  · exact requireSlot_ne_empty (map_eq_error.1 h)
  · split at h
    · rename_i hkind
      exact requireKind_ne_empty (hkind.trans (congrArg _ (Except.error.inj h)))
    · exact requireSlot_ne_empty (map_eq_error.1 h)
  · exact requireSlot_ne_empty (map_eq_error.1 h)
  · exact requireSlot_ne_empty (map_eq_error.1 h)
  · exact requireSlot_ne_empty (map_eq_error.1 h)
  · exact withoutOperand_ne_empty h
  · split at h
    · rename_i hkind
      exact requireKind_ne_empty (hkind.trans (congrArg _ (Except.error.inj h)))
    · exact withoutOperand_ne_empty h
  · split at h
    · rename_i hkind
      exact requireKind_ne_empty (hkind.trans (congrArg _ (Except.error.inj h)))
    · exact withoutOperand_ne_empty h
  · exact requireSlot_ne_empty (map_eq_error.1 h)
  · exact withoutOperand_ne_empty h
  · cases h

end

theorem ofWords_eq_empty {words : List (List Char)} :
    ofWords words = .error .empty ↔ words = [] := by
  constructor
  · intro h
    unfold ofWords at h
    split at h
    · rfl
    · cases h
    · split at h
      · exact absurd h build_ne_empty
      · split at h
        · exact absurd h build_ne_empty
        · cases h
  · rintro rfl
    rfl

/-- The loop and the reader agree on which lines are empty. -/
theorem parse_eq_empty_iff : parse line = .error .empty ↔ Blank line := by
  rw [parse, ofWords_eq_empty, words_eq_nil_iff]

theorem not_blank_of_parse (h : parse line = .ok instruction) : ¬ Blank line := by
  intro hblank
  cases h.symm.trans (parse_eq_empty_iff.2 hblank)

/-! ## One line -/

theorem parseLines_blank (h : Blank line) (number : Nat) (rest : List String) :
    parseLines number (line :: rest) = parseLines (number + 1) rest := by
  rw [parseLines, if_pos (isBlankLine_iff.2 h)]

theorem parseLines_ok (h : parse line = .ok instruction) (number : Nat) (rest : List String) :
    parseLines number (line :: rest) =
      (parseLines (number + 1) rest).map (instruction :: ·) := by
  rw [parseLines, if_neg (mt isBlankLine_iff.1 (not_blank_of_parse h)), h]

theorem parseLines_error (hblank : ¬ Blank line) (h : parse line = .error cause) (number : Nat)
    (rest : List String) : parseLines number (line :: rest) = .error ⟨number, cause⟩ := by
  rw [parseLines, if_neg (mt isBlankLine_iff.1 hblank), h]

/-- A line that does not stop the assembly. -/
def Passes (line : String) : Prop :=
  Blank line ∨ ∃ instruction, parse line = .ok instruction

theorem line_cases (line : String) :
    Blank line ∨ (∃ instruction, parse line = .ok instruction) ∨
      (¬ Blank line ∧ ∃ cause, parse line = .error cause) := by
  by_cases hblank : Blank line
  · exact .inl hblank
  · cases hparse : parse line with
    | ok instruction => exact .inr (.inl ⟨instruction, rfl⟩)
    | error cause => exact .inr (.inr ⟨hblank, cause, rfl⟩)

/-! ## Lists of lines -/

/-- The instructions of those lines that are not skipped. -/
inductive Reads : List String → List Instruction → Prop
  | nil : Reads [] []
  | skip {line : String} {lines : List String} {instructions : List Instruction}
      (blank : Blank line) (reads : Reads lines instructions) : Reads (line :: lines) instructions
  | read {line : String} {lines : List String} {instruction : Instruction}
      {instructions : List Instruction} (parses : parse line = .ok instruction)
      (reads : Reads lines instructions) : Reads (line :: lines) (instruction :: instructions)

/-- The first line that is neither skipped nor an instruction, with the number of lines before
it and the reason. -/
def FailsAfter (count : Nat) (lines : List String) (cause : ParseError) : Prop :=
  ∃ before line after, lines = before ++ line :: after ∧ before.length = count ∧
    (∀ earlier ∈ before, Passes earlier) ∧ ¬ Blank line ∧ parse line = .error cause

theorem failsAfter_zero (hblank : ¬ Blank line) (h : parse line = .error cause)
    (rest : List String) : FailsAfter 0 (line :: rest) cause :=
  ⟨[], line, rest, rfl, rfl, fun _ hmem => absurd hmem List.not_mem_nil, hblank, h⟩

theorem FailsAfter.cons {count : Nat} (hline : Passes line) (h : FailsAfter count rest cause) :
    FailsAfter (count + 1) (line :: rest) cause := by
  obtain ⟨before, failing, after, rfl, rfl, hbefore, hfailing⟩ := h
  exact ⟨line :: before, failing, after, rfl, rfl, List.forall_mem_cons.2 ⟨hline, hbefore⟩,
    hfailing⟩

/-- Either all lines are read, or one of them is the first that is not. -/
theorem reads_or_failsAfter (lines : List String) :
    (∃ instructions, Reads lines instructions) ∨ ∃ count cause, FailsAfter count lines cause := by
  induction lines with
  | nil => exact .inl ⟨[], .nil⟩
  | cons line rest ih =>
    rcases line_cases line with hblank | ⟨instruction, hparse⟩ | ⟨hblank, cause, hparse⟩
    · rcases ih with ⟨instructions, hreads⟩ | ⟨count, cause, hfails⟩
      · exact .inl ⟨instructions, .skip hblank hreads⟩
      · exact .inr ⟨count + 1, cause, hfails.cons (.inl hblank)⟩
    · rcases ih with ⟨instructions, hreads⟩ | ⟨count, cause, hfails⟩
      · exact .inl ⟨instruction :: instructions, .read hparse hreads⟩
      · exact .inr ⟨count + 1, cause, hfails.cons (.inr ⟨instruction, hparse⟩)⟩
    · exact .inr ⟨0, cause, failsAfter_zero hblank hparse rest⟩

theorem parseLines_of_reads (h : Reads lines instructions) (number : Nat) :
    parseLines number lines = .ok instructions := by
  induction h generalizing number with
  | nil => rfl
  | skip hblank _ ih => rw [parseLines_blank hblank, ih]
  | read hparse _ ih => rw [parseLines_ok hparse, ih]; rfl

theorem parseLines_of_passes {e : AssembleError} (hline : Passes line)
    (h : parseLines (number + 1) rest = .error e) :
    parseLines number (line :: rest) = .error e := by
  rcases hline with hblank | ⟨instruction, hparse⟩
  · rw [parseLines_blank hblank, h]
  · rw [parseLines_ok hparse, map_eq_error, h]

theorem parseLines_of_failsAfter {count : Nat} (h : FailsAfter count lines cause)
    (number : Nat) : parseLines number lines = .error ⟨number + count, cause⟩ := by
  obtain ⟨before, failing, after, rfl, rfl, hbefore, hblank, hparse⟩ := h
  -- each line before the failing one moves its number on by one
  induction before generalizing number with
  | nil => exact parseLines_error hblank hparse number after
  | cons line before ih =>
    obtain ⟨hline, hothers⟩ := List.forall_mem_cons.1 hbefore
    have hrest := ih (number + 1) hothers
    rw [Nat.add_assoc, Nat.add_comm 1] at hrest
    exact parseLines_of_passes hline hrest

theorem parseLines_eq_ok : parseLines number lines = .ok instructions ↔
    Reads lines instructions := by
  constructor
  · intro h
    rcases reads_or_failsAfter lines with ⟨others, hreads⟩ | ⟨count, cause, hfails⟩
    · rw [parseLines_of_reads hreads] at h
      exact Except.ok.inj h ▸ hreads
    · cases h.symm.trans (parseLines_of_failsAfter hfails number)
  · intro h
    exact parseLines_of_reads h number

theorem parseLines_eq_error {e : AssembleError} : parseLines number lines = .error e ↔
    ∃ count, FailsAfter count lines e.cause ∧ e.line = number + count := by
  constructor
  · intro h
    rcases reads_or_failsAfter lines with ⟨others, hreads⟩ | ⟨count, cause, hfails⟩
    · cases h.symm.trans (parseLines_of_reads hreads number)
    · rw [parseLines_of_failsAfter hfails] at h
      obtain rfl := Except.error.inj h
      exact ⟨count, hfails, rfl⟩
  · rintro ⟨count, hfails, hline⟩
    rw [parseLines_of_failsAfter hfails, ← hline]

theorem forall_passes_of_reads (h : Reads lines instructions) : ∀ line ∈ lines, Passes line := by
  induction h with
  | nil => exact fun _ hmem => absurd hmem List.not_mem_nil
  | skip hblank _ ih => exact List.forall_mem_cons.2 ⟨.inl hblank, ih⟩
  | read hparse _ ih => exact List.forall_mem_cons.2 ⟨.inr ⟨_, hparse⟩, ih⟩

theorem exists_reads_iff :
    (∃ instructions, Reads lines instructions) ↔ ∀ line ∈ lines, Passes line := by
  constructor
  · rintro ⟨instructions, hreads⟩
    exact forall_passes_of_reads hreads
  · intro h
    rcases reads_or_failsAfter lines with hreads | ⟨_, _, _, line, _, rfl, -, -, hblank, hparse⟩
    · exact hreads
    · rcases h line (by simp) with hskipped | ⟨instruction, hok⟩
      · exact absurd hskipped hblank
      · cases hparse.symm.trans hok

/-! ## Lists put together -/

theorem Reads.append {others : List String} {instructions' : List Instruction}
    (h : Reads lines instructions) (h' : Reads others instructions') :
    Reads (lines ++ others) (instructions ++ instructions') := by
  induction h with
  | nil => exact h'
  | skip hblank _ ih => exact .skip hblank ih
  | read hparse _ ih => exact .read hparse ih

theorem FailsAfter.append {count : Nat} (h : FailsAfter count lines cause)
    (others : List String) : FailsAfter count (lines ++ others) cause := by
  obtain ⟨before, failing, after, rfl, rfl, hfails⟩ := h
  exact ⟨before, failing, after ++ others, by simp, rfl, hfails⟩

theorem FailsAfter.append_left {count : Nat} {others : List String}
    (hlines : ∀ line ∈ lines, Passes line) (h : FailsAfter count others cause) :
    FailsAfter (lines.length + count) (lines ++ others) cause := by
  obtain ⟨before, failing, after, rfl, rfl, hbefore, hfails⟩ := h
  refine ⟨lines ++ before, failing, after, by simp, by simp, ?_, hfails⟩
  exact List.forall_mem_append.2 ⟨hlines, hbefore⟩

theorem assemble_eq_ok :
    assemble lines = .ok code ↔ ∃ instructions, Reads lines instructions ∧
      code = instructions.flatMap encode := by
  rw [assemble, map_eq_ok]
  simp only [parseLines_eq_ok, encodeAll]
  constructor
  · rintro ⟨instructions, hcode, hreads⟩
    exact ⟨instructions, hreads, hcode.symm⟩
  · rintro ⟨instructions, hreads, hcode⟩
    exact ⟨instructions, hcode.symm, hreads⟩

theorem assemble_eq_error {e : AssembleError} :
    assemble lines = .error e ↔ ∃ count, FailsAfter count lines e.cause ∧ e.line = count + 1 := by
  rw [assemble, map_eq_error, parseLines_eq_error]
  simp only [Nat.add_comm 1]

/-- Lines are assembled one by one. Assembly succeeds exactly if every line that is not blank
is an instruction, and then gives the codes of these instructions one after the other. It
fails otherwise, with the number of the first line that is none, counted from one over all
lines, and with what is wrong there, which is never that the line is empty. Lists of
lines put together give the code of both. If the first list fails they fail as it does, and if
only the second does they fail as it does so many lines later. -/
theorem assemble_homomorphic :
    (∀ lines, (∃ code, assemble lines = .ok code) ↔
      ∀ line ∈ lines, ¬ Blank line → ∃ instruction, parse line = .ok instruction) ∧
    (∀ lines code, assemble lines = .ok code ↔
      ∃ instructions, Reads lines instructions ∧ code = instructions.flatMap encode) ∧
    (∀ lines e, assemble lines = .error e ↔
      ∃ count, FailsAfter count lines e.cause ∧ e.line = count + 1) ∧
    (∀ first second code code', assemble first = .ok code → assemble second = .ok code' →
      assemble (first ++ second) = .ok (code ++ code')) ∧
    (∀ first second e, assemble first = .error e → assemble (first ++ second) = .error e) ∧
    (∀ first second code e, assemble first = .ok code → assemble second = .error e →
      assemble (first ++ second) = .error ⟨e.line + first.length, e.cause⟩) ∧
    (∀ lines e, assemble lines = .error e → e.cause ≠ .empty) := by
  refine ⟨?_, fun _ _ => assemble_eq_ok, fun _ _ => assemble_eq_error, ?_, ?_, ?_, ?_⟩
  · intro lines
    have hreads : (∃ code, assemble lines = .ok code) ↔
        ∃ instructions, Reads lines instructions := by
      constructor
      · rintro ⟨code, hcode⟩
        obtain ⟨instructions, hreads, -⟩ := assemble_eq_ok.1 hcode
        exact ⟨instructions, hreads⟩
      · rintro ⟨instructions, hreads⟩
        exact ⟨_, assemble_eq_ok.2 ⟨instructions, hreads, rfl⟩⟩
    rw [hreads, exists_reads_iff]
    simp only [Passes, or_iff_not_imp_left]
  · intro first second code code' hfirst hsecond
    obtain ⟨instructions, hreads, rfl⟩ := assemble_eq_ok.1 hfirst
    obtain ⟨instructions', hreads', rfl⟩ := assemble_eq_ok.1 hsecond
    exact assemble_eq_ok.2 ⟨_, hreads.append hreads', by rw [List.flatMap_append]⟩
  · intro first second e hfirst
    obtain ⟨count, hfails, hline⟩ := assemble_eq_error.1 hfirst
    exact assemble_eq_error.2 ⟨count, hfails.append second, hline⟩
  · intro first second code e hfirst hsecond
    obtain ⟨instructions, hreads, -⟩ := assemble_eq_ok.1 hfirst
    obtain ⟨count, hfails, hline⟩ := assemble_eq_error.1 hsecond
    apply assemble_eq_error.2
    refine ⟨_, hfails.append_left (forall_passes_of_reads hreads), ?_⟩
    change e.line + first.length = first.length + count + 1
    omega
  · intro lines e h hempty
    obtain ⟨_, ⟨_, line, _, -, -, -, hblank, hparse⟩, -⟩ := assemble_eq_error.1 h
    exact hblank (parse_eq_empty_iff.1 (hempty ▸ hparse))

/-- The skipped lines of both lists count, the one with a wide blank and the one with a
comment. -/
theorem assemble_homomorphic_unknown :
    assemble ["\u3000", "nop"] = .ok [1] ∧
    assemble (["\u3000", "nop"] ++ ["; done", "bogus"]) =
      .error ⟨4, .unknownMnemonic "bogus"⟩ := by
  have hfirst : assemble ["\u3000", "nop"] = .ok [1] := by decide
  have hsecond : assemble ["; done", "bogus"] = .error ⟨2, .unknownMnemonic "bogus"⟩ := by decide
  obtain ⟨-, -, -, -, -, hlater, -⟩ := assemble_homomorphic
  exact ⟨hfirst, hlater _ _ _ _ hfirst hsecond⟩

end Instruction

end TypedStack
