import Mathlib.Logic.Function.Iterate
import TypedStack.Proofs.Instruction.Forms
import TypedStack.Proofs.Listing

/-!
# Encoded instruction streams

The code of a sequence of instructions is listed as that sequence, a cursor returns
it, and an encoded instruction is decoded wherever it stands. In the other direction,
the instructions of a listing have a code of their own. It is the shortest that lists
them, and it is the listed code itself unless a line spends `wide` on a slot that fits
one byte.
-/

namespace TypedStack

namespace Instruction

theorem encode_ne_nil (instruction : Instruction) : instruction.encode ≠ [] := by
  rw [encode_eq_form]
  cases instruction.takesWide <;> simp [form]

@[simp] theorem encodeAll_nil : encodeAll [] = [] := rfl

@[simp] theorem encodeAll_cons (instruction : Instruction) (rest : List Instruction) :
    encodeAll (instruction :: rest) = instruction.encode ++ encodeAll rest :=
  List.flatMap_cons

theorem encodeAll_append (first second : List Instruction) :
    encodeAll (first ++ second) = encodeAll first ++ encodeAll second :=
  List.flatMap_append

/-- An encoded instruction is decoded wherever it stands. -/
theorem decodeAt_encode (before : Bytes) (instruction : Instruction) (behind : Bytes) :
    decodeAt (before ++ instruction.encode ++ behind) before.length =
      .ok (instruction, before.length + instruction.encode.length) := by
  rw [decodeAt_eq_ok]
  refine ⟨instruction.encode.length, ?_, rfl⟩
  rw [List.append_assoc, List.drop_left]
  exact read_encode_append _ _ _

end Instruction

open Instruction

namespace Listing

/-- The instructions of the lines. -/
def instructions (listing : Listing) : List Instruction :=
  listing.lines.map (·.instruction)

/-! ## From instructions to code and back -/

theorem ofSuffix_encode_append (offset : Nat) (instruction : Instruction) (rest : Bytes) :
    ofSuffix offset (instruction.encode ++ rest) =
      ⟨⟨offset, instruction.encode, instruction⟩ ::
          (ofSuffix (offset + instruction.encode.length) rest).lines,
        (ofSuffix (offset + instruction.encode.length) rest).error⟩ := by
  have hnil : instruction.encode ++ rest ≠ [] :=
    List.append_ne_nil_of_left_ne_nil (encode_ne_nil instruction) rest
  rw [ofSuffix_of_ok hnil (read_encode_append offset instruction rest), List.take_left,
    List.drop_left]

theorem ofSuffix_encodeAll (offset : Nat) (instructions : List Instruction) :
    (ofSuffix offset (encodeAll instructions)).error = none ∧
      (ofSuffix offset (encodeAll instructions)).instructions = instructions := by
  induction instructions generalizing offset with
  | nil =>
    rw [encodeAll_nil, ofSuffix_nil]
    exact ⟨rfl, rfl⟩
  | cons instruction rest ih =>
    obtain ⟨herror, hrest⟩ := ih (offset + instruction.encode.length)
    rw [encodeAll_cons, ofSuffix_encode_append]
    exact ⟨herror, congrArg (instruction :: ·) hrest⟩

theorem items_ofSuffix_encodeAll (offset : Nat) (instructions : List Instruction) :
    (ofSuffix offset (encodeAll instructions)).items =
      instructions.mapIdx fun k instruction =>
        .ok (offset + (encodeAll (instructions.take k)).length, instruction) := by
  induction instructions generalizing offset with
  | nil =>
    rw [encodeAll_nil, ofSuffix_nil]
    rfl
  | cons instruction rest ih =>
    have hitems := ih (offset + instruction.encode.length)
    simp only [items] at hitems
    rw [encodeAll_cons, ofSuffix_encode_append, List.mapIdx_cons]
    simp [items, hitems, Nat.add_assoc]

end Listing

namespace Cursor

theorem next_encodeAll (instructions : List Instruction) (k : Nat) :
    next ⟨encodeAll instructions, (encodeAll (instructions.take k)).length⟩ =
      (.ok instructions[k]?,
        ⟨encodeAll instructions, (encodeAll (instructions.take (k + 1))).length⟩) := by
  cases hk : instructions[k]? with
  | none =>
    have hlength := List.getElem?_eq_none_iff.1 hk
    rw [List.take_of_length_le hlength, List.take_of_length_le (Nat.le_succ_of_le hlength)]
    simp [next, atEnd]
  | some instruction =>
    have htake : encodeAll (instructions.take (k + 1)) =
        encodeAll (instructions.take k) ++ instruction.encode := by
      simp [List.take_add_one, hk, encodeAll_append]
    have hcode : encodeAll instructions =
        encodeAll (instructions.take k) ++ instruction.encode ++
          encodeAll (instructions.drop (k + 1)) := by
      rw [← htake, ← encodeAll_append, List.take_append_drop]
    have hdecode := decodeAt_encode (encodeAll (instructions.take k)) instruction
      (encodeAll (instructions.drop (k + 1)))
    rw [← hcode] at hdecode
    have hend : ¬(encodeAll instructions).length ≤ (encodeAll (instructions.take k)).length := by
      have hpast := lt_of_decodeAt hdecode
      have hlength := le_length_of_decodeAt hdecode
      omega
    simp [next, atEnd, hend, hdecode, htake]

/-- The cursor after a number of calls. -/
def after (calls : Nat) (cursor : Cursor) : Cursor :=
  (fun cursor : Cursor => cursor.next.2)^[calls] cursor

theorem after_encodeAll (instructions : List Instruction) (k : Nat) :
    (start (encodeAll instructions)).after k =
      ⟨encodeAll instructions, (encodeAll (instructions.take k)).length⟩ := by
  induction k with
  | zero => rfl
  | succ k ih =>
    rw [after, Function.iterate_succ_apply', ← after, ih, next_encodeAll]

end Cursor

namespace Listing

/-! ## From code to instructions and back -/

/-- The bytes of a line are a form of its instruction. -/
def Line.Spelled (line : Line) : Prop :=
  ∃ wide, line.instruction.HasForm wide ∧ line.bytes = line.instruction.form wide

theorem spelled_of_mem
    {offset : Nat} {bytes : Bytes} {line : Line}
    (h : line ∈ (ofSuffix offset bytes).lines) : line.Spelled := by
  induction offset, bytes using ofSuffix.induct with
  | case1 offset =>
    rw [ofSuffix_nil] at h
    simp at h
  | case2 offset bytes hnil e hread =>
    rw [ofSuffix_of_error hnil hread] at h
    simp at h
  | case3 offset bytes hnil instruction size hread _ ih =>
    rw [ofSuffix_of_ok hnil hread] at h
    rcases List.mem_cons.1 h with rfl | hrest
    · obtain ⟨wide, hform, rfl, hbytes⟩ := read_eq_ok_iff_form.1 hread
      exact ⟨wide, hform, (List.prefix_iff_eq_take.1 hbytes).symm⟩
    · exact ih hrest

theorem spelled_ofCode (code : Bytes) : ∀ line ∈ (ofCode code).lines, line.Spelled := by
  intro line hline
  exact spelled_of_mem hline

section Lines

variable {lines : List Line}

theorem length_encodeAll_le (h : ∀ line ∈ lines, line.Spelled) :
    (encodeAll (lines.map (·.instruction))).length ≤ (lines.flatMap (·.bytes)).length := by
  induction lines with
  | nil => exact Nat.le_refl _
  | cons line rest ih =>
    obtain ⟨wide, hform, hbytes⟩ := h line List.mem_cons_self
    have hline := length_encode_le hform
    have hrest := ih fun other hother => h other (List.mem_cons_of_mem _ hother)
    rw [List.map_cons, encodeAll_cons, List.flatMap_cons, List.length_append,
      List.length_append, hbytes]
    omega

/-- Lines are spelled as their instructions are encoded exactly if none of them is
redundant. No line is shorter than the code of its instruction, so nothing makes
up for the bytes that a redundant one has too many. -/
theorem encodeAll_eq_flatMap_bytes_iff (h : ∀ line ∈ lines, line.Spelled) :
    encodeAll (lines.map (·.instruction)) = lines.flatMap (·.bytes) ↔
      ∀ line ∈ lines, ¬line.instruction.Redundant line.bytes := by
  induction lines with
  | nil => simp
  | cons line rest ih =>
    have hspelled : ∀ other ∈ rest, other.Spelled := fun other hother =>
      h other (List.mem_cons_of_mem _ hother)
    obtain ⟨wide, hform, hbytes⟩ := h line List.mem_cons_self
    rw [List.forall_mem_cons, ← ih hspelled, List.map_cons, encodeAll_cons, List.flatMap_cons,
      hbytes]
    constructor
    · intro heq
      have hline : ¬line.instruction.Redundant (line.instruction.form wide) := by
        intro hredundant
        have hlonger := length_encode_lt hform hredundant
        have hrest := length_encodeAll_le hspelled
        have hlength := congrArg List.length heq
        rw [List.length_append, List.length_append] at hlength
        omega
      rw [form_of_not_redundant hform hline] at heq
      exact ⟨hline, List.append_cancel_left heq⟩
    · rintro ⟨hline, hrest⟩
      rw [form_of_not_redundant hform hline, hrest]

end Lines

/-- The instructions of code that can be listed to its end have a code that lists
them again, none that does is shorter, and it is the listed code exactly if no line
starts with `wide` for a slot of one byte. -/
theorem reencoded_shortest {code : Bytes} (h : (ofCode code).error = none) :
    ((ofCode (encodeAll (ofCode code).instructions)).error = none ∧
        (ofCode (encodeAll (ofCode code).instructions)).instructions =
          (ofCode code).instructions) ∧
      (∀ other, (ofCode other).error = none →
        (ofCode other).instructions = (ofCode code).instructions →
        (encodeAll (ofCode code).instructions).length ≤ other.length) ∧
      (encodeAll (ofCode code).instructions = code ↔
        ∀ line ∈ (ofCode code).lines, ¬line.instruction.Redundant line.bytes) := by
  refine ⟨ofSuffix_encodeAll 0 _, ?_, ?_⟩
  · intro other hother hsame
    have hlength := length_encodeAll_le (spelled_ofCode other)
    rw [flatMap_bytes_ofCode hother] at hlength
    rw [← hsame]
    exact hlength
  · have hiff := encodeAll_eq_flatMap_bytes_iff (spelled_ofCode code)
    rwa [flatMap_bytes_ofCode h] at hiff

/-- Code that spends `wide` on slot 5 and needs it for slot 256. -/
theorem reencoded_shortest_idle_wide :
    (ofCode [0, 3, 5, 0, 0, 7, 0, 1, 13]).error = none ∧
      encodeAll (ofCode [0, 3, 5, 0, 0, 7, 0, 1, 13]).instructions ≠
        [0, 3, 5, 0, 0, 7, 0, 1, 13] ∧
      ∀ other, (ofCode other).error = none →
        (ofCode other).instructions = [.loadArg 5, .pushLocal 256, .ret] → 7 ≤ other.length := by
  have hlisting : ofCode [0, 3, 5, 0, 0, 7, 0, 1, 13] =
      ⟨[⟨0, [0, 3, 5, 0], .loadArg 5⟩, ⟨4, [0, 7, 0, 1], .pushLocal 256⟩, ⟨8, [13], .ret⟩],
        none⟩ := by
    cbv
  have herror : (ofCode [0, 3, 5, 0, 0, 7, 0, 1, 13]).error = none := by
    rw [hlisting]
  obtain ⟨-, hshortest, hcode⟩ := reencoded_shortest herror
  refine ⟨herror, ?_, ?_⟩
  · rw [Ne, hcode, hlisting]
    decide
  · rw [hlisting] at hshortest
    exact hshortest

end Listing

end TypedStack
