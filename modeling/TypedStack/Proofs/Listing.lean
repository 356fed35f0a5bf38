import Mathlib.Algebra.Ring.Nat
import TypedStack.Listing

/-!
# Boundaries of a listing

A listing goes through code from its start, so the offsets of its lines, and the
one where it stops, are the only places at which decoding from the start can
arrive. `IsBoundary` says so of an offset. Boundaries are closed under decoding,
an instruction decoded at one is that of a line, and nothing can be decoded where
the listing stops.
-/

namespace TypedStack

namespace Listing

open Instruction

/-- The number of bytes that the lines take. A listing of code from its start
stops at this offset. -/
def stop (listing : Listing) : Nat :=
  (listing.lines.map fun line => line.bytes.length).sum

/-- An offset where a line starts or the listing stops. -/
def IsBoundary (listing : Listing) (offset : Nat) : Prop :=
  (∃ line ∈ listing.lines, line.offset = offset) ∨ offset = listing.stop

section Suffix

variable {code bytes : Bytes} {offset : Nat}

theorem ofSuffix_nil : ofSuffix offset [] = ⟨[], none⟩ := by
  rw [ofSuffix]
  simp

theorem ofSuffix_of_error
    {e : DecodeError} (hnil : bytes ≠ []) (h : read offset bytes = .error e) :
    ofSuffix offset bytes = ⟨[], some e⟩ := by
  rw [ofSuffix, dif_neg hnil]
  split <;> simp_all

theorem ofSuffix_of_ok
    {instruction : Instruction} {size : Nat}
    (hnil : bytes ≠ []) (h : read offset bytes = .ok (instruction, size)) :
    ofSuffix offset bytes =
      ⟨⟨offset, bytes.take size, instruction⟩ ::
          (ofSuffix (offset + size) (bytes.drop size)).lines,
        (ofSuffix (offset + size) (bytes.drop size)).error⟩ := by
  rw [ofSuffix, dif_neg hnil]
  split
  · simp_all
  · rename_i found length hfound
    obtain ⟨rfl, rfl⟩ := Prod.mk.inj (Except.ok.inj (h.symm.trans hfound))
    rfl

theorem ofSuffix_cons_stop
    {instruction : Instruction} {size : Nat}
    (hnil : bytes ≠ []) (h : read offset bytes = .ok (instruction, size)) :
    (ofSuffix offset bytes).stop =
      size + (ofSuffix (offset + size) (bytes.drop size)).stop := by
  simp only [ofSuffix_of_ok hnil h, stop, List.map_cons, List.sum_cons, List.length_take,
    Nat.min_eq_left (read_size_le h)]

/-- The lines take the bytes up to where the listing stops. -/
theorem flatMap_bytes_ofSuffix (offset : Nat) (bytes : Bytes) :
    (ofSuffix offset bytes).lines.flatMap (·.bytes) =
      bytes.take (ofSuffix offset bytes).stop := by
  induction offset, bytes using ofSuffix.induct with
  | case1 offset =>
    rw [ofSuffix_nil]
    rfl
  | case2 offset bytes hnil e hread =>
    rw [ofSuffix_of_error hnil hread]
    rfl
  | case3 offset bytes hnil instruction size hread _ ih =>
    rw [ofSuffix_cons_stop hnil hread, ofSuffix_of_ok hnil hread, List.flatMap_cons, ih,
      List.take_add]

/-- The first line of a listing starts where the listing does. -/
theorem ofSuffix_starts (offset : Nat) (bytes : Bytes) :
    (∃ line ∈ (ofSuffix offset bytes).lines, line.offset = offset) ∨
      (ofSuffix offset bytes).stop = 0 := by
  by_cases hnil : bytes = []
  · rw [hnil, ofSuffix_nil]
    exact .inr rfl
  · cases hread : read offset bytes with
    | error e =>
      rw [ofSuffix_of_error hnil hread]
      exact .inr rfl
    | ok found =>
      rw [ofSuffix_of_ok hnil hread]
      exact .inl ⟨_, List.mem_cons_self, rfl⟩

/-- A line decodes, and behind it there is another line or the listing stops. -/
theorem line_of_ofSuffix
    {line : Line} (hbytes : code.drop offset = bytes)
    (hline : line ∈ (ofSuffix offset bytes).lines) :
    decodeAt code line.offset =
        .ok (line.instruction, line.offset + line.bytes.length) ∧
      ((∃ next ∈ (ofSuffix offset bytes).lines,
          next.offset = line.offset + line.bytes.length) ∨
        line.offset + line.bytes.length = offset + (ofSuffix offset bytes).stop) := by
  induction offset, bytes using ofSuffix.induct with
  | case1 offset =>
    rw [ofSuffix_nil] at hline
    simp at hline
  | case2 offset bytes hnil e hread =>
    rw [ofSuffix_of_error hnil hread] at hline
    simp at hline
  | case3 offset bytes hnil instruction size hread _ ih =>
    rw [ofSuffix_cons_stop hnil hread]
    rw [ofSuffix_of_ok hnil hread] at hline ⊢
    rcases List.mem_cons.1 hline with rfl | hline
    · have hlength : (bytes.take size).length = size := by
        rw [List.length_take, Nat.min_eq_left (read_size_le hread)]
      simp only [hlength]
      refine ⟨decodeAt_eq_ok.2 ⟨size, hbytes ▸ hread, rfl⟩, ?_⟩
      rcases ofSuffix_starts (offset + size) (bytes.drop size) with
        ⟨next, hnext, hoffset⟩ | hstop
      · exact .inl ⟨next, List.mem_cons_of_mem _ hnext, hoffset⟩
      · exact .inr (by omega)
    · obtain ⟨hdecode, hnext⟩ := ih (by rw [← hbytes, List.drop_drop]) hline
      refine ⟨hdecode, ?_⟩
      rcases hnext with ⟨next, hnext, hoffset⟩ | hstop
      · exact .inl ⟨next, List.mem_cons_of_mem _ hnext, hoffset⟩
      · exact .inr (by omega)

/-- A listing stops at the end of the code, or where nothing can be decoded. -/
theorem stop_of_ofSuffix
    (hbytes : code.drop offset = bytes) (hoffset : offset ≤ code.length) :
    ((ofSuffix offset bytes).error = none →
      offset + (ofSuffix offset bytes).stop = code.length) ∧
    ∀ e, (ofSuffix offset bytes).error = some e →
      offset + (ofSuffix offset bytes).stop < code.length ∧
        decodeAt code (offset + (ofSuffix offset bytes).stop) = .error e := by
  induction offset, bytes using ofSuffix.induct with
  | case1 offset =>
    rw [ofSuffix_nil]
    have hlength := List.drop_eq_nil_iff.1 hbytes
    exact ⟨fun _ => Nat.le_antisymm hoffset hlength, by simp⟩
  | case2 offset bytes hnil e hread =>
    rw [ofSuffix_of_error hnil hread]
    refine ⟨by simp, ?_⟩
    rintro _ ⟨⟩
    refine ⟨?_, decodeAt_eq_error.2 (hbytes ▸ hread)⟩
    exact Nat.lt_of_not_le fun hlength => hnil (hbytes ▸ List.drop_eq_nil_iff.2 hlength)
  | case3 offset bytes hnil instruction size hread _ ih =>
    have hsize := read_size_le hread
    rw [← hbytes, List.length_drop] at hsize
    have hrest := ih (by rw [← hbytes, List.drop_drop]) (by omega)
    rw [ofSuffix_cons_stop hnil hread, ← Nat.add_assoc]
    rw [ofSuffix_of_ok hnil hread]
    exact hrest

end Suffix

/-! ## Listings of whole code -/

section

variable {code : Bytes} {pc next : Nat} {instruction : Instruction} {e : DecodeError}

theorem decodeAt_of_mem {line : Line} (h : line ∈ (ofCode code).lines) :
    decodeAt code line.offset =
      .ok (line.instruction, line.offset + line.bytes.length) :=
  (line_of_ofSuffix List.drop_zero h).1

theorem isBoundary_zero (code : Bytes) : (ofCode code).IsBoundary 0 := by
  rcases ofSuffix_starts 0 code with hline | hstop
  · exact .inl hline
  · exact .inr hstop.symm

theorem stop_eq_length (h : (ofCode code).error = none) :
    (ofCode code).stop = code.length := by
  have hstop := (stop_of_ofSuffix List.drop_zero (Nat.zero_le _)).1 h
  rwa [Nat.zero_add] at hstop

theorem flatMap_bytes_ofCode (h : (ofCode code).error = none) :
    (ofCode code).lines.flatMap (·.bytes) = code := by
  have hbytes := flatMap_bytes_ofSuffix 0 code
  have hstop : (ofSuffix 0 code).stop = code.length := stop_eq_length h
  rwa [hstop, List.take_length] at hbytes

theorem decodeAt_stop (h : (ofCode code).error = some e) :
    (ofCode code).stop < code.length ∧ decodeAt code (ofCode code).stop = .error e := by
  have hstop := (stop_of_ofSuffix List.drop_zero (Nat.zero_le _)).2 e h
  rwa [Nat.zero_add] at hstop

/-- An instruction decoded at a boundary is that of a line. -/
theorem IsBoundary.exists_line
    (h : (ofCode code).IsBoundary pc) (hdecode : decodeAt code pc = .ok (instruction, next)) :
    ∃ line ∈ (ofCode code).lines, line.offset = pc ∧ line.instruction = instruction ∧
      line.offset + line.bytes.length = next := by
  rcases h with ⟨line, hline, rfl⟩ | rfl
  · have hsame := Except.ok.inj ((decodeAt_of_mem hline).symm.trans hdecode)
    obtain ⟨hinstruction, hnext⟩ := Prod.mk.inj hsame
    exact ⟨line, hline, rfl, hinstruction, hnext⟩
  · -- nothing is decoded where the listing stops
    cases herror : (ofCode code).error with
    | none =>
      have hpast := lt_of_decodeAt hdecode
      have hlength := le_length_of_decodeAt hdecode
      rw [stop_eq_length herror] at hpast
      exact absurd hlength (Nat.not_le_of_lt hpast)
    | some e =>
      rw [(decodeAt_stop herror).2] at hdecode
      simp at hdecode

/-- Decoding leads from a boundary to a boundary. -/
theorem IsBoundary.of_decodeAt
    (h : (ofCode code).IsBoundary pc) (hdecode : decodeAt code pc = .ok (instruction, next)) :
    (ofCode code).IsBoundary next := by
  obtain ⟨line, hline, -, -, rfl⟩ := h.exists_line hdecode
  rcases (line_of_ofSuffix List.drop_zero hline).2 with hnext | hstop
  · exact .inl hnext
  · rw [Nat.zero_add] at hstop
    exact .inr hstop

theorem IsBoundary.le_length (h : (ofCode code).IsBoundary pc) : pc ≤ code.length := by
  rcases h with ⟨line, hline, rfl⟩ | rfl
  · have hend := le_length_of_decodeAt (decodeAt_of_mem hline)
    omega
  · cases herror : (ofCode code).error with
    | none => exact Nat.le_of_eq (stop_eq_length herror)
    | some e => exact Nat.le_of_lt (decodeAt_stop herror).1

/-- The only boundary within the code at which nothing can be decoded is where
the listing stops with an error. -/
theorem IsBoundary.eq_stop
    (h : (ofCode code).IsBoundary pc) (hpc : pc < code.length)
    (hdecode : decodeAt code pc = .error e) :
    pc = (ofCode code).stop ∧ (ofCode code).error = some e := by
  rcases h with ⟨line, hline, rfl⟩ | rfl
  · rw [decodeAt_of_mem hline] at hdecode
    simp at hdecode
  · refine ⟨rfl, ?_⟩
    cases herror : (ofCode code).error with
    | none => exact absurd (stop_eq_length herror) (Nat.ne_of_lt hpc)
    | some found =>
      rw [(decodeAt_stop herror).2] at hdecode
      rw [Except.error.inj hdecode]

end

end Listing

end TypedStack
