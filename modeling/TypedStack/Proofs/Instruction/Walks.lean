import TypedStack.Proofs.Instruction.Stream

/-!
# Walks through code

Code can be listed at once, pulled item by item, or asked for its next instruction
again and again. On any bytes the three agree, although they differ in what they do
about an error: the listing keeps it, pulling gives it once and goes to the end of
the code, and asking gives it again and again from the same place.

From every place on there is a rest of the code to be listed. Asking takes the first
line off the rest and leaves its error, and pulling takes the first item. So what a
number of calls returns is read off the listing of the whole code, and encoded
instructions come back on all three ways.
-/

namespace TypedStack

open Instruction

/-! ## Lines -/

namespace Listing

variable {code bytes : Bytes} {offset : Nat}

theorem Line.Spelled.decodeAt_bytes {line : Line} (h : line.Spelled) :
    decodeAt line.bytes 0 = .ok (line.instruction, line.bytes.length) := by
  obtain ⟨wide, hform, hbytes⟩ := h
  have hread : read 0 line.bytes = .ok (line.instruction, line.bytes.length) :=
    read_eq_ok_iff_form.2 ⟨wide, hform, by rw [hbytes], hbytes ▸ List.prefix_refl _⟩
  exact decodeAt_eq_ok.2 ⟨line.bytes.length, hread, (Nat.zero_add _).symm⟩

/-- No instruction has more bytes than reading looks at. -/
theorem Line.Spelled.length_le {line : Line} (h : line.Spelled) :
    line.bytes.length ≤ maxSize := by
  obtain ⟨size, hread, hsize⟩ := decodeAt_eq_ok.1 h.decodeAt_bytes
  rw [← read_take_maxSize] at hread
  have hle := read_size_le hread
  rw [List.length_take] at hle
  omega

/-- The lines of a listing start where it starts or behind, one behind the other. -/
theorem offsets_ofSuffix (offset : Nat) (bytes : Bytes) :
    (∀ line ∈ (ofSuffix offset bytes).lines, offset ≤ line.offset) ∧
      (ofSuffix offset bytes).lines.Pairwise (·.offset < ·.offset) := by
  induction offset, bytes using ofSuffix.induct with
  | case1 offset =>
    rw [ofSuffix_nil]
    exact ⟨by simp, .nil⟩
  | case2 offset bytes hnil e hread =>
    rw [ofSuffix_of_error hnil hread]
    exact ⟨by simp, .nil⟩
  | case3 offset bytes hnil instruction size hread _ ih =>
    obtain ⟨hbehind, hincreasing⟩ := ih
    have hsize := read_size_pos hread
    rw [ofSuffix_of_ok hnil hread]
    constructor
    · refine List.forall_mem_cons.2 ⟨Nat.le_refl _, fun line hline => ?_⟩
      have hoffset := hbehind line hline
      omega
    · refine List.pairwise_cons.2 ⟨fun line hline => ?_, hincreasing⟩
      have hoffset := hbehind line hline
      show offset < line.offset
      omega

end Listing

/-! ## The rest of a walk -/

namespace Cursor

variable {cursor : Cursor}

/-- The listing of the code from a place on. -/
def rest (cursor : Cursor) : Listing :=
  .ofSuffix cursor.position (cursor.code.drop cursor.position)

theorem rest_of_atEnd (h : cursor.code.length ≤ cursor.position) :
    cursor.rest = ⟨[], none⟩ := by
  rw [rest, List.drop_eq_nil_iff.2 h, Listing.ofSuffix_nil]

theorem drop_position_ne_nil (h : cursor.position < cursor.code.length) :
    cursor.code.drop cursor.position ≠ [] := by
  simpa using h

/-- The ways in which a call can end: at the end of the code, at what is no
instruction, or behind the first line of the rest. -/
inductive Called (cursor : Cursor) : Prop where
  | ended (next_eq : cursor.next = (.ok none, cursor)) (rest_eq : cursor.rest = ⟨[], none⟩)
  | stopped {e : DecodeError} (next_eq : cursor.next = (.error e, cursor))
      (rest_eq : cursor.rest = ⟨[], some e⟩)
  | moved {line : Listing.Line} {after : Cursor}
      (next_eq : cursor.next = (.ok (some line.instruction), after))
      (offset_eq : line.offset = cursor.position)
      (position_eq : after.position = cursor.position + line.bytes.length)
      (rest_eq : cursor.rest = ⟨line :: after.rest.lines, after.rest.error⟩)

theorem called (cursor : Cursor) : cursor.Called := by
  by_cases hend : cursor.code.length ≤ cursor.position
  · exact .ended (next_of_atEnd hend) (rest_of_atEnd hend)
  · have hinside := Nat.lt_of_not_le hend
    have hnil := drop_position_ne_nil hinside
    cases hdecode : decodeAt cursor.code cursor.position with
    | error e =>
      have hread := decodeAt_eq_error.1 hdecode
      exact .stopped (next_of_error hinside hdecode) (Listing.ofSuffix_of_error hnil hread)
    | ok found =>
      obtain ⟨instruction, position⟩ := found
      obtain ⟨size, hread, rfl⟩ := decodeAt_eq_ok.1 hdecode
      have hlength : ((cursor.code.drop cursor.position).take size).length = size := by
        rw [List.length_take, Nat.min_eq_left (read_size_le hread)]
      have hrest := Listing.ofSuffix_of_ok hnil hread
      rw [List.drop_drop] at hrest
      exact .moved (next_of_ok hdecode) rfl (by rw [hlength]) hrest

/-! ## Asking -/

/-- What is returned where a listing starts. -/
def answer (listing : Listing) : Except DecodeError (Option Instruction) :=
  match listing.lines with
  | line :: _ => .ok (some line.instruction)
  | [] => listing.error.elim (.ok none) .error

/-- A call returns the first line of the rest and takes it off. -/
theorem next_rest (cursor : Cursor) :
    cursor.next.1 = answer cursor.rest ∧
      cursor.next.2.rest = ⟨cursor.rest.lines.tail, cursor.rest.error⟩ := by
  cases cursor.called with
  | ended next_eq rest_eq => simp [next_eq, rest_eq, answer]
  | stopped next_eq rest_eq => simp [next_eq, rest_eq, answer]
  | moved next_eq _ _ rest_eq => simp [next_eq, rest_eq, answer]

/-- A call does not change where the walk will stop. -/
theorem next_stop (cursor : Cursor) :
    cursor.next.2.position + cursor.next.2.rest.stop = cursor.position + cursor.rest.stop := by
  cases cursor.called with
  | ended next_eq _ => rw [next_eq]
  | stopped next_eq _ => rw [next_eq]
  | moved next_eq _ position_eq rest_eq =>
    rw [next_eq, rest_eq]
    simp only [position_eq, Listing.stop, List.map_cons, List.sum_cons]
    omega

theorem after_succ (cursor : Cursor) (k : Nat) :
    cursor.after (k + 1) = (cursor.after k).next.2 :=
  Function.iterate_succ_apply' _ _ _

theorem rest_after (cursor : Cursor) (k : Nat) :
    (cursor.after k).rest = ⟨cursor.rest.lines.drop k, cursor.rest.error⟩ := by
  induction k with
  | zero => rfl
  | succ k ih =>
    rw [after_succ, (cursor.after k).next_rest.2, ih]
    simp

theorem stop_after (cursor : Cursor) (k : Nat) :
    (cursor.after k).position + (cursor.after k).rest.stop =
      cursor.position + cursor.rest.stop := by
  induction k with
  | zero => rfl
  | succ k ih => rw [after_succ, next_stop, ih]

/-- The first line of the rest starts at the cursor. -/
theorem offset_of_rest
    {line : Listing.Line} {lines : List Listing.Line} (h : cursor.rest.lines = line :: lines) :
    line.offset = cursor.position := by
  cases cursor.called with
  | ended _ rest_eq => simp [rest_eq] at h
  | stopped _ rest_eq => simp [rest_eq] at h
  | moved _ offset_eq _ rest_eq =>
    simp only [rest_eq, List.cons.injEq] at h
    rw [← h.1, offset_eq]

theorem after_of_line
    {k : Nat} {line : Listing.Line} (h : cursor.rest.lines[k]? = some line) :
    (cursor.after k).position = line.offset ∧
      (cursor.after k).next.1 = .ok (some line.instruction) := by
  have hlines : (cursor.after k).rest.lines = line :: cursor.rest.lines.drop (k + 1) := by
    obtain ⟨hk, rfl⟩ := List.getElem?_eq_some_iff.1 h
    rw [rest_after, List.drop_eq_getElem_cons hk]
  refine ⟨(offset_of_rest hlines).symm, ?_⟩
  rw [(next_rest _).1, answer, hlines]

theorem after_of_length_le {k : Nat} (h : cursor.rest.lines.length ≤ k) :
    (cursor.after k).position = cursor.position + cursor.rest.stop ∧
      (cursor.after k).next.1 = cursor.rest.error.elim (.ok none) .error := by
  have hrest : (cursor.after k).rest = ⟨[], cursor.rest.error⟩ := by
    rw [rest_after, List.drop_eq_nil_of_le h]
  have hstop := cursor.stop_after k
  rw [hrest] at hstop
  refine ⟨hstop, ?_⟩
  rw [(next_rest _).1, answer, hrest]

/-! ## Pulling -/

/-- The cursor after a number of items were pulled. -/
def afterItems (count : Nat) (cursor : Cursor) : Cursor :=
  (fun cursor : Cursor => cursor.pull.2)^[count] cursor

/-- Pulling takes the first item of the rest. -/
theorem pull_rest (cursor : Cursor) :
    cursor.pull.1 = cursor.rest.items.head? ∧
      cursor.pull.2.rest.items = cursor.rest.items.tail := by
  cases cursor.called with
  | ended next_eq rest_eq => simp [pull, next_eq, rest_eq, Listing.items]
  | stopped next_eq rest_eq =>
    -- the error is the last item, and the walk is at the end of the code then
    have hend : (⟨cursor.code, cursor.code.length⟩ : Cursor).rest = ⟨[], none⟩ :=
      rest_of_atEnd (Nat.le_refl _)
    simp [pull, next_eq, rest_eq, hend, Listing.items]
  | moved next_eq offset_eq _ rest_eq =>
    simp [pull, next_eq, rest_eq, offset_eq, Listing.items]

theorem items_afterItems (cursor : Cursor) (k : Nat) :
    (cursor.afterItems k).rest.items = cursor.rest.items.drop k := by
  induction k with
  | zero => rfl
  | succ k ih =>
    rw [afterItems, Function.iterate_succ_apply', ← afterItems, (pull_rest _).2, ih]
    simp

theorem pull_afterItems (cursor : Cursor) (k : Nat) :
    (cursor.afterItems k).pull.1 = cursor.rest.items[k]? := by
  rw [(pull_rest _).1, items_afterItems, List.head?_drop]

theorem items_eq_rest (cursor : Cursor) : cursor.items = cursor.rest.items := by
  fun_induction items cursor with
  | case1 cursor after hpull =>
    have hhead := cursor.pull_rest.1
    rw [hpull] at hhead
    exact (List.head?_eq_none_iff.1 hhead.symm).symm
  | case2 cursor item after hpull _ ih =>
    obtain ⟨hhead, htail⟩ := cursor.pull_rest
    rw [hpull] at hhead htail
    rw [ih, htail]
    exact List.cons_head?_tail hhead.symm

end Cursor

/-! ## Walks through encoded instructions -/

theorem Listing.items_ofCode_encodeAll (instructions : List Instruction) :
    (ofCode (encodeAll instructions)).items =
      instructions.mapIdx fun k instruction =>
        .ok ((encodeAll (instructions.take k)).length, instruction) := by
  have hitems := items_ofSuffix_encodeAll 0 instructions
  simp only [Nat.zero_add] at hitems
  exact hitems

/-- Encoded instructions are read back in order, each at the offset that the code
had before it, with nothing behind the last: by pulling items, one at a time or up to
the end, by a listing, by the calls of a cursor, and by decoding at the offset of one
instruction in any code. -/
theorem Instruction.encoded_read_back (instructions : List Instruction) :
    (Cursor.start (encodeAll instructions)).items =
        instructions.mapIdx (fun k instruction =>
          .ok ((encodeAll (instructions.take k)).length, instruction)) ∧
      (∀ k, ((Cursor.start (encodeAll instructions)).afterItems k).pull.1 =
        instructions[k]?.map fun instruction =>
          .ok ((encodeAll (instructions.take k)).length, instruction)) ∧
      (Listing.ofCode (encodeAll instructions)).items =
        instructions.mapIdx (fun k instruction =>
          .ok ((encodeAll (instructions.take k)).length, instruction)) ∧
      (∀ k, ((Cursor.start (encodeAll instructions)).after k).position =
          (encodeAll (instructions.take k)).length ∧
        ((Cursor.start (encodeAll instructions)).after k).next.1 = .ok instructions[k]?) ∧
      ∀ (instruction : Instruction) (before behind : Bytes),
        decodeAt (before ++ instruction.encode ++ behind) before.length =
          .ok (instruction, before.length + instruction.encode.length) := by
  have hlisted := Listing.items_ofCode_encodeAll instructions
  refine ⟨?_, ?_, hlisted, ?_, ?_⟩
  · rw [Cursor.items_eq_rest]
    exact hlisted
  · intro k
    have hrest : (Cursor.start (encodeAll instructions)).rest.items =
        (Listing.ofCode (encodeAll instructions)).items := rfl
    rw [Cursor.pull_afterItems, hrest, hlisted, List.getElem?_mapIdx]
  · intro k
    rw [Cursor.after_encodeAll, Cursor.next_encodeAll]
    exact ⟨rfl, rfl⟩
  · intro instruction before behind
    exact decodeAt_encode before instruction behind

/-! ## Listings of any code -/

namespace Listing

/-- What a listing tells of the code it was made of. -/
structure Partitions (listing : Listing) (code : Bytes) : Prop where
  first : ∀ line ∈ listing.lines.head?, line.offset = 0
  increasing : listing.lines.Pairwise (·.offset < ·.offset)
  line : ∀ line ∈ listing.lines,
    1 ≤ line.bytes.length ∧ line.bytes.length ≤ 5 ∧
      decodeAt line.bytes 0 = .ok (line.instruction, line.bytes.length) ∧
      decodeAt code line.offset = .ok (line.instruction, line.offset + line.bytes.length)
  bytes_eq : listing.lines.flatMap (·.bytes) = code.take listing.stop
  stop_le : listing.stop ≤ code.length
  error_eq_none : listing.error = none ↔ listing.stop = code.length
  error_eq_some : listing.stop ≠ code.length →
    ∃ e, listing.error = some e ∧ decodeAt code listing.stop = .error e

theorem stop_lt_of_error {code : Bytes} (h : (ofCode code).error ≠ none) :
    (ofCode code).stop < code.length := by
  obtain ⟨e, he⟩ := Option.ne_none_iff_exists'.1 h
  exact (decodeAt_stop he).1

theorem partitions_ofCode (code : Bytes) : (ofCode code).Partitions code where
  first line hline := by
    obtain ⟨lines, hlines⟩ := List.head?_eq_some_iff.1 hline
    exact @Cursor.offset_of_rest (.start code) line lines hlines
  increasing := (offsets_ofSuffix 0 code).2
  line line hline := by
    have hspelled := spelled_ofCode code line hline
    have hdecode := decodeAt_of_mem hline
    have hpast := lt_of_decodeAt hdecode
    exact ⟨by omega, hspelled.length_le, hspelled.decodeAt_bytes, hdecode⟩
  bytes_eq := flatMap_bytes_ofSuffix 0 code
  stop_le := IsBoundary.le_length (.inr rfl)
  error_eq_none := by
    refine ⟨stop_eq_length, fun hstop => ?_⟩
    by_contra herror
    exact Nat.ne_of_lt (stop_lt_of_error herror) hstop
  error_eq_some hstop := by
    obtain ⟨e, he⟩ := Option.ne_none_iff_exists'.1 (mt stop_eq_length hstop)
    exact ⟨e, he, (decodeAt_stop he).2⟩

/-- A listing cuts any code into the instructions at its front, and tells why it
stops before the end if it does. Pulling gives the lines of the listing, then its
error once, then nothing more. Asking gives the instructions of the lines, and
behind them, from the place where the listing stops, the end or the error as often
as it is asked. -/
theorem walks_agree (code : Bytes) :
    (ofCode code).Partitions code ∧
      (Cursor.start code).items = (ofCode code).items ∧
      (∀ k, ((Cursor.start code).afterItems k).pull.1 = (ofCode code).items[k]?) ∧
      (∀ k line, (ofCode code).lines[k]? = some line →
        ((Cursor.start code).after k).position = line.offset ∧
          ((Cursor.start code).after k).next.1 = .ok (some line.instruction)) ∧
      ∀ k, (ofCode code).lines.length ≤ k →
        ((Cursor.start code).after k).position = (ofCode code).stop ∧
          ((Cursor.start code).after k).next.1 =
            (ofCode code).error.elim (.ok none) .error := by
  refine ⟨partitions_ofCode code, Cursor.items_eq_rest (.start code),
    Cursor.pull_afterItems (.start code), fun k line hline => ?_, fun k hk => ?_⟩
  · exact @Cursor.after_of_line (.start code) k line hline
  · obtain ⟨hposition, hnext⟩ := @Cursor.after_of_length_le (.start code) k hk
    exact ⟨hposition.trans (Nat.zero_add _), hnext⟩

/-- Code that ends in the middle of an instruction. The instruction before it is all
that is listed, and the walk does not come to an end by being asked. -/
theorem walks_agree_truncated :
    (ofCode [1, 0, 3, 5]).stop = 1 ∧
      (Cursor.start [1, 0, 3, 5]).items = [.ok (0, .nop), .error (.truncated 3)] ∧
      ((Cursor.start [1, 0, 3, 5]).afterItems 2).pull.1 = none ∧
      ((Cursor.start [1, 0, 3, 5]).after 7).position = 1 ∧
      ((Cursor.start [1, 0, 3, 5]).after 7).next.1 = .error (.truncated 3) := by
  have hlisting : ofCode [1, 0, 3, 5] = ⟨[⟨0, [1], .nop⟩], some (.truncated 3)⟩ := by
    cbv
  obtain ⟨-, hitems, hpull, -, hnext⟩ := walks_agree [1, 0, 3, 5]
  have hended := hpull 2
  have hasked := hnext 7
  rw [hlisting] at hitems hended hasked
  exact ⟨congrArg stop hlisting, hitems, hended, hasked (by decide)⟩

end Listing

end TypedStack
