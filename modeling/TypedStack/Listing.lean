import TypedStack.Instruction.Decoding

/-!
# Listings

A listing shows code instruction by instruction, up to the end or to the first
bytes that are no instruction. `Cursor` walks the same instructions one at a
time. Asked for the next instruction, it stays where it is once there are no
more; pulled for items, it gives an error as the last one and is at the end then.
-/

namespace TypedStack

/-- An instruction with its bytes and where they stand in the code. -/
structure Listing.Line where
  offset : Nat
  bytes : Bytes
  instruction : Instruction
  deriving DecidableEq, Repr

/-- The instructions of some code, and what stopped the listing before the end. -/
structure Listing where
  lines : List Listing.Line
  error : Option DecodeError
  deriving DecidableEq, Repr

namespace Listing

/-- The listing of the part of some code that starts at `offset`. -/
def ofSuffix (offset : Nat) (bytes : Bytes) : Listing :=
  if hnil : bytes = [] then ⟨[], none⟩
  else
    match h : Instruction.read offset bytes with
    | .error e => ⟨[], some e⟩
    | .ok (instruction, size) =>
      have := Instruction.length_sub_size_lt hnil h
      let rest := ofSuffix (offset + size) (bytes.drop size)
      ⟨⟨offset, bytes.take size, instruction⟩ :: rest.lines, rest.error⟩
termination_by bytes.length

/-- The listing of some code. -/
def ofCode (code : Bytes) : Listing :=
  ofSuffix 0 code

/-- Offset, bytes and instruction in columns. -/
def Line.render (line : Line) : String :=
  let bytes := String.intercalate " " (line.bytes.map fun byte => Text.hex 2 byte.toNat)
  Text.offset line.offset ++ " | " ++ String.ofList (Text.padRight ' ' 11 bytes.toList) ++
    " | " ++ line.instruction.render

/-- A line for each instruction and one for the error, each closed by a line
feed. -/
def render (listing : Listing) : String :=
  String.join (listing.lines.map fun line => line.render ++ "\n") ++
    match listing.error with
    | none => ""
    | some e => "   ?   | ??          | " ++ e.message ++ "\n"

/-- What walking through the code gives: each instruction with its offset, and
an error as the last item. -/
def items (listing : Listing) : List (Except DecodeError (Nat × Instruction)) :=
  listing.lines.map (fun line => .ok (line.offset, line.instruction)) ++
    listing.error.toList.map .error

end Listing

/-- A place in some code. -/
structure Cursor where
  code : Bytes
  position : Nat
  deriving DecidableEq, Repr

namespace Cursor

/-- The start of some code. -/
def start (code : Bytes) : Cursor :=
  ⟨code, 0⟩

/-- Whether no byte is left. -/
def atEnd (cursor : Cursor) : Bool :=
  cursor.code.length ≤ cursor.position

/-- The next instruction, if there is one, and the place behind it. On an error
the cursor does not move. -/
def next (cursor : Cursor) : Except DecodeError (Option Instruction) × Cursor :=
  if cursor.atEnd then (.ok none, cursor)
  else
    match Instruction.decodeAt cursor.code cursor.position with
    | .ok (instruction, position) => (.ok (some instruction), { cursor with position })
    | .error e => (.error e, cursor)

/-- The next item of a walk: an instruction with its offset, or an error, behind
which the walk is at the end of the code. -/
def pull (cursor : Cursor) : Option (Except DecodeError (Nat × Instruction)) × Cursor :=
  match cursor.next with
  | (.ok (some instruction), after) => (some (.ok (cursor.position, instruction)), after)
  | (.ok none, after) => (none, after)
  | (.error e, after) => (some (.error e), { after with position := cursor.code.length })

/-- The number of bytes that are left. -/
def bytesLeft (cursor : Cursor) : Nat :=
  cursor.code.length - cursor.position

section

variable {cursor : Cursor}

theorem next_of_atEnd (h : cursor.code.length ≤ cursor.position) :
    cursor.next = (.ok none, cursor) := by
  simp [next, atEnd, h]

theorem next_of_ok
    {instruction : Instruction} {position : Nat}
    (h : Instruction.decodeAt cursor.code cursor.position = .ok (instruction, position)) :
    cursor.next = (.ok (some instruction), ⟨cursor.code, position⟩) := by
  have hpast := Instruction.lt_of_decodeAt h
  have hlength := Instruction.le_length_of_decodeAt h
  have hend : ¬cursor.code.length ≤ cursor.position := by omega
  simp [next, atEnd, hend, h]

theorem next_of_error
    {e : DecodeError} (hend : cursor.position < cursor.code.length)
    (h : Instruction.decodeAt cursor.code cursor.position = .error e) :
    cursor.next = (.error e, cursor) := by
  simp [next, atEnd, Nat.not_le_of_lt hend, h]

/-- An item takes bytes. -/
theorem bytesLeft_lt_of_pull
    {item : Except DecodeError (Nat × Instruction)} {after : Cursor}
    (h : cursor.pull = (some item, after)) : after.bytesLeft < cursor.bytesLeft := by
  by_cases hend : cursor.code.length ≤ cursor.position
  · simp [pull, next_of_atEnd hend] at h
  · cases hdecode : Instruction.decodeAt cursor.code cursor.position with
    | ok found =>
      have hpast := Instruction.lt_of_decodeAt hdecode
      simp only [pull, next_of_ok hdecode, Prod.mk.injEq] at h
      simp only [← h.2, bytesLeft]
      omega
    | error e =>
      simp only [pull, next_of_error (Nat.lt_of_not_le hend) hdecode, Prod.mk.injEq] at h
      simp only [← h.2, bytesLeft]
      omega

end

/-- The items of a walk, up to its end. -/
def items (cursor : Cursor) : List (Except DecodeError (Nat × Instruction)) :=
  match h : cursor.pull with
  | (none, _) => []
  | (some item, after) =>
    have := bytesLeft_lt_of_pull h
    item :: after.items
termination_by cursor.bytesLeft

end Cursor

end TypedStack
