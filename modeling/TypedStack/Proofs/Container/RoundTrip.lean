import TypedStack.Proofs.Container.Format
import TypedStack.Proofs.Container.StringTable

/-!
# Programs written and read back

A program can be written exactly if its functions can be counted in two bytes and
its names and code can be measured in four. What is written is the bytes of a layout
in which names and code follow each other without gaps, so that reading gives the
program back, unless its entry is the place of no function.
-/

namespace TypedStack

namespace Container

/-- The string table with the names of functions. -/
def stringTable (functions : List Function) : Bytes :=
  functions.flatMap fun function => stringEntry function.name

/-- The code of functions, one behind the other. -/
def codeTable (functions : List Function) : Bytes :=
  functions.flatMap (·.code.toList)

/-- The records of functions whose names and code stand from the given offsets on. -/
def recordsFrom (nameAt codeAt : Nat) : List Function → List Record
  | [] => []
  | function :: rest =>
    ⟨nameAt, function.arity, function.locals, function.returns, codeAt, function.code.size⟩ ::
      recordsFrom (nameAt + (stringEntry function.name).length) (codeAt + function.code.size) rest

/-- A program whose sections fit their counts and sizes. -/
structure Fits (program : Program) : Prop where
  functions : program.functions.size < Nat.pow 256 2
  names : (stringTable program.functions.toList).length < Nat.pow 256 4
  code : (codeTable program.functions.toList).length < Nat.pow 256 4

/-- What there is to tell of a container that a program was written to. -/
def Info.ofProgram (program : Program) : Info where
  flags := ⟨program.entry.isNone, false⟩
  entry := program.entry.map UInt16.toNat
  types := 0
  strings := program.functions.size
  stringBytes := (program.functions.toList.map fun function =>
    (Bytes.ofString function.name).length).sum
  functions := program.functions.size
  codeBytes := (program.functions.toList.map (·.code.size)).sum
  sourceMaps := 0

/-! ## Writing -/

theorem stringTable_cons (function : Function) (rest : List Function) :
    stringTable (function :: rest) = stringEntry function.name ++ stringTable rest :=
  List.flatMap_cons

theorem codeTable_cons (function : Function) (rest : List Function) :
    codeTable (function :: rest) = function.code.toList ++ codeTable rest :=
  List.flatMap_cons

theorem length_stringEntry (text : String) :
    (stringEntry text).length = 4 + (Bytes.ofString text).length :=
  length_framed 4 _

theorem length_recordsFrom (nameAt codeAt : Nat) (functions : List Function) :
    (recordsFrom nameAt codeAt functions).length = functions.length := by
  induction functions generalizing nameAt codeAt with
  | nil => rfl
  | cons function rest ih => simp [recordsFrom, ih]

theorem length_of_makeRecords
    {nameAt codeAt : Nat} {functions : List Function} {made records : List Record}
    (h : makeRecords nameAt codeAt made functions = .ok records) :
    records.length = made.length + functions.length := by
  induction functions generalizing nameAt codeAt made with
  | nil =>
    obtain rfl := Except.ok.inj h
    simp
  | cons function rest ih =>
    simp only [makeRecords] at h
    split_ifs at h
    rw [ih h, List.length_cons, List.length_cons]
    omega

/-- Records are made as long as the names and the code of all functions fit. -/
theorem makeRecords_of_lt
    {nameAt codeAt : Nat} {functions : List Function} {made : List Record}
    (hnames : nameAt + (stringTable functions).length < Nat.pow 256 4)
    (hcode : codeAt + (codeTable functions).length < Nat.pow 256 4) :
    makeRecords nameAt codeAt made functions =
      .ok (made.reverse ++ recordsFrom nameAt codeAt functions) := by
  induction functions generalizing nameAt codeAt made with
  | nil => simp [makeRecords, recordsFrom]
  | cons function rest ih =>
    have hbound : sizeBound = Nat.pow 256 4 := rfl
    rw [stringTable_cons, List.length_append, length_stringEntry] at hnames
    rw [codeTable_cons, List.length_append, Array.length_toList] at hcode
    rw [makeRecords, if_neg (by omega), if_neg (by omega), if_neg (by omega),
      if_neg (by omega), ih (by omega) (by omega), recordsFrom, length_stringEntry]
    simp

/-- Sections are collected exactly if all of them can be written. -/
theorem collect_eq_ok {parts : List (Except Error Bytes)} {bytes : Bytes} :
    collect parts = .ok bytes ↔
      ∃ written : List Bytes, parts = written.map .ok ∧ written.flatten = bytes := by
  induction parts generalizing bytes with
  | nil =>
    constructor
    · intro h
      exact ⟨[], rfl, Except.ok.inj h⟩
    · rintro ⟨written, hparts, rfl⟩
      rw [List.map_eq_nil_iff.1 hparts.symm]
      rfl
  | cons part parts ih =>
    constructor
    · intro h
      cases part with
      | error e => cases h
      | ok first =>
        obtain ⟨back, rfl, hback⟩ := map_eq_ok.1 h
        obtain ⟨written, rfl, rfl⟩ := ih.1 hback
        exact ⟨first :: written, rfl, rfl⟩
    · rintro ⟨_ | ⟨first, written⟩, hparts, rfl⟩
      · cases hparts
      · obtain ⟨rfl, rfl⟩ := List.cons.inj hparts
        exact map_eq_ok.2 ⟨written.flatten, rfl, ih.2 ⟨written, rfl, rfl⟩⟩

theorem sizeSection_eq_ok {what : String} {size : Nat} {bytes : Bytes} :
    sizeSection what size = .ok bytes ↔
      size < Nat.pow 256 4 ∧ Bytes.ofNatLE 4 size = bytes := by
  unfold sizeSection
  by_cases hlt : size < sizeBound
  · rw [if_pos hlt, Except.ok.injEq]
    exact (and_iff_right hlt).symm
  · rw [if_neg hlt]
    constructor
    · intro h
      cases h
    · rintro ⟨h, -⟩
      exact absurd h hlt

@[simp] theorem Record.length_encode (record : Record) : record.encode.length = Record.width := by
  simp [Record.encode, Record.width]

/-- The layout of a program that fits. -/
def Layout.ofProgram (program : Program) (h : Fits program) : Layout where
  entry := program.entry.map UInt16.toUInt32
  types := ⟨[], by decide, by simp⟩
  strings := stringTable program.functions.toList
  functions :=
    { blobs := (recordsFrom 0 0 program.functions.toList).map Record.encode
      count_lt := by
        rw [List.length_map, length_recordsFrom, Array.length_toList]
        exact h.functions
      length_lt := by
        intro blob hblob
        obtain ⟨record, -, rfl⟩ := List.mem_map.1 hblob
        rw [Record.length_encode]
        decide }
  code := codeTable program.functions.toList
  sourceMaps := none
  strings_lt := h.names
  width_le := by
    intro blob hblob
    obtain ⟨record, -, rfl⟩ := List.mem_map.1 hblob
    exact Nat.le_of_eq (Record.length_encode record).symm
  code_lt := h.code

theorem fits_of_toBinary {program : Program} {bytes : Bytes} (h : program.toBinary = .ok bytes) :
    Fits program := by
  have hwritten : ∀ part ∈ sections program, ∃ front, part = .ok front := by
    obtain ⟨written, hparts, -⟩ := collect_eq_ok.1 h
    intro part hpart
    rw [hparts] at hpart
    obtain ⟨front, -, rfl⟩ := List.mem_map.1 hpart
    exact ⟨front, rfl⟩
  cases hrecords : makeRecords 0 0 [] program.functions.toList with
  | error e =>
    simp [sections, hrecords] at hwritten
  | ok records =>
    -- the sections that may fail are the two sizes and the count of records
    simp only [sections, hrecords, List.forall_mem_cons, sizeSection_eq_ok] at hwritten
    obtain ⟨-, -, -, -, ⟨_, hstrings, -⟩, -, ⟨_, hcount⟩, -, ⟨_, hcode, -⟩, -⟩ := hwritten
    refine ⟨?_, hstrings, hcode⟩
    have hlength := length_of_makeRecords hrecords
    split_ifs at hcount with hlt
    simpa [hlength] using hlt

theorem toBinary_of_fits {program : Program} (h : Fits program) :
    program.toBinary = .ok (Layout.ofProgram program h).bytes := by
  have hrecords := @makeRecords_of_lt 0 0 program.functions.toList []
    (by simpa using h.names) (by simpa using h.code)
  have hcount : (recordsFrom 0 0 program.functions.toList).length < UInt16.size := by
    rw [length_recordsFrom, Array.length_toList]
    exact h.functions
  have hstrings := h.names
  have hcode := h.code
  unfold stringTable at hstrings
  unfold codeTable at hcode
  apply collect_eq_ok.2
  simp only [sections, hrecords, List.reverse_nil, List.nil_append]
  rw [sizeSection_eq_ok.2 ⟨hstrings, rfl⟩, sizeSection_eq_ok.2 ⟨hcode, rfl⟩, if_pos hcount]
  refine ⟨[_, _, _, _, _, _, _, _, _, _], rfl, ?_⟩
  simp [Layout.bytes, Layout.body, Layout.ofProgram, Layout.flags, Table.bytes, framed,
    stringTable, codeTable, List.flatMap_map, Function.comp_def]

/-! ## Reading back -/

/-- Records are right about names and code that follow what is before them. -/
theorem denotes_recordsFrom (names code : Bytes) (functions : List Function) :
    List.Forall₂
      (fun record function =>
        record.Denotes (names ++ stringTable functions) (code ++ codeTable functions) function)
      (recordsFrom names.length code.length functions) functions := by
  induction functions generalizing names code with
  | nil => exact .nil
  | cons function rest ih =>
    -- the offsets move on by what the first function adds to the bytes before the rest
    have hrest := ih (names ++ stringEntry function.name) (code ++ function.code.toList)
    rw [List.length_append, List.length_append, Array.length_toList, List.append_assoc,
      List.append_assoc] at hrest
    rw [stringTable_cons, codeTable_cons]
    exact .cons ⟨⟨names, _, rfl, rfl⟩, rfl, rfl, rfl, ⟨code, _, rfl, rfl⟩, rfl⟩ hrest

theorem stringEntry_eq_framed (text : String) :
    stringEntry text = framed 4 (Bytes.ofString text) := rfl

theorem countStrings_stringTable
    {functions : List Function} {count : Nat}
    (h : (stringTable functions).length < Nat.pow 256 4) :
    countStrings count (stringTable functions) = count + functions.length := by
  induction functions generalizing count with
  | nil => simp [stringTable, countStrings]
  | cons function rest ih =>
    rw [stringTable_cons, List.length_append, length_stringEntry] at h
    rw [stringTable_cons, stringEntry_eq_framed, countStrings_framed (by omega), ih (by omega),
      List.length_cons]
    omega

theorem length_stringTable (functions : List Function) :
    (stringTable functions).length =
      (functions.map fun function => 4 + (Bytes.ofString function.name).length).sum := by
  simp [stringTable, List.length_flatMap, length_stringEntry]

theorem length_codeTable (functions : List Function) :
    (codeTable functions).length = (functions.map (·.code.size)).sum := by
  simp [codeTable, List.length_flatMap]

theorem length_stringTable_eq_add (functions : List Function) :
    (stringTable functions).length = 4 * functions.length +
      (functions.map fun function => (Bytes.ofString function.name).length).sum := by
  induction functions with
  | nil => rfl
  | cons function rest ih =>
    rw [stringTable_cons, List.length_append, length_stringEntry, ih, List.map_cons, List.sum_cons,
      List.length_cons]
    omega

theorem fits_iff {program : Program} :
    Fits program ↔
      program.functions.size ≤ 65535 ∧
      (program.functions.toList.map fun function =>
        4 + (Bytes.ofString function.name).length).sum < 2 ^ 32 ∧
      (program.functions.toList.map (·.code.size)).sum < 2 ^ 32 := by
  rw [← length_stringTable, ← length_codeTable]
  constructor
  · rintro ⟨hfunctions, hnames, hcode⟩
    exact ⟨Nat.le_of_lt_succ hfunctions, hnames, hcode⟩
  · rintro ⟨hfunctions, hnames, hcode⟩
    exact ⟨Nat.lt_succ_of_le hfunctions, hnames, hcode⟩

namespace Layout

variable {program : Program} (h : Fits program)

theorem describes_ofProgram :
    List.Forall₂ (ofProgram program h).Describes (ofProgram program h).functions.blobs
      program.functions.toList := by
  apply List.forall₂_map_left_iff.2
  exact (denotes_recordsFrom [] [] _).imp fun record function hdenotes =>
    ⟨record, List.prefix_rfl, hdenotes⟩

theorem holds_ofProgram (hentry : ∀ entry ∈ program.entry, entry.toNat < program.functions.size) :
    (ofProgram program h).Holds program := by
  have hdescribes := describes_ofProgram h
  refine ⟨hdescribes, ?_, ?_⟩
  · rw [ofProgram, Option.map_map]
    congr 1
  · intro entry hmem
    obtain ⟨index, hindex, rfl⟩ := Option.map_eq_some_iff.1 hmem
    rw [UInt16.toNat_toUInt32, hdescribes.length_eq, Array.length_toList]
    exact hentry index hindex

theorem info_ofProgram : (ofProgram program h).container.info = .ofProgram program := by
  have hcount : countStrings 0 (stringTable program.functions.toList) =
      program.functions.toList.length := by
    rw [countStrings_stringTable h.names, Nat.zero_add]
  have hnames : (stringTable program.functions.toList).length - 4 * program.functions.size =
      (program.functions.toList.map fun function => (Bytes.ofString function.name).length).sum := by
    rw [length_stringTable_eq_add, Array.length_toList, Nat.add_sub_cancel_left]
  simp [Container.info, Info.ofProgram, container, ofProgram, flags, hcount, hnames,
    length_codeTable, length_recordsFrom, Function.comp_def]

end Layout

theorem read_toBinary {program : Program} {bytes : Bytes} (h : program.toBinary = .ok bytes) :
    read (.ofBytes bytes) = .ok (Layout.ofProgram program (fits_of_toBinary h)).container := by
  have hbytes := Except.ok.inj (h.symm.trans (toBinary_of_fits (fits_of_toBinary h)))
  exact read_eq_ok_iff_layout.2 ⟨_, rfl, hbytes, rfl⟩

/-- A program is written exactly if it has at most 65535 functions and its names,
each with the four bytes of its length, and its code take less than 2^32 bytes.
What is written reads back as the program and what there is to tell of it, unless
its entry is the place of no function: then reading says so. -/
theorem toBinary_read_back (program : Program) :
    ((∃ bytes, program.toBinary = .ok bytes) ↔
      program.functions.size ≤ 65535 ∧
      (program.functions.toList.map fun function =>
        4 + (Bytes.ofString function.name).length).sum < 2 ^ 32 ∧
      (program.functions.toList.map (·.code.size)).sum < 2 ^ 32) ∧
    ∀ bytes, program.toBinary = .ok bytes →
      ((∀ entry ∈ program.entry, entry.toNat < program.functions.size) →
        Program.readFrom (.ofBytes bytes) = .ok (program, .ofProgram program)) ∧
      ∀ entry, program.entry = some entry → program.functions.size ≤ entry.toNat →
        Program.readFrom (.ofBytes bytes) = .error (.badEntry entry.toNat) := by
  constructor
  · rw [← fits_iff]
    constructor
    · rintro ⟨bytes, hbytes⟩
      exact fits_of_toBinary hbytes
    · intro hfits
      exact ⟨_, toBinary_of_fits hfits⟩
  · intro bytes hbytes
    have hfits := fits_of_toBinary hbytes
    have hread := read_toBinary hbytes
    constructor
    · intro hentry
      have hprogram := Layout.program_eq_ok.2 (Layout.holds_ofProgram hfits hentry)
      rw [← Layout.info_ofProgram hfits]
      exact (bind_eq_of_eq_ok hread).trans (bind_eq_of_eq_ok hprogram)
    · intro entry hentry hle
      have hstored : (Layout.ofProgram program hfits).entry = some entry.toUInt32 := by
        rw [Layout.ofProgram, hentry]
        rfl
      have hprogram := Layout.program_eq_badEntry (Layout.describes_ofProgram hfits) hstored
        (by simpa using hle)
      refine (bind_eq_of_eq_ok hread).trans ?_
      rw [hprogram, UInt16.toNat_toUInt32]
      rfl

/-- The only function is no place for the second entry. -/
example :
    (Program.toBinary ⟨#[⟨"f", 0, 0, 1, #[13]⟩], some 1⟩ >>= fun bytes =>
      Program.readFrom (.ofBytes bytes)) = .error (.badEntry 1) := by
  decide +kernel

end Container

end TypedStack
