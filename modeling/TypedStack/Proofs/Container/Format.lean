import TypedStack.Container.Writer
import TypedStack.Proofs.Container.Reading

/-!
# The container format

A `Layout` is what stands in a container, section by section, as far as it can be
told before function records are looked up: there is one for each byte sequence
that has the sections of a container and nothing behind them. A layout holds a
program if its records name the functions of the program, in this order, and its
entry is one of them. Reading succeeds exactly for the bytes of layouts that hold
a program, and gives that program.
-/

namespace TypedStack

namespace Container

/-- The sections of a container. The entry and the source maps need not be there.
Function records may have bytes behind them that belong to no field. -/
structure Layout where
  entry : Option UInt32
  types : Table
  strings : Bytes
  functions : Table
  code : Bytes
  sourceMaps : Option Table
  strings_lt : strings.length < Nat.pow 256 4
  width_le : ∀ blob ∈ functions.blobs, Record.width ≤ blob.length
  code_lt : code.length < Nat.pow 256 4

namespace Layout

/-- The flags, which tell what sections there are. -/
def flags (layout : Layout) : Flags :=
  ⟨layout.entry.isNone, layout.sourceMaps.isSome⟩

/-- The bytes of the sections behind the signature. -/
def body (layout : Layout) : Bytes :=
  [layout.flags.bits] ++
    (layout.entry.elim [] (fun entry => Bytes.ofNatLE 4 entry.toNat) ++
    (layout.types.bytes ++ (framed 4 layout.strings ++
    (layout.functions.bytes ++ (framed 4 layout.code ++
    layout.sourceMaps.elim [] Table.bytes)))))

/-- The bytes of all sections. -/
def bytes (layout : Layout) : Bytes :=
  signature ++ layout.body

/-- What reading makes of the sections. -/
def container (layout : Layout) : Container where
  flags := layout.flags
  entry := layout.entry.map UInt32.toNat
  types := layout.types.blobs
  strings := layout.strings
  records := layout.functions.blobs.map Record.decode
  code := layout.code
  sourceMaps := layout.sourceMaps.elim [] Table.blobs

end Layout

theorem read_eq_ok_iff_layout {source : Source} {container : Container} :
    read source = .ok container ↔
      ∃ layout : Layout, layout.container = container ∧ source.bytes = layout.bytes ∧
        source.failure? = none := by
  simp only [read, bind_eq_ok, Prod.exists, readSignature_eq_ok, readFlags_eq_ok, readEntry_eq_ok,
    readBlobs_eq_ok, readRecords_eq_ok, readBlob_eq_ok, readSourceMaps_eq_ok, readEnd_eq_ok]
  constructor
  · rintro ⟨_, _, rfl, ⟨library, sourceMap⟩, _, rfl, _, _, ⟨entry, rfl, hlibrary, rfl⟩,
      _, _, ⟨types, rfl, rfl⟩, strings, _, ⟨hstrings, rfl⟩,
      _, _, ⟨functions, hwidth, rfl, rfl⟩, code, _, ⟨hcode, rfl⟩,
      _, _, ⟨sourceMaps, rfl, hsourceMap, rfl⟩, _, ⟨hbytes, hfailure⟩, hcontainer⟩
    dsimp only at hlibrary hsourceMap
    subst hlibrary hsourceMap
    refine ⟨⟨entry, types, strings, functions, code, sourceMaps, hstrings, hwidth, hcode⟩,
      Except.ok.inj hcontainer, ?_, ?_⟩
    · simp [Layout.bytes, Layout.body, Layout.flags, hbytes]
    · simpa using hfailure
  · rintro ⟨layout, rfl, hbytes, hfailure⟩
    obtain ⟨last, hlast, hfailure, hsource⟩ := Source.exists_behind_of_failure?_eq_none hfailure
    rw [hbytes] at hsource
    simp only [Layout.bytes, Layout.body, Source.behind_append] at hsource
    exact ⟨(), _, hsource, layout.flags, _, rfl, _, _, ⟨layout.entry, rfl, rfl, rfl⟩,
      _, _, ⟨layout.types, rfl, rfl⟩, _, _, ⟨layout.strings_lt, rfl⟩,
      _, _, ⟨layout.functions, layout.width_le, rfl, rfl⟩, _, _, ⟨layout.code_lt, rfl⟩,
      _, _, ⟨layout.sourceMaps, rfl, rfl, rfl⟩, (), ⟨hlast, hfailure⟩, rfl⟩

/-! ## Parts of byte sequences -/

/-- A part of some bytes starts at an offset. -/
def StandsAt (part : Bytes) (offset : Nat) (whole : Bytes) : Prop :=
  ∃ before behind, before.length = offset ∧ whole = before ++ (part ++ behind)

section Parts

variable {part first second whole : Bytes} {offset : Nat}

theorem StandsAt.le_length (h : StandsAt part offset whole) :
    offset + part.length ≤ whole.length := by
  obtain ⟨before, behind, rfl, rfl⟩ := h
  simp only [List.length_append]
  omega

theorem standsAt_iff :
    StandsAt part offset whole ↔ offset ≤ whole.length ∧ part <+: whole.drop offset := by
  constructor
  · rintro ⟨before, behind, rfl, rfl⟩
    rw [List.drop_left]
    exact ⟨by simp, List.prefix_append _ _⟩
  · rintro ⟨hoffset, behind, hbehind⟩
    refine ⟨whole.take offset, behind, List.length_take_of_le hoffset, ?_⟩
    rw [hbehind, List.take_append_drop]

theorem standsAt_zero : StandsAt part 0 whole ↔ part <+: whole := by
  simp [standsAt_iff]

theorem standsAt_append :
    StandsAt (first ++ second) offset whole ↔
      StandsAt first offset whole ∧ StandsAt second (offset + first.length) whole := by
  constructor
  · rintro ⟨before, behind, rfl, rfl⟩
    exact ⟨⟨before, second ++ behind, rfl, by simp⟩, before ++ first, behind, by simp, by simp⟩
  · rintro ⟨⟨before, behind, rfl, rfl⟩, other, behind', hother, hwhole⟩
    rw [← List.append_assoc] at hwhole
    obtain ⟨-, rfl⟩ := List.append_inj hwhole (by simp [hother])
    exact ⟨before, behind', rfl, by simp⟩

theorem slice?_eq_some {size : Nat} {slice : Array UInt8} :
    slice? whole.toArray offset size = some slice ↔
      slice.size = size ∧ StandsAt slice.toList offset whole := by
  have hextract : (whole.toArray.extract offset (offset + size)).toList =
      (whole.drop offset).take size := by
    simp
  unfold slice?
  rw [List.size_toArray]
  constructor
  · intro h
    by_cases hle : offset + size ≤ whole.length
    · rw [if_pos hle] at h
      obtain rfl := Option.some.inj h
      refine ⟨by simp; omega, ?_⟩
      rw [standsAt_iff, hextract]
      exact ⟨Nat.le_of_add_right_le hle, List.take_prefix _ _⟩
    · rw [if_neg hle] at h
      cases h
  · rintro ⟨rfl, hstands⟩
    have hle : offset + slice.size ≤ whole.length := hstands.le_length
    rw [if_pos hle, Option.some_inj, ← Array.toList_inj, hextract]
    exact (List.prefix_iff_eq_take.1 (standsAt_iff.1 hstands).2).symm

end Parts

/-! ## Names and records -/

section Records

variable {strings code : Bytes} {offset : Nat}

/-- A name is found where its entry of the string table stands. -/
theorem stringAt_eq_ok {text : String} (hstrings : strings.length < Nat.pow 256 4) :
    stringAt strings.toArray offset = .ok text ↔
      StandsAt (stringEntry text) offset strings := by
  have hfound : stringAt strings.toArray offset = .ok text ↔
      ∃ length, slice? strings.toArray offset 4 = some length ∧
        ∃ bytes, slice? strings.toArray (offset + 4) (Bytes.toNatLE length.toList) = some bytes ∧
          Bytes.toString? bytes.toList = some text := by
    rcases hlength : slice? strings.toArray offset 4 with _ | length
    · simp [stringAt, hlength]
    · rcases hbytes : slice? strings.toArray (offset + 4) (Bytes.toNatLE length.toList) with
        _ | bytes
      · simp [stringAt, hlength, hbytes]
      · cases htext : Bytes.toString? bytes.toList <;>
          simp [stringAt, hlength, hbytes, htext]
  simp only [hfound, slice?_eq_some, Bytes.toString?_eq_some, stringEntry, standsAt_append,
    Bytes.length_ofNatLE]
  constructor
  · rintro ⟨length, ⟨hfour, hlength⟩, bytes, ⟨hsize, hbytes⟩, htext⟩
    obtain ⟨-, hsame⟩ := (Bytes.toNatLE_eq_iff hfour).1 hsize.symm
    rw [htext, Array.length_toList, ← hsame]
    exact ⟨hlength, hbytes⟩
  · rintro ⟨hlength, hbytes⟩
    have hlt : (Bytes.ofString text).length < Nat.pow 256 4 := by
      have hle := hbytes.le_length
      omega
    refine ⟨(Bytes.ofNatLE 4 (Bytes.ofString text).length).toArray, ⟨by simp, hlength⟩,
      (Bytes.ofString text).toArray, ⟨?_, hbytes⟩, rfl⟩
    rw [List.size_toArray, Bytes.toNatLE_ofNatLE _ _ hlt]

theorem field_eq_iff {bytes : Bytes} {width n : Nat} (h : offset + width ≤ bytes.length) :
    Record.field bytes offset width = n ↔
      n < Nat.pow 256 width ∧ StandsAt (Bytes.ofNatLE width n) offset bytes := by
  have hoffset := Nat.le_of_add_right_le h
  have hwidth : width ≤ (bytes.drop offset).length := by
    rw [List.length_drop]
    omega
  rw [Record.field, Bytes.toNatLE_take_eq_iff hwidth, standsAt_iff, and_iff_right hoffset]

theorem ofNat_field_eq_iff {bytes : Bytes} {n : UInt16} (h : offset + 2 ≤ bytes.length) :
    UInt16.ofNat (Record.field bytes offset 2) = n ↔
      StandsAt (Bytes.ofNatLE 2 n.toNat) offset bytes := by
  have hn : n.toNat < Nat.pow 256 2 := n.toNat_lt
  have hfield : Record.field bytes offset 2 < UInt16.size := ((field_eq_iff h).1 rfl).1
  rw [← UInt16.toNat_inj, UInt16.toNat_ofNat_of_lt' hfield, field_eq_iff h, and_iff_right hn]

/-- The record in the first bytes is the one whose code they are. -/
theorem Record.decode_eq_iff
    {blob : Bytes} {record : Record} (h : Record.width ≤ blob.length) :
    Record.decode blob = record ↔
      (record.name < Nat.pow 256 4 ∧ record.address < Nat.pow 256 4 ∧
        record.size < Nat.pow 256 4) ∧ record.encode <+: blob := by
  have hwidth : 18 ≤ blob.length := h
  obtain ⟨name, arity, locals, returns, address, size⟩ := record
  simp only [Record.decode, Record.encode, Record.mk.injEq, ← standsAt_zero, standsAt_append,
    List.length_append, Bytes.length_ofNatLE, Nat.zero_add]
  rw [field_eq_iff (by omega), field_eq_iff (by omega), field_eq_iff (by omega),
    ofNat_field_eq_iff (by omega), ofNat_field_eq_iff (by omega), ofNat_field_eq_iff (by omega)]
  tauto

/-- What a record says of a function: where the entry of its name stands in the
string table, its numbers, and where its code stands. -/
structure Record.Denotes
    (record : Record) (strings code : Bytes) (function : Function) : Prop where
  name : StandsAt (stringEntry function.name) record.name strings
  arity : record.arity = function.arity
  locals : record.locals = function.locals
  returns : record.returns = function.returns
  code : StandsAt function.code.toList record.address code
  size : function.code.size = record.size

theorem resolve_eq_ok
    {record : Record} {function : Function} (hstrings : strings.length < Nat.pow 256 4) :
    resolve strings.toArray code.toArray record = .ok function ↔
      record.Denotes strings code function := by
  simp only [resolve, bind_eq_ok, stringAt_eq_ok hstrings]
  constructor
  · rintro ⟨name, hname, hbody⟩
    cases hslice : slice? code.toArray record.address record.size with
    | none =>
      rw [hslice] at hbody
      cases hbody
    | some body =>
      rw [hslice] at hbody
      obtain rfl := Except.ok.inj hbody
      obtain ⟨hsize, hcode⟩ := slice?_eq_some.1 hslice
      exact ⟨hname, rfl, rfl, rfl, hcode, hsize⟩
  · rintro ⟨hname, harity, hlocals, hreturns, hcode, hsize⟩
    refine ⟨function.name, hname, ?_⟩
    rw [slice?_eq_some.2 ⟨hsize, hcode⟩, harity, hlocals, hreturns]

end Records

namespace Layout

variable {layout : Layout} {program : Program}

/-- What a blob of the function table says of a function. -/
def Describes (layout : Layout) (blob : Bytes) (function : Function) : Prop :=
  ∃ record : Record, record.encode <+: blob ∧
    record.Denotes layout.strings layout.code function

theorem describes_iff
    {blob : Bytes} {function : Function} (h : Record.width ≤ blob.length) :
    layout.Describes blob function ↔
      (Record.decode blob).Denotes layout.strings layout.code function := by
  constructor
  · rintro ⟨record, hrecord, hdenotes⟩
    -- what a record points to lies in a section, so its numbers fit their fields
    have hstrings := layout.strings_lt
    have hcode := layout.code_lt
    have hname := hdenotes.name.le_length
    have haddress := hdenotes.code.le_length
    have hsize := hdenotes.size
    rw [Array.length_toList] at haddress
    have hdecode : Record.decode blob = record :=
      (Record.decode_eq_iff h).2 ⟨⟨by omega, by omega, by omega⟩, hrecord⟩
    rwa [hdecode]
  · intro hdenotes
    exact ⟨Record.decode blob, ((Record.decode_eq_iff h).1 rfl).2, hdenotes⟩

/-- A layout holds a program: its records describe the functions one by one, and
its entry, if there is one, is the place of a function. -/
structure Holds (layout : Layout) (program : Program) : Prop where
  functions : List.Forall₂ layout.Describes layout.functions.blobs program.functions.toList
  entry : layout.entry.map UInt32.toNat = program.entry.map UInt16.toNat
  entry_lt : ∀ entry ∈ layout.entry, entry.toNat < layout.functions.blobs.length

theorem mapM_resolve_eq_ok {functions : List Function} :
    layout.container.records.mapM
        (resolve layout.strings.toArray layout.code.toArray) = .ok functions ↔
      List.Forall₂ layout.Describes layout.functions.blobs functions := by
  have hblobs (R : Bytes → Function → Prop) :
      List.Forall₂ R layout.functions.blobs functions ↔
        List.Forall₂ (fun blob function => Record.width ≤ blob.length ∧ R blob function)
          layout.functions.blobs functions := by
    rw [List.forall₂_and_left, and_iff_right layout.width_le]
  have hiff : (fun blob function => Record.width ≤ blob.length ∧ layout.Describes blob function) =
      fun blob function => Record.width ≤ blob.length ∧
        resolve layout.strings.toArray layout.code.toArray (Record.decode blob) =
          .ok function := by
    funext blob function
    rw [resolve_eq_ok layout.strings_lt]
    exact propext (and_congr_right fun h => describes_iff h)
  rw [mapM_eq_ok, container, List.forall₂_map_left_iff, hblobs layout.Describes, hiff, ← hblobs]

theorem entry_container_of_none (h : layout.entry = none) : layout.container.entry = none := by
  rw [container, h]
  rfl

theorem entry_container_of_some {entry : UInt32} (h : layout.entry = some entry) :
    layout.container.entry = some entry.toNat := by
  rw [container, h]
  rfl

theorem program_eq_ok : layout.container.program = .ok program ↔ layout.Holds program := by
  simp only [Container.program, bind_eq_ok]
  constructor
  · rintro ⟨functions, hfunctions, hprogram⟩
    have hdescribes := mapM_resolve_eq_ok.1 hfunctions
    cases hentry : layout.entry with
    | none =>
      rw [entry_container_of_none hentry] at hprogram
      obtain rfl := Except.ok.inj hprogram
      exact ⟨hdescribes, by rw [hentry]; rfl, by simp [hentry]⟩
    | some entry =>
      rw [entry_container_of_some hentry] at hprogram
      by_cases hlt : entry.toNat < functions.length
      · obtain rfl := Except.ok.inj ((if_pos hlt).symm.trans hprogram)
        rw [← hdescribes.length_eq] at hlt
        have hfits : (UInt16.ofNat entry.toNat).toNat = entry.toNat :=
          UInt16.toNat_ofNat_of_lt' (Nat.lt_trans hlt layout.functions.count_lt)
        refine ⟨hdescribes, ?_, by simpa [hentry] using hlt⟩
        rw [hentry]
        exact congrArg some hfits.symm
      · cases (if_neg hlt).symm.trans hprogram
  · rintro ⟨hfunctions, hentry, hlt⟩
    refine ⟨program.functions.toList, mapM_resolve_eq_ok.2 hfunctions, ?_⟩
    obtain ⟨functions, found⟩ := program
    cases hstored : layout.entry with
    | none =>
      rw [hstored] at hentry
      obtain rfl : found = none := Option.map_eq_none_iff.1 hentry.symm
      rw [entry_container_of_none hstored]
    | some entry =>
      rw [hstored] at hentry
      obtain ⟨index, rfl, hindex⟩ := Option.map_eq_some_iff.1 hentry.symm
      have hplace : entry.toNat < functions.toList.length := by
        rw [← hfunctions.length_eq]
        exact hlt entry hstored
      rw [entry_container_of_some hstored]
      refine (if_pos hplace).trans ?_
      rw [← hindex, UInt16.ofNat_toNat]

theorem program_eq_badEntry
    {functions : List Function} {entry : UInt32}
    (hfunctions : List.Forall₂ layout.Describes layout.functions.blobs functions)
    (hentry : layout.entry = some entry) (hle : functions.length ≤ entry.toNat) :
    layout.container.program = .error (.badEntry entry.toNat) := by
  refine (bind_eq_of_eq_ok (mapM_resolve_eq_ok.2 hfunctions)).trans ?_
  rw [entry_container_of_some hentry]
  exact if_neg (Nat.not_lt.2 hle)

end Layout

/-- Reading gives a program exactly if the source delivers the bytes of a layout
that holds it, and then reports its end. -/
theorem readFrom_eq_ok {source : Source} {program : Program} {info : Info} :
    Program.readFrom source = .ok (program, info) ↔
      ∃ layout : Layout, source.bytes = layout.bytes ∧ source.failure? = none ∧
        layout.Holds program ∧ layout.container.info = info := by
  simp only [Program.readFrom, bind_eq_ok, read_eq_ok_iff_layout]
  constructor
  · rintro ⟨_, ⟨layout, rfl, hbytes, hfailure⟩, found, hprogram, hpair⟩
    obtain ⟨rfl, rfl⟩ := Prod.mk.inj (Except.ok.inj hpair)
    exact ⟨layout, hbytes, hfailure, Layout.program_eq_ok.1 hprogram, rfl⟩
  · rintro ⟨layout, hbytes, hfailure, hprogram, rfl⟩
    exact ⟨_, ⟨layout, rfl, hbytes, hfailure⟩, program, Layout.program_eq_ok.2 hprogram, rfl⟩

/-- Reading a container accepts its format and nothing else: the bytes are those of
a layout, whose records describe the functions of the program. -/
theorem accepts_exactly_format {bytes : Bytes} {program : Program} {info : Info} :
    Program.readFrom (.ofBytes bytes) = .ok (program, info) ↔
      ∃ layout : Layout, layout.bytes = bytes ∧ layout.Holds program ∧
        layout.container.info = info := by
  rw [readFrom_eq_ok]
  constructor
  · rintro ⟨layout, hbytes, -, hholds, hinfo⟩
    exact ⟨layout, hbytes.symm, hholds, hinfo⟩
  · rintro ⟨layout, hbytes, hholds, hinfo⟩
    exact ⟨layout, hbytes.symm, rfl, hholds, hinfo⟩

/-- Two records share a name and code, and the second has a byte too many. -/
example :
    Program.readFrom (.ofBytes (signature ++
        [3, 1, 0, 1, 0, 7, 6, 0, 0, 0, 2, 0, 0, 0, 97, 98, 2, 0,
          18, 0, 0, 0, 0, 0, 1, 0, 0, 0, 1, 0, 0, 0, 0, 0, 1, 0, 0, 0,
          19, 0, 0, 0, 0, 0, 2, 0, 0, 0, 1, 0, 0, 0, 0, 0, 1, 0, 0, 0, 255,
          1, 0, 0, 0, 13, 0, 0])) =
      .ok (⟨#[⟨"ab", 1, 0, 1, #[13]⟩, ⟨"ab", 2, 0, 1, #[13]⟩], none⟩,
        ⟨⟨true, true⟩, none, 1, 1, 2, 2, 1, 0⟩) := by
  decide +kernel

end Container

end TypedStack
