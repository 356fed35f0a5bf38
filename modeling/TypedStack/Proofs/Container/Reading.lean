import Mathlib.Algebra.Ring.Nat
import TypedStack.Container.Reader
import TypedStack.Proofs.Except

/-!
# What readers accept

Each reader is described by the bytes that it takes from the front of a source and
the value that it makes of them. `Source.behind` puts bytes before a source, so
that these descriptions are equations: a reader gives a value and leaves a rest
exactly if the source is that rest behind bytes of the value.
-/

namespace TypedStack

namespace Container

namespace Source

/-- The source that delivers some bytes and goes on as another one. -/
def behind (source : Source) (bytes : Bytes) : Source :=
  ⟨bytes ++ source.bytes, source.fault.map fun fault => ⟨bytes.length + fault.after, fault.kind⟩⟩

@[simp] theorem behind_nil (source : Source) : source.behind [] = source := by
  simp [behind]

theorem behind_append (source : Source) (first second : Bytes) :
    source.behind (first ++ second) = (source.behind second).behind first := by
  simp [behind, Function.comp_def, Nat.add_assoc]

@[simp] theorem bytes_behind (source : Source) (bytes : Bytes) :
    (source.behind bytes).bytes = bytes ++ source.bytes := rfl

@[simp] theorem failure?_behind (source : Source) (bytes : Bytes) :
    (source.behind bytes).failure? = source.failure? := by
  rcases source with ⟨_, _ | fault⟩
  · rfl
  · simp [behind, failure?, Option.filter]

theorem take_eq_ok {source rest : Source} {atEnd : DeviceError} {n : Nat} {chunk : Bytes} :
    source.take atEnd n = .ok (chunk, rest) ↔ chunk.length = n ∧ source = rest.behind chunk := by
  constructor
  · intro h
    unfold take at h
    by_cases hready : (source.bytes.take n).length = n ∧ source.fault.all (n ≤ ·.after)
    · rw [if_pos hready] at h
      obtain ⟨rfl, rfl⟩ := Prod.mk.inj (Except.ok.inj h)
      obtain ⟨hlength, hfault⟩ := hready
      refine ⟨hlength, ?_⟩
      rcases source with ⟨bytes, _ | fault⟩
      · simp [behind]
      · have hle : n ≤ fault.after := by simpa using hfault
        simp [behind, hlength, Nat.add_sub_cancel' hle]
    · rw [if_neg hready] at h
      cases h
  · rintro ⟨rfl, rfl⟩
    rcases rest with ⟨bytes, _ | fault⟩
    · simp [take, behind]
    · simp [take, behind]

/-- A source that does not fail delivers its bytes and then reports its end. -/
theorem exists_behind_of_failure?_eq_none {source : Source} (h : source.failure? = none) :
    ∃ last : Source, last.bytes = [] ∧ last.failure? = none ∧
      source = last.behind source.bytes := by
  rcases source with ⟨bytes, _ | ⟨after, kind⟩⟩
  · exact ⟨⟨[], none⟩, rfl, rfl, by simp [behind]⟩
  · have hlt : bytes.length < after := by simpa [failure?, Option.filter] using h
    have hafter : bytes.length + (after - bytes.length) = after := by omega
    refine ⟨⟨[], some ⟨after - bytes.length, kind⟩⟩, rfl, ?_, by simp [behind, hafter]⟩
    simp [failure?, Option.filter]
    omega

theorem rest_eq_ok {source : Source} {bytes : Bytes} :
    source.rest = .ok bytes ↔ source.bytes = bytes ∧ source.failure? = none := by
  unfold rest
  cases source.failure? <;> simp

end Source

/-- Bytes behind their length, which has `width` bytes. -/
def framed (width : Nat) (bytes : Bytes) : Bytes :=
  Bytes.ofNatLE width bytes.length ++ bytes

section Readers

variable {source rest : Source}

theorem readExactly_eq_ok {atEnd : DeviceError} {n : Nat} {chunk : Bytes} :
    readExactly atEnd n source = .ok (chunk, rest) ↔
      chunk.length = n ∧ source = rest.behind chunk := by
  rw [readExactly, mapError_eq_ok, Source.take_eq_ok]

theorem readNumber_eq_ok {width n : Nat} :
    readNumber width source = .ok (n, rest) ↔
      n < Nat.pow 256 width ∧ source = rest.behind (Bytes.ofNatLE width n) := by
  simp only [readNumber, map_eq_ok, Prod.exists, Prod.mk.injEq, readExactly_eq_ok]
  constructor
  · rintro ⟨chunk, _, ⟨hn, rfl⟩, hlength, hsource⟩
    obtain ⟨hlt, rfl⟩ := (Bytes.toNatLE_eq_iff hlength).1 hn
    exact ⟨hlt, hsource⟩
  · rintro ⟨hlt, hsource⟩
    have hn := Bytes.toNatLE_ofNatLE width n hlt
    exact ⟨_, rest, ⟨hn, rfl⟩, Bytes.length_ofNatLE width n, hsource⟩

theorem readBlob_eq_ok {width : Nat} {blob : Bytes} :
    readBlob width source = .ok (blob, rest) ↔
      blob.length < Nat.pow 256 width ∧ source = rest.behind (framed width blob) := by
  simp only [readBlob, bind_eq_ok, Prod.exists, readNumber_eq_ok, readExactly_eq_ok, framed,
    Source.behind_append]
  constructor
  · rintro ⟨_, _, ⟨hlt, rfl⟩, rfl, rfl⟩
    exact ⟨hlt, rfl⟩
  · rintro ⟨hlt, rfl⟩
    exact ⟨_, _, ⟨hlt, rfl⟩, rfl, rfl⟩

theorem readSignature_eq_ok {value : Unit} :
    readSignature source = .ok (value, rest) ↔ source = rest.behind signature := by
  simp only [readSignature, bind_eq_ok, Prod.exists, mapError_eq_ok, Source.take_eq_ok]
  constructor
  · rintro ⟨bytes, _, ⟨-, rfl⟩, hbytes⟩
    by_cases hsame : bytes = signature
    · rw [if_pos hsame] at hbytes
      obtain ⟨-, rfl⟩ := Prod.mk.inj (Except.ok.inj hbytes)
      rw [hsame]
    · rw [if_neg hsame] at hbytes
      cases hbytes
  · rintro rfl
    exact ⟨signature, rest, ⟨rfl, rfl⟩, if_pos rfl⟩

theorem Flags.ofBits?_eq_some {byte : UInt8} {flags : Flags} :
    Flags.ofBits? byte = some flags ↔ byte = flags.bits := by
  constructor
  · intro h
    unfold Flags.ofBits? at h
    by_cases hlt : byte.toNat < 4
    · rw [if_pos hlt] at h
      obtain rfl := Option.some.inj h
      have hcases : byte.toNat = 0 ∨ byte.toNat = 1 ∨ byte.toNat = 2 ∨ byte.toNat = 3 := by omega
      apply UInt8.toNat_inj.1
      rcases hcases with h | h | h | h <;> simp [h, Flags.bits]
    · rw [if_neg hlt] at h
      cases h
  · rintro rfl
    rcases flags with ⟨_ | _, _ | _⟩ <;> rfl

theorem readFlags_eq_ok {flags : Flags} :
    readFlags source = .ok (flags, rest) ↔ source = rest.behind [flags.bits] := by
  have hbyte (byte : UInt8) : Bytes.ofNatLE 1 byte.toNat = [byte] := by
    simpa [Bytes.toNatLE] using Bytes.ofNatLE_toNatLE [byte]
  simp only [readFlags, bind_eq_ok, Prod.exists, readNumber_eq_ok]
  constructor
  · rintro ⟨bits, middle, ⟨hlt, rfl⟩, hflags⟩
    cases hfound : Flags.ofBits? (UInt8.ofNat bits) with
    | none =>
      rw [hfound] at hflags
      cases hflags
    | some found =>
      rw [hfound] at hflags
      cases hflags
      have hbits : (UInt8.ofNat bits).toNat = bits := UInt8.toNat_ofNat_of_lt' hlt
      rw [← Flags.ofBits?_eq_some.1 hfound, ← hbyte, hbits]
  · rintro rfl
    refine ⟨flags.bits.toNat, rest, ⟨flags.bits.toNat_lt, by rw [hbyte]⟩, ?_⟩
    rw [UInt8.ofNat_toNat, Flags.ofBits?_eq_some.2 rfl]

/-! ## Tables -/

/-- A table of byte sequences whose number and lengths fit two bytes. -/
structure Table where
  blobs : List Bytes
  count_lt : blobs.length < Nat.pow 256 2
  length_lt : ∀ blob ∈ blobs, blob.length < Nat.pow 256 2

/-- The number of byte sequences, and each of them behind its length. -/
def Table.bytes (table : Table) : Bytes :=
  Bytes.ofNatLE 2 table.blobs.length ++ table.blobs.flatMap (framed 2)

/-- A reader of items takes the blobs that are `valid` and makes values of them. -/
def ReadsBlobs {α : Type}
    (item : Nat → Reader α) (valid : Bytes → Prop) (value : Bytes → α) : Prop :=
  ∀ index source found rest, item index source = .ok (found, rest) ↔
    ∃ blob, valid blob ∧ value blob = found ∧ readBlob 2 source = .ok (blob, rest)

section Tables

variable {α : Type} {item : Nat → Reader α} {valid : Bytes → Prop} {value : Bytes → α}

theorem readMany_eq_ok
    (hitem : ReadsBlobs item valid value) {count index : Nat} {done values : List α} :
    readMany item count index done source = .ok (values, rest) ↔
      ∃ blobs : List Bytes, blobs.length = count ∧ (∀ blob ∈ blobs, blob.length < Nat.pow 256 2) ∧
        (∀ blob ∈ blobs, valid blob) ∧ done.reverse ++ blobs.map value = values ∧
        source = rest.behind (blobs.flatMap (framed 2)) := by
  induction count generalizing index done source with
  | zero =>
    constructor
    · intro h
      obtain ⟨rfl, rfl⟩ := Prod.mk.inj (Except.ok.inj h)
      exact ⟨[], rfl, by simp, by simp, by simp, by simp⟩
    · rintro ⟨blobs, hcount, -, -, rfl, rfl⟩
      obtain rfl := List.eq_nil_of_length_eq_zero hcount
      simp [readMany]
  | succ count ih =>
    have hstep : readMany item (count + 1) index done source = .ok (values, rest) ↔
        ∃ found middle, item index source = .ok (found, middle) ∧
          readMany item count (index + 1) (found :: done) middle = .ok (values, rest) := by
      rcases hfirst : item index source with e | ⟨found, middle⟩
      · simp [readMany, hfirst]
      · simp [readMany, hfirst]
    simp only [hstep, hitem index source, ih, readBlob_eq_ok]
    constructor
    · rintro ⟨_, _, ⟨blob, hvalid, rfl, hlt, rfl⟩, blobs, rfl, hfit, hall, rfl, rfl⟩
      refine ⟨blob :: blobs, rfl, ?_, ?_, by simp, ?_⟩
      · exact List.forall_mem_cons.2 ⟨hlt, hfit⟩
      · exact List.forall_mem_cons.2 ⟨hvalid, hall⟩
      · rw [List.flatMap_cons, Source.behind_append]
    · rintro ⟨_ | ⟨blob, blobs⟩, hcount, hfit, hall, rfl, rfl⟩
      · cases hcount
      · obtain ⟨hlt, hfit⟩ := List.forall_mem_cons.1 hfit
        obtain ⟨hvalid, hall⟩ := List.forall_mem_cons.1 hall
        rw [List.flatMap_cons, Source.behind_append]
        exact ⟨_, _, ⟨blob, hvalid, rfl, hlt, rfl⟩, blobs, Nat.succ.inj hcount, hfit, hall,
          by simp, rfl⟩

theorem readTable_eq_ok (hitem : ReadsBlobs item valid value) {values : List α} :
    readTable item source = .ok (values, rest) ↔
      ∃ table : Table, (∀ blob ∈ table.blobs, valid blob) ∧ table.blobs.map value = values ∧
        source = rest.behind table.bytes := by
  simp only [readTable, bind_eq_ok, Prod.exists, readNumber_eq_ok, readMany_eq_ok hitem,
    Table.bytes, Source.behind_append]
  constructor
  · rintro ⟨_, _, ⟨hlt, rfl⟩, blobs, rfl, hfit, hall, rfl, rfl⟩
    exact ⟨⟨blobs, hlt, hfit⟩, hall, by simp, rfl⟩
  · rintro ⟨⟨blobs, hlt, hfit⟩, hall, rfl, rfl⟩
    exact ⟨_, _, ⟨hlt, rfl⟩, blobs, rfl, hfit, hall, rfl, rfl⟩

end Tables

theorem readBlobs_eq_ok {blobs : List Bytes} :
    readTable (fun _ => readBlob 2) source = .ok (blobs, rest) ↔
      ∃ table : Table, table.blobs = blobs ∧ source = rest.behind table.bytes := by
  have hitem : ReadsBlobs (fun _ => readBlob 2) (fun _ => True) id := by
    intro index source found rest
    simp
  simp [readTable_eq_ok hitem]

theorem readRecords_eq_ok {records : List Record} :
    readTable readRecord source = .ok (records, rest) ↔
      ∃ table : Table, (∀ blob ∈ table.blobs, Record.width ≤ blob.length) ∧
        table.blobs.map Record.decode = records ∧ source = rest.behind table.bytes := by
  apply readTable_eq_ok
  intro index source record rest
  simp only [readRecord, bind_eq_ok, Prod.exists]
  constructor
  · rintro ⟨blob, middle, hblob, hrecord⟩
    by_cases hshort : blob.length < Record.width
    · rw [if_pos hshort] at hrecord
      cases hrecord
    · rw [if_neg hshort] at hrecord
      obtain ⟨rfl, rfl⟩ := Prod.mk.inj (Except.ok.inj hrecord)
      exact ⟨blob, Nat.le_of_not_lt hshort, rfl, hblob⟩
  · rintro ⟨blob, hwidth, rfl, hblob⟩
    exact ⟨blob, rest, hblob, if_neg (Nat.not_lt.2 hwidth)⟩

/-! ## Sections that need not be there -/

theorem readEntry_eq_ok {flags : Flags} {entry : Option Nat} :
    readEntry flags source = .ok (entry, rest) ↔
      ∃ stored : Option UInt32, stored.map UInt32.toNat = entry ∧
        flags.library = stored.isNone ∧
        source = rest.behind (stored.elim [] fun index => Bytes.ofNatLE 4 index.toNat) := by
  unfold readEntry
  by_cases hlibrary : flags.library = true
  · rw [if_pos hlibrary]
    constructor
    · intro h
      obtain ⟨rfl, rfl⟩ := Prod.mk.inj (Except.ok.inj h)
      exact ⟨none, rfl, hlibrary, by simp⟩
    · rintro ⟨stored, rfl, hnone, rfl⟩
      rw [hlibrary] at hnone
      cases stored with
      | none => simp
      | some index => cases hnone
  · rw [if_neg hlibrary]
    simp only [map_eq_ok, Prod.exists, Prod.mk.injEq, readNumber_eq_ok]
    rw [Bool.not_eq_true] at hlibrary
    constructor
    · rintro ⟨index, _, ⟨rfl, rfl⟩, hlt, rfl⟩
      have hindex : (UInt32.ofNat index).toNat = index := UInt32.toNat_ofNat_of_lt' hlt
      exact ⟨some (UInt32.ofNat index), by simp [hindex], hlibrary, by simp [hindex]⟩
    · rintro ⟨stored, rfl, hsome, rfl⟩
      rw [hlibrary] at hsome
      cases stored with
      | none => cases hsome
      | some index => exact ⟨index.toNat, rest, ⟨rfl, rfl⟩, index.toNat_lt, rfl⟩

theorem readSourceMaps_eq_ok {flags : Flags} {sourceMaps : List Bytes} :
    readSourceMaps flags source = .ok (sourceMaps, rest) ↔
      ∃ stored : Option Table, stored.elim [] Table.blobs = sourceMaps ∧
        flags.sourceMap = stored.isSome ∧ source = rest.behind (stored.elim [] Table.bytes) := by
  unfold readSourceMaps
  by_cases hflag : flags.sourceMap = true
  · rw [if_pos hflag, readBlobs_eq_ok]
    constructor
    · rintro ⟨table, rfl, rfl⟩
      exact ⟨some table, rfl, hflag, rfl⟩
    · rintro ⟨stored, rfl, hsome, rfl⟩
      rw [hflag] at hsome
      cases stored with
      | none => cases hsome
      | some table => exact ⟨table, rfl, rfl⟩
  · rw [if_neg hflag]
    rw [Bool.not_eq_true] at hflag
    constructor
    · intro h
      obtain ⟨rfl, rfl⟩ := Prod.mk.inj (Except.ok.inj h)
      exact ⟨none, rfl, hflag, by simp⟩
    · rintro ⟨stored, rfl, hnone, rfl⟩
      rw [hflag] at hnone
      cases stored with
      | none => simp
      | some table => cases hnone

theorem readEnd_eq_ok {value : Unit} :
    readEnd source = .ok value ↔ source.bytes = [] ∧ source.failure? = none := by
  rw [← Source.rest_eq_ok, readEnd]
  cases source.rest with
  | error shortage => simp
  | ok bytes => cases bytes <;> simp

end Readers

end Container

end TypedStack
