import TypedStack.Proofs.Container.Format

/-!
# Containers tell where they end

A reader takes certain bytes if it finds a value in them whatever follows, and runs out of
input wherever they are cut off. Readers of this kind can be put one behind the other. All
sections of a container are read so, before any of them is looked into; hence a container
that was cut off is never taken for something else that is wrong with it, and bytes behind
a container are never taken for a part of it.
-/

namespace TypedStack

namespace Container

/-- A reader takes the bytes of a value: it gives the value and leaves what follows, and it
is stopped by every source that ends within the bytes. -/
structure Takes {α : Type} (reader : Reader α) (bytes : Bytes) (value : α) : Prop where
  found (rest : Source) : reader (rest.behind bytes) = .ok (value, rest)
  stopped (cut : Bytes) (isPrefix : cut <+: bytes) (ne : cut ≠ bytes) :
    ∃ cause, reader (.ofBytes cut) = .error (.device cause)

theorem behind_ofBytes (rest bytes : Bytes) :
    (Source.ofBytes rest).behind bytes = .ofBytes (bytes ++ rest) := rfl

/-- Bytes cut off within two parts are cut off within the first one, or else within the
second one. -/
theorem cut_append {cut first second : Bytes} (h : cut <+: first ++ second)
    (hne : cut ≠ first ++ second) :
    (cut <+: first ∧ cut ≠ first) ∨
      ∃ rest, cut = first ++ rest ∧ rest <+: second ∧ rest ≠ second := by
  rcases List.prefix_or_prefix_of_prefix h (List.prefix_append first second) with hcut | hfirst
  · by_cases hsame : cut = first
    · refine .inr ⟨[], by rw [hsame, List.append_nil], List.nil_prefix, ?_⟩
      rintro rfl
      exact hne (by rw [hsame, List.append_nil])
    · exact .inl ⟨hcut, hsame⟩
  · obtain ⟨rest, rfl⟩ := hfirst
    refine .inr ⟨rest, rfl, (List.prefix_append_right_inj first).1 h, ?_⟩
    rintro rfl
    exact hne rfl

namespace Takes

variable {α β : Type} {reader : Reader α} {bytes bytes' : Bytes} {value : α} {result : β}

theorem nil (h : ∀ rest, reader rest = .ok (value, rest)) : Takes reader [] value where
  found rest := by rw [Source.behind_nil, h]
  stopped _ isPrefix ne := absurd (List.prefix_nil.1 isPrefix) ne

theorem map (h : Takes reader bytes value) (f : α → β) :
    Takes (fun source => (reader source).map fun found => (f found.1, found.2))
      bytes (f value) where
  found rest := by
    rw [h.found]
    rfl
  stopped cut isPrefix ne := by
    obtain ⟨cause, hcause⟩ := h.stopped cut isPrefix ne
    exact ⟨cause, by rw [hcause]; rfl⟩

/-- One reader behind another takes what they take, one behind the other. -/
theorem andThen (h : Takes reader bytes value) {next : α × Source → Except Error (β × Source)}
    (hnext : Takes (fun source => next (value, source)) bytes' result) :
    Takes (fun source => reader source >>= next) (bytes ++ bytes') result where
  found rest := by
    rw [Source.behind_append]
    exact (bind_eq_of_eq_ok (h.found _)).trans (hnext.found rest)
  stopped cut isPrefix ne := by
    rcases cut_append isPrefix ne with ⟨hcut, hne⟩ | ⟨rest, rfl, hrest, hne⟩
    · obtain ⟨cause, hcause⟩ := h.stopped cut hcut hne
      exact ⟨cause, by rw [hcause]; rfl⟩
    · obtain ⟨cause, hcause⟩ := hnext.stopped rest hrest hne
      have hfound := h.found (.ofBytes rest)
      rw [behind_ofBytes] at hfound
      exact ⟨cause, (bind_eq_of_eq_ok hfound).trans hcause⟩

/-- A check behind a reader takes nothing. -/
theorem andCheck (h : Takes reader bytes value) {next : α × Source → Except Error (β × Source)}
    (hnext : ∀ rest, next (value, rest) = .ok (result, rest)) :
    Takes (fun source => reader source >>= next) bytes result := by
  simpa only [List.append_nil] using h.andThen (Takes.nil hnext)

end Takes

/-! ## Numbers and byte sequences -/

theorem Source.take_of_short
    (source : Source) (atEnd : DeviceError) {n : Nat} (h : source.bytes.length < n) :
    source.take atEnd n = .error (source.failure?.elim atEnd .failed) := by
  have hshort : ¬((source.bytes.take n).length = n ∧ source.fault.all (n ≤ ·.after)) := by
    rw [List.length_take]
    omega
  exact if_neg hshort

theorem readExactly_of_short
    {atEnd : DeviceError} {n : Nat} {cut : Bytes} (h : cut.length < n) :
    readExactly atEnd n (.ofBytes cut) = .error (.device atEnd) := by
  rw [readExactly, Source.take_of_short _ _ h]
  rfl

theorem length_lt_of_cut {cut bytes : Bytes} (h : cut <+: bytes) (hne : cut ≠ bytes) :
    cut.length < bytes.length :=
  Nat.lt_of_le_of_ne h.length_le fun hlength => hne (h.eq_of_length hlength)

theorem takes_readExactly {n : Nat} {chunk : Bytes} (cause : DeviceError) (h : chunk.length = n) :
    Takes (readExactly cause n) chunk chunk where
  found _ := readExactly_eq_ok.2 ⟨h, rfl⟩
  stopped _ isPrefix ne := ⟨cause, readExactly_of_short (h ▸ length_lt_of_cut isPrefix ne)⟩

theorem takes_readNumber {width n : Nat} (h : n < Nat.pow 256 width) :
    Takes (readNumber width) (Bytes.ofNatLE width n) n := by
  have hbytes := takes_readExactly .endInNumber (Bytes.length_ofNatLE width n)
  have hnumber := hbytes.map Bytes.toNatLE
  rwa [Bytes.toNatLE_ofNatLE width n h] at hnumber

theorem takes_readBlob {width : Nat} {blob : Bytes} (h : blob.length < Nat.pow 256 width) :
    Takes (readBlob width) (framed width blob) blob :=
  (takes_readNumber h).andThen (takes_readExactly .endInBlob rfl)

theorem takes_readRecord (index : Nat) {blob : Bytes} (hlt : blob.length < Nat.pow 256 2)
    (hwidth : Record.width ≤ blob.length) :
    Takes (readRecord index) (framed 2 blob) (.decode blob) :=
  (takes_readBlob hlt).andCheck fun _ => if_neg (Nat.not_lt.2 hwidth)

theorem takes_readFlags (flags : Flags) : Takes readFlags [flags.bits] flags where
  found _ := readFlags_eq_ok.2 rfl
  stopped cut isPrefix ne := by
    have hshort : cut.length < 1 := length_lt_of_cut isPrefix ne
    have hnumber : readNumber 1 (.ofBytes cut) = .error (.device .endInNumber) := by
      rw [readNumber, readExactly_of_short hshort]
      rfl
    exact ⟨.endInNumber, by rw [readFlags, hnumber]; rfl⟩

/-! ## Tables -/

section Tables

variable {α : Type} {item : Nat → Reader α} {value : Bytes → α}

theorem readMany_succ (count index : Nat) (done : List α) :
    readMany item (count + 1) index done = fun source =>
      item index source >>= fun found =>
        readMany item count (index + 1) (found.1 :: done) found.2 := by
  funext source
  rw [readMany]
  cases item index source <;> rfl

theorem takes_readMany
    {blobs : List Bytes}
    (hitem : ∀ blob ∈ blobs, ∀ index, Takes (item index) (framed 2 blob) (value blob))
    (index : Nat) (done : List α) :
    Takes (readMany item blobs.length index done) (blobs.flatMap (framed 2))
      (done.reverse ++ blobs.map value) := by
  induction blobs generalizing index done with
  | nil =>
    refine Takes.nil fun rest => ?_
    rw [List.map_nil, List.append_nil]
    rfl
  | cons blob blobs ih =>
    obtain ⟨hfirst, hrest⟩ := List.forall_mem_cons.1 hitem
    have hdone : done.reverse ++ (blob :: blobs).map value =
        (value blob :: done).reverse ++ blobs.map value := by
      simp
    rw [List.length_cons, readMany_succ, List.flatMap_cons, hdone]
    exact (hfirst index).andThen (ih hrest (index + 1) (value blob :: done))

theorem takes_readTable (table : Table)
    (hitem : ∀ blob ∈ table.blobs, ∀ index, Takes (item index) (framed 2 blob) (value blob)) :
    Takes (readTable item) table.bytes (table.blobs.map value) :=
  (takes_readNumber table.count_lt).andThen (takes_readMany hitem 0 [])

end Tables

theorem takes_readBlobs (table : Table) :
    Takes (readTable fun _ => readBlob 2) table.bytes table.blobs := by
  have htable := takes_readTable table fun blob hblob _ =>
    takes_readBlob (table.length_lt blob hblob)
  rwa [List.map_id'] at htable

theorem takes_readRecords (table : Table)
    (hwidth : ∀ blob ∈ table.blobs, Record.width ≤ blob.length) :
    Takes (readTable readRecord) table.bytes (table.blobs.map Record.decode) :=
  takes_readTable table fun blob hblob index =>
    takes_readRecord index (table.length_lt blob hblob) (hwidth blob hblob)

/-! ## Sections -/

theorem takes_readEntry (layout : Layout) :
    Takes (readEntry layout.flags)
      (layout.entry.elim [] fun entry => Bytes.ofNatLE 4 entry.toNat)
      (layout.entry.map UInt32.toNat) := by
  unfold readEntry Layout.flags
  cases layout.entry with
  | none => exact Takes.nil fun _ => rfl
  | some entry => exact (takes_readNumber entry.toNat_lt).map some

theorem takes_readSourceMaps (layout : Layout) :
    Takes (readSourceMaps layout.flags) (layout.sourceMaps.elim [] Table.bytes)
      (layout.sourceMaps.elim [] Table.blobs) := by
  unfold readSourceMaps Layout.flags
  cases layout.sourceMaps with
  | none => exact Takes.nil fun _ => rfl
  | some table => exact takes_readBlobs table

/-- Read the sections behind the signature. -/
def readSections : Reader Container := fun source => do
  let (flags, source) ← readFlags source
  let (entry, source) ← readEntry flags source
  let (types, source) ← readTable (fun _ => readBlob 2) source
  let (strings, source) ← readBlob 4 source
  let (records, source) ← readTable readRecord source
  let (code, source) ← readBlob 4 source
  let (sourceMaps, source) ← readSourceMaps flags source
  return ({ flags, entry, types, strings, records, code, sourceMaps }, source)

theorem read_eq_readSections (source : Source) :
    read source = (do
      let (_, source) ← readSignature source
      let (container, source) ← readSections source
      readEnd source
      return container) := by
  simp only [read, readSections, bind_assoc, pure_bind]

theorem takes_readSections (layout : Layout) :
    Takes readSections layout.body layout.container := by
  refine (takes_readFlags layout.flags).andThen ?_
  refine (takes_readEntry layout).andThen ?_
  refine (takes_readBlobs layout.types).andThen ?_
  refine (takes_readBlob layout.strings_lt).andThen ?_
  refine (takes_readRecords layout.functions layout.width_le).andThen ?_
  refine (takes_readBlob layout.code_lt).andThen ?_
  exact (takes_readSourceMaps layout).andCheck fun _ => rfl

/-! ## Containers that are cut off or go on -/

theorem read_of_short {cut : Bytes} (h : cut.length < signature.length) :
    read (.ofBytes cut) = .error .badSignature := by
  rw [read, readSignature, Source.take_of_short _ _ h]
  rfl

theorem read_behind_signature (source : Source) :
    read (source.behind signature) = (do
      let (container, source) ← readSections source
      readEnd source
      return container) := by
  have hsignature : readSignature (source.behind signature) = .ok ((), source) :=
    readSignature_eq_ok.2 rfl
  rw [read_eq_readSections, bind_eq_of_eq_ok hsignature]

theorem read_of_cut {layout : Layout} {cut : Bytes} (h : cut <+: layout.body)
    (hne : cut ≠ layout.body) :
    ∃ cause, read (.ofBytes (signature ++ cut)) = .error (.device cause) := by
  obtain ⟨cause, hcause⟩ := (takes_readSections layout).stopped cut h hne
  rw [← behind_ofBytes, read_behind_signature, hcause]
  exact ⟨cause, rfl⟩

theorem read_of_extra (layout : Layout) {extra : Bytes} (h : extra ≠ []) :
    read (.ofBytes (layout.bytes ++ extra)) = .error (.trailingBytes extra.length) := by
  have hend : readEnd (.ofBytes extra) = .error (.trailingBytes extra.length) := by
    cases extra with
    | nil => exact absurd rfl h
    | cons byte rest => rfl
  rw [Layout.bytes, List.append_assoc, ← behind_ofBytes, ← behind_ofBytes,
    read_behind_signature, (takes_readSections layout).found]
  exact congrArg (· >>= fun _ => .ok layout.container) hend

theorem readFrom_of_read_eq_error {source : Source} {e : Error} (h : read source = .error e) :
    Program.readFrom source = .error e := by
  rw [Program.readFrom, h]
  rfl

/-- A container that is accepted tells where it ends. Cut off anywhere before its end it is
refused: within the signature as no container, and behind it because the input ends. With
anything behind its end it is refused for the bytes left over. -/
theorem accepted_self_delimiting
    {bytes : Bytes} {program : Program} {info : Info}
    (h : Program.readFrom (.ofBytes bytes) = .ok (program, info)) :
    (∀ cut, cut <+: bytes → cut ≠ bytes →
      (cut.length < 17 → Program.readFrom (.ofBytes cut) = .error .badSignature) ∧
      (17 ≤ cut.length →
        ∃ cause, Program.readFrom (.ofBytes cut) = .error (.device cause))) ∧
    ∀ extra, extra ≠ [] →
      Program.readFrom (.ofBytes (bytes ++ extra)) = .error (.trailingBytes extra.length) := by
  obtain ⟨layout, hbytes, -⟩ := readFrom_eq_ok.1 h
  obtain rfl : bytes = layout.bytes := hbytes
  have hlength : signature.length = 17 := by decide
  refine ⟨fun cut hcut hne => ⟨?_, ?_⟩, ?_⟩
  · intro hshort
    exact readFrom_of_read_eq_error (read_of_short (hlength ▸ hshort))
  · intro hlong
    rw [Layout.bytes] at hcut hne
    rcases cut_append hcut hne with ⟨hsignature, hdiffers⟩ | ⟨rest, rfl, hrest, hdiffers⟩
    · have hshort := length_lt_of_cut hsignature hdiffers
      omega
    · obtain ⟨cause, hcause⟩ := read_of_cut hrest hdiffers
      exact ⟨cause, readFrom_of_read_eq_error hcause⟩
  · intro extra hextra
    exact readFrom_of_read_eq_error (read_of_extra layout hextra)

/-- A library with one function, whose name has four bytes and whose code has two. -/
def oneFunction : Bytes :=
  signature ++
    [1, 0, 0, 8, 0, 0, 0, 4, 0, 0, 0, 109, 97, 105, 110, 1, 0,
      18, 0, 0, 0, 0, 0, 0, 0, 0, 0, 0, 0, 0, 0, 0, 0, 2, 0, 0, 0, 2, 0, 0, 0, 1, 13]

theorem readFrom_oneFunction :
    Program.readFrom (.ofBytes oneFunction) =
      .ok (⟨#[⟨"main", 0, 0, 0, #[1, 13]⟩], none⟩, ⟨⟨true, false⟩, none, 0, 1, 4, 1, 2, 0⟩) := by
  decide +kernel

/-- Cut off within the signature, the name, the function record and the code, and with a byte
too many. -/
theorem accepted_self_delimiting_blobs :
    Program.readFrom (.ofBytes (oneFunction.take 16)) = .error .badSignature ∧
    (∃ cause, Program.readFrom (.ofBytes (oneFunction.take 30)) = .error (.device cause)) ∧
    (∃ cause, Program.readFrom (.ofBytes (oneFunction.take 40)) = .error (.device cause)) ∧
    (∃ cause, Program.readFrom (.ofBytes (oneFunction.take 59)) = .error (.device cause)) ∧
    Program.readFrom (.ofBytes (oneFunction ++ [7])) = .error (.trailingBytes 1) := by
  obtain ⟨hcut, hextra⟩ := accepted_self_delimiting readFrom_oneFunction
  refine ⟨?_, ?_, ?_, ?_, hextra [7] (List.cons_ne_nil _ _)⟩
  · exact (hcut _ (List.take_prefix _ _) (by decide)).1 (by decide)
  · exact (hcut _ (List.take_prefix _ _) (by decide)).2 (by decide)
  · exact (hcut _ (List.take_prefix _ _) (by decide)).2 (by decide)
  · exact (hcut _ (List.take_prefix _ _) (by decide)).2 (by decide)

end Container

end TypedStack
