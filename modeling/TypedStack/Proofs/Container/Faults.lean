import TypedStack.Proofs.Container.Delimiting
import TypedStack.Proofs.Container.RoundTrip

/-!
# Faults of devices

A source that fails can be compared with one that delivers the same bytes and does not. Step by
step, a reader either reports the failure or does what it does on the other source, and it
leaves the two at the same place. Readers of this kind can be put one behind the other, and
all sections behind the signature are read so. The signature is not: a device that says that its
input has ended is believed there. Nothing is accepted from a source that fails, since the last
step asks for its end. A device that takes only some bytes of a program is left with their first
ones.
-/

namespace TypedStack

namespace Container

/-- The source that delivers the same bytes and does not fail. -/
def Source.steady (source : Source) : Source :=
  .ofBytes source.bytes

/-- Whether the error is the failure of a device. -/
def Error.isFailure : Error → Bool
  | .device (.failed _) => true
  | _ => false

/-- How reading from a source compares with reading the same bytes without a fault, if the
source fails in the given way or not at all: the failure is reported, or the same error, which
is no failure, or the same value is found and the rests hold the same bytes. -/
inductive Matches {α : Type} (failure? : Option FailureKind) :
    Except Error (α × Source) → Except Error (α × Source) → Prop where
  | failed {kind : FailureKind} (failure_eq : failure? = some kind)
      (steady : Except Error (α × Source)) :
      Matches failure? (.error (.device (.failed kind))) steady
  | stopped {e : Error} (isFailure_eq : e.isFailure = false) :
      Matches failure? (.error e) (.error e)
  | found (value : α) {rest : Source} (failure_eq : rest.failure? = failure?) :
      Matches failure? (.ok (value, rest)) (.ok (value, rest.steady))

/-- A reader that does not take a failure for anything else. -/
def Candid {α : Type} (reader : Reader α) : Prop :=
  ∀ source, Matches source.failure? (reader source) (reader source.steady)

section Composition

variable {α β : Type} {failure? : Option FailureKind} {reader : Reader α}

/-- What follows a reading is compared from the places where it leaves the sources. -/
theorem Matches.andThen
    {result steady : Except Error (α × Source)} (h : Matches failure? result steady)
    {next : α × Source → Except Error (β × Source)}
    (hnext : ∀ value, Candid fun source => next (value, source)) :
    Matches failure? (result >>= next) (steady >>= next) := by
  cases h with
  | failed hfailure => exact .failed hfailure _
  | stopped hnot => exact .stopped hnot
  | found value hfailure => exact hfailure ▸ hnext value _

namespace Candid

theorem done (value : α) : Candid fun source => .ok (value, source) :=
  fun _ => .found value rfl

theorem refused {e : Error} (h : e.isFailure = false) : Candid (fun _ => .error e : Reader α) :=
  fun _ => .stopped h

/-- One candid reader behind another. -/
theorem andThen (h : Candid reader) {next : α × Source → Except Error (β × Source)}
    (hnext : ∀ value, Candid fun source => next (value, source)) :
    Candid fun source => reader source >>= next :=
  fun source => (h source).andThen hnext

theorem map (h : Candid reader) (f : α → β) :
    Candid fun source => (reader source).map fun found => (f found.1, found.2) := by
  intro source
  have hfirst := h source
  dsimp only
  generalize reader source = result, reader source.steady = steady at hfirst
  cases hfirst with
  | failed hfailure => exact .failed hfailure _
  | stopped hnot => exact .stopped hnot
  | found value hfailure => exact .found (f value) hfailure

theorem choose {c : Prop} [Decidable c] {first second : Reader α} (hfirst : Candid first)
    (hsecond : Candid second) :
    Candid fun source => if c then first source else second source := by
  by_cases hc : c
  · simpa only [if_pos hc] using hfirst
  · simpa only [if_neg hc] using hsecond

end Candid

end Composition

/-! ## Numbers and byte sequences -/

section Exactly

variable {source : Source} {atEnd : DeviceError} {n : Nat}

theorem Source.steady_behind (source : Source) (bytes : Bytes) :
    (source.behind bytes).steady = source.steady.behind bytes := rfl

theorem Source.eq_of_take_eq_error {cause : DeviceError} (h : source.take atEnd n = .error cause) :
    cause = source.failure?.elim atEnd .failed := by
  unfold take at h
  by_cases hready : (source.bytes.take n).length = n ∧ source.fault.all (n ≤ ·.after)
  · rw [if_pos hready] at h
    cases h
  · rw [if_neg hready] at h
    exact (Except.error.inj h).symm

/-- A source that does not fail delivers bytes as long as there are any. -/
theorem Source.length_lt_of_take_eq_error {cause : DeviceError} (hfailure : source.failure? = none)
    (h : source.take atEnd n = .error cause) : source.bytes.length < n := by
  apply Nat.lt_of_not_le
  intro hle
  obtain ⟨last, -, -, hsource⟩ := exists_behind_of_failure?_eq_none hfailure
  rw [← List.take_append_drop n source.bytes, behind_append] at hsource
  have hfound :
      source.take atEnd n = .ok (source.bytes.take n, last.behind (source.bytes.drop n)) :=
    take_eq_ok.2 ⟨List.length_take_of_le hle, hsource⟩
  cases h.symm.trans hfound

theorem candid_readExactly (h : (Error.device atEnd).isFailure = false) (n : Nat) :
    Candid (readExactly atEnd n) := by
  intro source
  rcases htake : source.take atEnd n with cause | ⟨chunk, rest⟩
  · have hcause := Source.eq_of_take_eq_error htake
    have hread : readExactly atEnd n source = .error (.device cause) := by
      rw [readExactly, htake]
      rfl
    rw [hread, hcause]
    cases hfailure : source.failure? with
    | some kind => exact .failed rfl _
    | none =>
      have hshort := Source.length_lt_of_take_eq_error hfailure htake
      rw [Source.steady, readExactly_of_short hshort]
      exact .stopped h
  · obtain ⟨hlength, rfl⟩ := Source.take_eq_ok.1 htake
    rw [Source.steady_behind, Source.failure?_behind, readExactly_eq_ok.2 ⟨hlength, rfl⟩,
      readExactly_eq_ok.2 ⟨hlength, rfl⟩]
    exact .found chunk rfl

end Exactly

theorem candid_readNumber (width : Nat) : Candid (readNumber width) :=
  (candid_readExactly rfl width).map Bytes.toNatLE

theorem candid_readBlob (width : Nat) : Candid (readBlob width) :=
  (candid_readNumber width).andThen fun length => candid_readExactly rfl length

/-! ## Tables -/

section Tables

variable {α : Type} {item : Nat → Reader α}

theorem candid_readMany (hitem : ∀ index, Candid (item index)) (count index : Nat)
    (done : List α) : Candid (readMany item count index done) := by
  induction count generalizing index done with
  | zero => exact Candid.done done.reverse
  | succ count ih =>
    rw [readMany_succ]
    exact (hitem index).andThen fun value => ih (index + 1) (value :: done)

theorem candid_readTable (hitem : ∀ index, Candid (item index)) : Candid (readTable item) :=
  (candid_readNumber 2).andThen fun count => candid_readMany hitem count 0 []

end Tables

/-! ## Sections -/

theorem candid_readFlags : Candid readFlags := by
  refine (candid_readNumber 1).andThen fun bits => ?_
  dsimp only
  cases Flags.ofBits? (UInt8.ofNat bits) with
  | none => exact Candid.refused rfl
  | some flags => exact Candid.done flags

theorem candid_readRecord (index : Nat) : Candid (readRecord index) :=
  (candid_readBlob 2).andThen fun blob =>
    (Candid.refused rfl).choose (Candid.done (Record.decode blob))

theorem candid_readEntry (flags : Flags) : Candid (readEntry flags) :=
  (Candid.done none).choose ((candid_readNumber 4).map some)

theorem candid_readSourceMaps (flags : Flags) : Candid (readSourceMaps flags) :=
  (candid_readTable fun _ => candid_readBlob 2).choose (Candid.done [])

theorem candid_readSections : Candid readSections := by
  refine candid_readFlags.andThen fun flags => ?_
  refine (candid_readEntry flags).andThen fun entry => ?_
  refine (candid_readTable fun _ => candid_readBlob 2).andThen fun types => ?_
  refine (candid_readBlob 4).andThen fun strings => ?_
  refine (candid_readTable candid_readRecord).andThen fun records => ?_
  refine (candid_readBlob 4).andThen fun code => ?_
  exact (candid_readSourceMaps flags).andThen fun sourceMaps => Candid.done _

/-! ## The signature -/

section Signature

variable {bytes : Bytes} {n : Nat}

theorem failure?_eq_none {kind : FailureKind} :
    Source.failure? ⟨bytes, some ⟨n, kind⟩⟩ = none ↔ bytes.length < n := by
  simp [Source.failure?, Option.filter]

theorem failure?_eq_some {kind kind' : FailureKind} :
    Source.failure? ⟨bytes, some ⟨n, kind⟩⟩ = some kind' ↔ n ≤ bytes.length ∧ kind = kind' := by
  simp [Source.failure?, Option.filter]

theorem readSignature_of_take_eq_error {source : Source} {cause : DeviceError}
    (h : source.take .endInNumber signature.length = .error cause) :
    readSignature source = .error (signatureError cause) := by
  rw [readSignature, h]
  rfl

theorem readSignature_behind {chunk : Bytes} (h : chunk.length = signature.length)
    (source : Source) :
    readSignature (source.behind chunk) =
      if chunk = signature then .ok ((), source) else .error .badSignature := by
  have htake : (source.behind chunk).take .endInNumber signature.length = .ok (chunk, source) :=
    Source.take_eq_ok.2 ⟨h, rfl⟩
  rw [readSignature, htake]
  rfl

/-- A failure that strikes within the signature, where it can be mistaken. -/
theorem readSignature_of_early (kind : FailureKind) (hbytes : n ≤ bytes.length)
    (hearly : n < signature.length) :
    readSignature ⟨bytes, some ⟨n, kind⟩⟩ = .error (signatureError (.failed kind)) := by
  apply readSignature_of_take_eq_error
  have hnot : ¬((bytes.take signature.length).length = signature.length ∧
      (some (Fault.mk n kind)).all (signature.length ≤ ·.after)) := by
    rintro ⟨-, hafter⟩
    have hle : signature.length ≤ n := by simpa using hafter
    omega
  rw [Source.take, if_neg hnot, failure?_eq_some.2 ⟨hbytes, rfl⟩]
  rfl

theorem matches_readSignature (kind : FailureKind)
    (h : n ≤ bytes.length → signature.length ≤ n) :
    Matches (Source.failure? ⟨bytes, some ⟨n, kind⟩⟩) (readSignature ⟨bytes, some ⟨n, kind⟩⟩)
      (readSignature (.ofBytes bytes)) := by
  by_cases hshort : bytes.length < signature.length
  · -- the input ends before the fault can strike
    have hnone : Source.failure? ⟨bytes, some ⟨n, kind⟩⟩ = none := failure?_eq_none.2 (by omega)
    rw [readSignature_of_take_eq_error (Source.take_of_short _ _ hshort), hnone,
      readSignature_of_take_eq_error (Source.take_of_short _ _ hshort)]
    exact .stopped rfl
  · have hlength : (bytes.take signature.length).length = signature.length :=
      List.length_take_of_le (Nat.le_of_not_lt hshort)
    obtain ⟨rest, hrest⟩ : ∃ rest : Source, (⟨bytes, some ⟨n, kind⟩⟩ : Source) =
        rest.behind (bytes.take signature.length) := by
      refine ⟨⟨bytes.drop signature.length, some ⟨n - signature.length, kind⟩⟩, ?_⟩
      have hafter : signature.length + (n - signature.length) = n := by omega
      simp only [Source.behind, List.take_append_drop, Option.map_some, hlength, hafter]
    have hsteady : Source.ofBytes bytes = rest.steady.behind (bytes.take signature.length) := by
      rw [← Source.steady_behind, ← hrest]
      rfl
    rw [hrest, hsteady, readSignature_behind hlength, readSignature_behind hlength,
      Source.failure?_behind]
    by_cases hsame : bytes.take signature.length = signature
    · rw [if_pos hsame, if_pos hsame]
      exact .found () rfl
    · rw [if_neg hsame, if_neg hsame]
      exact .stopped rfl

end Signature

/-! ## Whole containers -/

section Containers

variable {source : Source} {bytes : Bytes} {n : Nat}

theorem readEnd_of_failure {kind : FailureKind} (h : source.failure? = some kind) :
    readEnd source = .error (.device (.failed kind)) := by
  rw [readEnd, Source.rest, h]

theorem readEnd_steady (h : source.failure? = none) : readEnd source.steady = readEnd source := by
  rw [readEnd, readEnd, Source.rest, Source.rest, h]
  rfl

/-- Read the signature and all sections. -/
def readThrough (source : Source) : Except Error (Container × Source) :=
  readSignature source >>= fun found => readSections found.2

theorem read_eq_readThrough (source : Source) :
    read source =
      readThrough source >>= fun found => readEnd found.2 >>= fun _ => .ok found.1 := by
  rw [read_eq_readSections, readThrough, bind_assoc]
  rfl

theorem matches_readThrough (kind : FailureKind) (h : n ≤ bytes.length → signature.length ≤ n) :
    Matches (Source.failure? ⟨bytes, some ⟨n, kind⟩⟩) (readThrough ⟨bytes, some ⟨n, kind⟩⟩)
      (readThrough (.ofBytes bytes)) :=
  Matches.andThen (matches_readSignature kind h) fun _ => candid_readSections

theorem read_of_early (kind : FailureKind) (hbytes : n ≤ bytes.length)
    (hearly : n < signature.length) :
    read ⟨bytes, some ⟨n, kind⟩⟩ = .error (signatureError (.failed kind)) := by
  rw [read_eq_readThrough, readThrough, readSignature_of_early kind hbytes hearly]
  rfl

/-- Behind the signature nothing is made up: the failure is reported, or what is wrong with the
bytes that were delivered before. -/
theorem read_late (kind : FailureKind) (h : n ≤ bytes.length → signature.length ≤ n) :
    (n ≤ bytes.length ∧ read ⟨bytes, some ⟨n, kind⟩⟩ = .error (.device (.failed kind))) ∨
      read ⟨bytes, some ⟨n, kind⟩⟩ = read (.ofBytes bytes) := by
  have hthrough := matches_readThrough kind h
  rw [read_eq_readThrough, read_eq_readThrough]
  generalize readThrough ⟨bytes, some ⟨n, kind⟩⟩ = result, readThrough (.ofBytes bytes) = steady
    at hthrough
  cases hthrough with
  | failed hfailure =>
    obtain ⟨hle, rfl⟩ := failure?_eq_some.1 hfailure
    exact .inl ⟨hle, rfl⟩
  | stopped => exact .inr rfl
  | found container hrest =>
    rw [bind_eq_of_eq_ok rfl, bind_eq_of_eq_ok rfl]
    cases hfailure : Source.failure? ⟨bytes, some ⟨n, kind⟩⟩ with
    | some kind' =>
      obtain ⟨hle, rfl⟩ := failure?_eq_some.1 hfailure
      refine .inl ⟨hle, ?_⟩
      rw [readEnd_of_failure (hrest.trans hfailure)]
      rfl
    | none => exact .inr (by rw [readEnd_steady (hrest.trans hfailure)])

theorem isFailure_of_readEnd {e : Error} (h : readEnd source.steady = .error e) :
    e.isFailure = false := by
  rw [readEnd, Source.rest_eq_ok.2 ⟨rfl, rfl⟩] at h
  cases hbytes : source.steady.bytes with
  | nil =>
    rw [hbytes] at h
    cases h
  | cons byte rest =>
    rw [hbytes] at h
    cases h
    rfl

/-- Without a fault no failure is reported. -/
theorem isFailure_of_read {e : Error} (h : read (.ofBytes bytes) = .error e) :
    e.isFailure = false := by
  -- a fault behind the end does not strike
  have hnone : Source.failure? ⟨bytes, some ⟨bytes.length + 1, .other⟩⟩ = none :=
    failure?_eq_none.2 (Nat.lt_succ_self _)
  have hthrough := @matches_readThrough bytes (bytes.length + 1) .other (by omega)
  rw [hnone] at hthrough
  rw [read_eq_readThrough] at h
  generalize readThrough ⟨bytes, some ⟨bytes.length + 1, .other⟩⟩ = result,
    readThrough (.ofBytes bytes) = steady at hthrough h
  cases hthrough with
  | failed hfailure => cases hfailure
  | stopped hnot =>
    cases h
    exact hnot
  | found container =>
    rw [bind_eq_of_eq_ok rfl, bind_eq_error] at h
    rcases h with hend | ⟨_, -, hdone⟩
    · exact isFailure_of_readEnd hend
    · cases hdone

theorem isFailure_of_resolve
    {strings code : Array UInt8} {record : Record} {e : Error}
    (h : resolve strings code record = .error e) : e.isFailure = false := by
  rcases bind_eq_error.1 h with hname | ⟨name, -, hbody⟩
  · unfold stringAt at hname
    dsimp only at hname
    split at hname
    · cases hname
    · cases hname
      rfl
  · split at hbody
    · cases hbody
      rfl
    · cases hbody

/-- What is wrong with the records of a container is no failure of a device. -/
theorem isFailure_of_program {container : Container} {e : Error}
    (h : container.program = .error e) : e.isFailure = false := by
  rcases bind_eq_error.1 h with hrecords | ⟨functions, -, hentry⟩
  · obtain ⟨record, -, hrecord⟩ := exists_of_mapM_eq_error hrecords
    exact isFailure_of_resolve hrecord
  · split at hentry
    · cases hentry
    · split at hentry
      · cases hentry
      · cases hentry
        rfl

theorem isFailure_of_readFrom {e : Error} (h : Program.readFrom (.ofBytes bytes) = .error e) :
    e.isFailure = false := by
  rcases bind_eq_error.1 h with hread | ⟨container, -, hprogram⟩
  · exact isFailure_of_read hread
  · rcases bind_eq_error.1 hprogram with hresolved | ⟨program, -, hdone⟩
    · exact isFailure_of_program hresolved
    · cases hdone

/-- What reading gives when a fault strikes. -/
def faultError (n : Nat) (kind : FailureKind) : Error :=
  if n < signature.length then signatureError (.failed kind) else .device (.failed kind)

theorem readFrom_fault (bytes : Bytes) (n : Nat) (kind : FailureKind) :
    (n ≤ bytes.length ∧
      Program.readFrom ⟨bytes, some ⟨n, kind⟩⟩ = .error (faultError n kind)) ∨
    Program.readFrom ⟨bytes, some ⟨n, kind⟩⟩ = Program.readFrom (.ofBytes bytes) := by
  by_cases hearly : n ≤ bytes.length ∧ n < signature.length
  · refine .inl ⟨hearly.1, readFrom_of_read_eq_error ?_⟩
    rw [faultError, if_pos hearly.2, read_of_early kind hearly.1 hearly.2]
  · rcases @read_late bytes n kind (by omega) with ⟨hle, hfailed⟩ | hsame
    · refine .inl ⟨hle, readFrom_of_read_eq_error ?_⟩
      rw [faultError, if_neg (by omega), hfailed]
    · exact .inr (by rw [Program.readFrom, Program.readFrom, hsame])

theorem readFrom_fault_eq_ok {kind : FailureKind} {result : Program × Info} :
    Program.readFrom ⟨bytes, some ⟨n, kind⟩⟩ = .ok result ↔
      Program.readFrom (.ofBytes bytes) = .ok result ∧ bytes.length < n := by
  obtain ⟨program, info⟩ := result
  rw [readFrom_eq_ok, readFrom_eq_ok, ← failure?_eq_none]
  constructor
  · rintro ⟨layout, hbytes, hfailure, hholds⟩
    exact ⟨⟨layout, hbytes, rfl, hholds⟩, hfailure⟩
  · rintro ⟨⟨layout, hbytes, -, hholds⟩, hfailure⟩
    exact ⟨layout, hbytes, hfailure, hholds⟩

end Containers

/-! ## What a caller gets -/

section Returned

variable {α : Type}

theorem returned?_eq_some {result : Except Error α}
    (h : ∀ e, result = .error e → e.isFailure = false) :
    returned? result = some result := by
  unfold returned?
  split
  · cases h _ rfl
  · rfl

theorem returned?_eq_some_ok {result : Except Error α} {value : α} :
    returned? result = some (.ok value) ↔ result = .ok value := by
  unfold returned?
  split
  · constructor <;> intro h <;> cases h
  · exact Option.some_inj

theorem returned?_failed (kind : FailureKind) :
    returned? (.error (.device (.failed kind)) : Except Error α) =
      if kind = .interrupted then none else some (.error (.device (.failed kind))) := by
  cases kind <;> rfl

/-- The end of the input is believed within the signature, and an interruption is tried again
everywhere. -/
theorem returned?_faultError (n : Nat) (kind : FailureKind) :
    returned? (.error (faultError n kind) : Except Error α) =
      if kind = .interrupted then none
      else if kind = .unexpectedEnd ∧ n < signature.length then some (.error .badSignature)
      else some (.error (.device (.failed kind))) := by
  by_cases hearly : n < signature.length
  · rw [faultError, if_pos hearly]
    cases kind <;> simp [hearly, signatureError, DeviceError.kind, returned?]
  · rw [faultError, if_neg hearly, returned?_failed]
    simp only [hearly, and_false, if_false]

end Returned

/-! ## Devices to be written to -/

/-- A device accepts the first bytes of the sections, and fails if there are more. -/
theorem deliver_map_ok (n : Nat) (kind : FailureKind) (written : List Bytes) :
    deliver ⟨n, kind⟩ (written.map .ok) =
      (written.flatten.take n,
        if written.flatten.length ≤ n then .ok () else .error (.device (.failed kind))) := by
  induction written generalizing n with
  | nil => simp [deliver]
  | cons bytes written ih =>
    rw [List.map_cons, deliver, List.flatten_cons, List.length_append]
    by_cases hroom : bytes.length ≤ n
    · have hrest : bytes.length + written.flatten.length ≤ n ↔
          written.flatten.length ≤ n - bytes.length := by
        omega
      rw [if_pos hroom, ih, List.take_append, List.take_of_length_le hroom]
      simp only [hrest]
    · have hfull : ¬bytes.length + written.flatten.length ≤ n := by
        omega
      have htake : n - bytes.length = 0 := by
        omega
      rw [if_neg hroom, if_neg hfull, List.take_append, htake, List.take_zero, List.append_nil]

theorem writeTo?_of_toBinary {program : Program} {bytes : Bytes}
    (h : program.toBinary = .ok bytes) (n : Nat) (kind : FailureKind) :
    program.writeTo? ⟨n, kind⟩ =
      (bytes.take n,
        if bytes.length ≤ n then some (.ok ())
        else if kind = .interrupted then none
        else some (.error (.device (.failed kind)))) := by
  obtain ⟨written, hwritten, rfl⟩ := collect_eq_ok.1 h
  rw [Program.writeTo?, hwritten, deliver_map_ok]
  by_cases hroom : written.flatten.length ≤ n
  · simp only [if_pos hroom]
    rfl
  · simp only [if_neg hroom, returned?_failed]

/-- Faults of devices are not taken for anything else, but for one of them. Reading from a
source that delivers `n` bytes and then fails gives the failure, which can strike up to the end
of the bytes, or what reading the same bytes gives without it; and it gives a program exactly if
they hold one and the source can report their end. A device that accepts `n` bytes and then fails
has accepted the first `n` of those of a program. If these are all, writing succeeds, and
otherwise it gives the failure. An interruption is tried again, so that it brings no result. An
end that is reported within the signature is believed. -/
theorem faults_surface :
    (∀ (bytes : Bytes) (n : Nat) (kind : FailureKind),
      ((n ≤ bytes.length ∧ Program.readFrom? ⟨bytes, some ⟨n, kind⟩⟩ =
          if kind = .interrupted then none
          else if kind = .unexpectedEnd ∧ n < 17 then some (.error .badSignature)
          else some (.error (.device (.failed kind)))) ∨
        Program.readFrom? ⟨bytes, some ⟨n, kind⟩⟩ = some (Program.readFrom (.ofBytes bytes))) ∧
      ∀ result, Program.readFrom? ⟨bytes, some ⟨n, kind⟩⟩ = some (.ok result) ↔
        Program.readFrom (.ofBytes bytes) = .ok result ∧ bytes.length < n) ∧
    ∀ (program : Program) (bytes : Bytes), program.toBinary = .ok bytes →
      ∀ (n : Nat) (kind : FailureKind), program.writeTo? ⟨n, kind⟩ =
        (bytes.take n,
          if bytes.length ≤ n then some (.ok ())
          else if kind = .interrupted then none
          else some (.error (.device (.failed kind)))) := by
  refine ⟨fun bytes n kind => ⟨?_, ?_⟩, fun _ _ => writeTo?_of_toBinary⟩
  · rw [Program.readFrom?]
    rcases readFrom_fault bytes n kind with ⟨hle, hfailed⟩ | hsame
    · rw [hfailed]
      exact .inl ⟨hle, returned?_faultError n kind⟩
    · rw [hsame]
      exact .inr (returned?_eq_some fun _ => isFailure_of_readFrom)
  · intro result
    rw [Program.readFrom?, returned?_eq_some_ok, readFrom_fault_eq_ok]

/-- A library with one function, of sixty bytes: faults within its name, in the place of its end
and behind it, one that is tried again, and devices with too little room and with just enough. -/
theorem faults_surface_one_function :
    Program.readFrom? ⟨oneFunction, some ⟨30, .unexpectedEnd⟩⟩ =
      some (.error (.device (.failed .unexpectedEnd))) ∧
    Program.readFrom? ⟨oneFunction, some ⟨60, .other⟩⟩ =
      some (.error (.device (.failed .other))) ∧
    Program.readFrom? ⟨oneFunction, some ⟨61, .other⟩⟩ =
      some (Program.readFrom (.ofBytes oneFunction)) ∧
    Program.readFrom? ⟨oneFunction, some ⟨30, .interrupted⟩⟩ = none ∧
    Program.writeTo? ⟨#[⟨"main", 0, 0, 0, #[1, 13]⟩], none⟩ ⟨59, .other⟩ =
      (oneFunction.take 59, some (.error (.device (.failed .other)))) ∧
    Program.writeTo? ⟨#[⟨"main", 0, 0, 0, #[1, 13]⟩], none⟩ ⟨60, .other⟩ =
      (oneFunction, some (.ok ())) := by
  obtain ⟨hread, hwrite⟩ := faults_surface
  have hwritten : Program.toBinary ⟨#[⟨"main", 0, 0, 0, #[1, 13]⟩], none⟩ = .ok oneFunction := by
    decide +kernel
  have hstrikes (n : Nat) (kind : FailureKind) (hn : n ≤ 60) (hlate : 17 ≤ n) :
      Program.readFrom? ⟨oneFunction, some ⟨n, kind⟩⟩ =
        if kind = .interrupted then none else some (.error (.device (.failed kind))) := by
    rcases (hread oneFunction n kind).1 with ⟨-, hfailed⟩ | hsame
    · simpa [Nat.not_lt.2 hlate] using hfailed
    · rw [readFrom_oneFunction] at hsame
      have hlt := (((hread oneFunction n kind).2 _).1 hsame).2
      exact absurd hlt (Nat.not_lt.2 hn)
  refine ⟨hstrikes 30 _ (by decide) (by decide), hstrikes 60 _ (by decide) (by decide), ?_,
    hstrikes 30 _ (by decide) (by decide), hwrite _ _ hwritten 59 _, hwrite _ _ hwritten 60 _⟩
  rw [readFrom_oneFunction]
  exact ((hread oneFunction 61 _).2 _).2 ⟨readFrom_oneFunction, by decide⟩

/-- The library again. A device that reports an end after three bytes is believed, although the
bytes hold a program. -/
theorem early_end_taken_for_bad_signature :
    ¬(Program.readFrom? ⟨oneFunction, some ⟨3, .unexpectedEnd⟩⟩ =
        some (.error (.device (.failed .unexpectedEnd))) ∨
      Program.readFrom? ⟨oneFunction, some ⟨3, .unexpectedEnd⟩⟩ =
        some (Program.readFrom (.ofBytes oneFunction))) := by
  have hread : Program.readFrom? ⟨oneFunction, some ⟨3, .unexpectedEnd⟩⟩ =
      some (.error .badSignature) := by
    decide +kernel
  rw [hread, readFrom_oneFunction]
  decide

end Container

end TypedStack
