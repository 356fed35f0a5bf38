import TypedStack.Container.Basic

/-!
# Reading programs

The sections are read one after the other from a source of bytes that may end
or fail. Only when everything is read, and nothing is left over, are the function
records resolved: names in the string table, bodies in the code.
-/

namespace TypedStack

namespace Container

/-- A failure that strikes when some more bytes were delivered, and every time from then on. -/
structure Fault where
  after : Nat
  kind : FailureKind
  deriving DecidableEq, Repr

/-- Bytes to be read. A fault strikes even in the place of their end. -/
structure Source where
  bytes : Bytes
  fault : Option Fault
  deriving DecidableEq, Repr

namespace Source

/-- A source that does not fail. -/
def ofBytes (bytes : Bytes) : Source :=
  ⟨bytes, none⟩

/-- The failure that strikes before the source can report its end. -/
def failure? (source : Source) : Option FailureKind :=
  (source.fault.filter (·.after ≤ source.bytes.length)).map (·.kind)

/-- Read `n` bytes, where `atEnd` is the error for an input that ends. -/
def take (source : Source) (atEnd : DeviceError) (n : Nat) :
    Except DeviceError (Bytes × Source) :=
  let chunk := source.bytes.take n
  if chunk.length = n ∧ source.fault.all (n ≤ ·.after) then
    let fault := source.fault.map fun fault => ⟨fault.after - n, fault.kind⟩
    .ok (chunk, ⟨source.bytes.drop n, fault⟩)
  else .error (source.failure?.elim atEnd .failed)

/-- Read all bytes there are. -/
def rest (source : Source) : Except DeviceError Bytes :=
  match source.failure? with
  | some kind => .error (.failed kind)
  | none => .ok source.bytes

end Source

/-- A step of reading. -/
abbrev Reader (α : Type) := Source → Except Error (α × Source)

/-- Read `n` bytes. -/
def readExactly (atEnd : DeviceError) (n : Nat) : Reader Bytes := fun source =>
  (source.take atEnd n).mapError .device

/-- Read a number of `width` bytes. -/
def readNumber (width : Nat) : Reader Nat := fun source =>
  (readExactly .endInNumber width source).map fun (bytes, source) =>
    (bytes.toNatLE, source)

/-- Read a sequence behind its length, which has `width` bytes. -/
def readBlob (width : Nat) : Reader Bytes := fun source => do
  let (length, source) ← readNumber width source
  readExactly .endInBlob length source

/-- Read `count` items, numbered from `index` on, behind those already read. -/
def readMany {α : Type} (item : Nat → Reader α) (count index : Nat) (done : List α) :
    Reader (List α) := fun source =>
  match count with
  | 0 => .ok (done.reverse, source)
  | count + 1 =>
    match item index source with
    | .error e => .error e
    | .ok (value, source) => readMany item count (index + 1) (value :: done) source

/-- Read a table: a count of two bytes and that many items. -/
def readTable {α : Type} (item : Nat → Reader α) : Reader (List α) := fun source => do
  let (count, source) ← readNumber 2 source
  readMany item count 0 [] source

/-- The error for a signature that could not be read. An input that ends within it is no
container, and a device that says so of its input is believed. -/
def signatureError (cause : DeviceError) : Error :=
  if cause.kind = .unexpectedEnd then .badSignature else .device cause

/-- Read the signature. -/
def readSignature : Reader Unit := fun source => do
  let (bytes, source) ← (source.take .endInNumber signature.length).mapError signatureError
  if bytes = signature then .ok ((), source) else .error .badSignature

/-- Read the flags. -/
def readFlags : Reader Flags := fun source => do
  let (bits, source) ← readNumber 1 source
  match Flags.ofBits? (UInt8.ofNat bits) with
  | some flags => .ok (flags, source)
  | none => .error (.unknownFlags (UInt8.ofNat bits))

/-- Read a function record. Bytes behind it in its blob are ignored. -/
def readRecord (index : Nat) : Reader Record := fun source => do
  let (blob, source) ← readBlob 2 source
  if blob.length < Record.width then .error (.shortRecord index)
  else .ok (.decode blob, source)

/-- Read the entry, which a library does not have. -/
def readEntry (flags : Flags) : Reader (Option Nat) := fun source =>
  if flags.library then .ok (none, source)
  else (readNumber 4 source).map fun (entry, source) => (some entry, source)

/-- Read the table of source maps, if there is one. -/
def readSourceMaps (flags : Flags) : Reader (List Bytes) := fun source =>
  if flags.sourceMap then readTable (fun _ => readBlob 2) source else .ok ([], source)

/-- Make sure that nothing is left. -/
def readEnd (source : Source) : Except Error Unit :=
  match source.rest with
  | .error cause => .error (.device cause)
  | .ok [] => .ok ()
  | .ok rest => .error (.trailingBytes rest.length)

/-- Read all sections, behind which nothing may follow. -/
def read (source : Source) : Except Error Container := do
  let (_, source) ← readSignature source
  let (flags, source) ← readFlags source
  let (entry, source) ← readEntry flags source
  let (types, source) ← readTable (fun _ => readBlob 2) source
  let (strings, source) ← readBlob 4 source
  let (records, source) ← readTable readRecord source
  let (code, source) ← readBlob 4 source
  let (sourceMaps, source) ← readSourceMaps flags source
  readEnd source
  return { flags, entry, types, strings, records, code, sourceMaps }

/-- The part of an array from an offset on, if it is long enough. -/
def slice? (bytes : Array UInt8) (offset size : Nat) : Option (Array UInt8) :=
  if offset + size ≤ bytes.size then some (bytes.extract offset (offset + size))
  else none

/-- The string at an offset of the string table. -/
def stringAt (strings : Array UInt8) (offset : Nat) : Except Error String :=
  let text? := do
    let length ← slice? strings offset 4
    let bytes ← slice? strings (offset + 4) (Bytes.toNatLE length.toList)
    Bytes.toString? bytes.toList
  match text? with
  | some text => .ok text
  | none => .error (.badString offset)

/-- The function that a record describes. -/
def resolve (strings code : Array UInt8) (record : Record) : Except Error Function := do
  let name ← stringAt strings record.name
  match slice? code record.address record.size with
  | none => .error (.codeOutOfRange name)
  | some body => .ok ⟨name, record.arity, record.locals, record.returns, body⟩

/-- The program in a container. -/
def program (container : Container) : Except Error Program := do
  let functions ← container.records.mapM
    (resolve container.strings.toArray container.code.toArray)
  match container.entry with
  | none => .ok ⟨functions.toArray, none⟩
  | some entry =>
    if entry < functions.length then .ok ⟨functions.toArray, some (UInt16.ofNat entry)⟩
    else .error (.badEntry entry)

/-- How many complete strings a string table starts with, on top of `count`. -/
def countStrings (count : Nat) : Bytes → Nat
  | a :: b :: c :: d :: rest =>
    let length := Bytes.toNatLE [a, b, c, d]
    if (rest.take length).length = length then countStrings (count + 1) (rest.drop length)
    else count
  | _ => count
termination_by bytes => bytes.length
decreasing_by
  simp only [List.length_drop, List.length_cons]
  omega

/-- What a container holds. -/
def info (container : Container) : Info :=
  let strings := countStrings 0 container.strings
  { flags := container.flags
    entry := container.entry
    types := container.types.length
    strings
    stringBytes := container.strings.length - 4 * strings
    functions := container.records.length
    codeBytes := container.code.length
    sourceMaps := container.sourceMaps.length }

end Container

/-- Read a program and what its container holds. -/
def Program.readFrom (source : Container.Source) :
    Except Container.Error (Program × Container.Info) := do
  let container ← Container.read source
  let program ← container.program
  return (program, container.info)

/-- Read a program from a source that may be interrupted every time. -/
def Program.readFrom? (source : Container.Source) :
    Option (Except Container.Error (Program × Container.Info)) :=
  Container.returned? (readFrom source)

/-- The program that bytes hold. -/
def Program.ofBinary (bytes : Bytes) : Except Container.Error Program :=
  (readFrom (.ofBytes bytes)).map (·.1)

end TypedStack
