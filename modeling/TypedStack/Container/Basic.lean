import TypedStack.Program
import TypedStack.Text.Digits

/-!
# The program container

A program is stored as one byte sequence: a signature, flags, the entry, and
tables of types, strings, function records, code and source maps, each behind
its length or count. All numbers are little-endian. Type and source map entries
are carried but not looked into, and never written.
-/

namespace TypedStack

namespace Container

/-- What every container starts with. -/
def signature : Bytes :=
  "foo-binary-v0.0.1".toList.map fun c => UInt8.ofNat c.toNat

/-- The flags of a container. -/
structure Flags where
  /-- There is no entry. -/
  library : Bool
  /-- There is a table of source maps. -/
  sourceMap : Bool
  deriving DecidableEq, Repr

namespace Flags

/-- The byte that stands for the flags. -/
def bits (flags : Flags) : UInt8 :=
  (if flags.library then 1 else 0) + if flags.sourceMap then 2 else 0

/-- The flags that a byte stands for, if it sets no others. -/
def ofBits? (byte : UInt8) : Option Flags :=
  if byte.toNat < 4 then some ⟨byte.toNat % 2 = 1, byte.toNat / 2 = 1⟩ else none

/-- Whether all flags set in `other` are set. -/
def contains (flags other : Flags) : Bool :=
  (flags.library || !other.library) && (flags.sourceMap || !other.sourceMap)

/-- The flags set in either. -/
def union (flags other : Flags) : Flags :=
  ⟨flags.library || other.library, flags.sourceMap || other.sourceMap⟩

/-- The names of the flags that are set. -/
def names (flags : Flags) : List String :=
  (if flags.library then ["IsLibrary"] else []) ++
    if flags.sourceMap then ["HasSourceMap"] else []

/-- The flags as text. -/
def render (flags : Flags) : String :=
  match flags.names with
  | [] => "None"
  | names => String.intercalate ", " names

end Flags

/-- The kinds of failures that are told apart. -/
inductive FailureKind where
  /-- There is less input than there should be. -/
  | unexpectedEnd
  /-- The device was interrupted and is to be asked again. -/
  | interrupted
  | other
  deriving DecidableEq, Repr

/-- What can go wrong with the device that bytes come from or go to. -/
inductive DeviceError where
  /-- The input ended within a number. -/
  | endInNumber
  /-- The input ended within a sequence of known length. -/
  | endInBlob
  /-- The device refused to work. -/
  | failed (kind : FailureKind)
  deriving DecidableEq, Repr

namespace DeviceError

/-- The wording of a device error. -/
def message : DeviceError → String
  | endInNumber => "failed to fill whole buffer"
  | endInBlob => "unexpected end of file"
  | failed _ => "device failed"

/-- The kind of a device error. The two for an input that ends have the same one as the failure
of a device that says so itself. -/
def kind : DeviceError → FailureKind
  | endInNumber => .unexpectedEnd
  | endInBlob => .unexpectedEnd
  | failed kind => kind

end DeviceError

/-- Why a container could not be read or written. -/
inductive Error where
  | device (cause : DeviceError)
  | badSignature
  | unknownFlags (byte : UInt8)
  | badEntry (index : Nat)
  | badString (offset : Nat)
  | shortRecord (index : Nat)
  | codeOutOfRange (name : String)
  | tooLarge (what : String)
  | trailingBytes (count : Nat)
  deriving DecidableEq, Repr

/-- The wording of a container error. -/
def Error.message : Error → String
  | device cause => cause.message
  | badSignature => "not a program binary"
  | unknownFlags byte => "unknown flag bits 0x" ++ Text.hex 2 byte.toNat
  | badEntry index => "entrypoint " ++ toString index ++ " names no function"
  | badString offset =>
    "string at 0x" ++ Text.hex 1 offset ++ " is out of bounds or not utf-8"
  | shortRecord index => "function #" ++ toString index ++ " record is truncated"
  | codeOutOfRange name => "function `" ++ name ++ "` code lies outside the bytecode blob"
  | tooLarge what => what ++ " does not fit the binary format"
  | trailingBytes count => toString count ++ " trailing bytes after the program"

/-- A result as the caller gets it. An interruption is not reported but tried again, and with a
device that is interrupted every time that does not end. -/
def returned? {α : Type} (result : Except Error α) : Option (Except Error α) :=
  match result with
  | .error (.device (.failed .interrupted)) => none
  | result => some result

/-- The entry of a function in the function table. The name is given by its
offset in the string table and the code by its offset in the code. -/
structure Record where
  name : Nat
  arity : UInt16
  locals : UInt16
  returns : UInt16
  address : Nat
  size : Nat
  deriving DecidableEq, Repr

namespace Record

/-- The number of bytes of a record. -/
def width : Nat := 18

/-- The bytes of a record. -/
def encode (record : Record) : Bytes :=
  Bytes.ofNatLE 4 record.name ++ Bytes.ofNatLE 2 record.arity.toNat ++
    Bytes.ofNatLE 2 record.locals.toNat ++ Bytes.ofNatLE 2 record.returns.toNat ++
    Bytes.ofNatLE 4 record.address ++ Bytes.ofNatLE 4 record.size

/-- The number in the `width` bytes from an offset on. -/
def field (bytes : Bytes) (offset width : Nat) : Nat :=
  Bytes.toNatLE ((bytes.drop offset).take width)

/-- The record in the first bytes of a sequence. -/
def decode (bytes : Bytes) : Record where
  name := field bytes 0 4
  arity := UInt16.ofNat (field bytes 4 2)
  locals := UInt16.ofNat (field bytes 6 2)
  returns := UInt16.ofNat (field bytes 8 2)
  address := field bytes 10 4
  size := field bytes 14 4

end Record

/-- What a container holds, told by its tables. -/
structure Info where
  flags : Flags
  entry : Option Nat
  types : Nat
  strings : Nat
  /-- The size of the string table without the lengths in it. -/
  stringBytes : Nat
  functions : Nat
  codeBytes : Nat
  sourceMaps : Nat
  deriving DecidableEq, Repr

end Container

/-- The parts of a container, before function records are looked up in the string
table and the code. -/
structure Container where
  flags : Container.Flags
  entry : Option Nat
  types : List Bytes
  strings : Bytes
  records : List Container.Record
  code : Bytes
  sourceMaps : List Bytes
  deriving DecidableEq, Repr

end TypedStack
