import TypedStack.Container.Basic

/-!
# Writing programs

A program is written section by section. A section may turn out not to fit the
format after earlier ones were written, which matters only to a device that can
refuse bytes: `deliver` tells what such a device has accepted and what went
wrong first.
-/

namespace TypedStack

namespace Container

/-- The bound that sizes and offsets of four bytes stay below. -/
def sizeBound : Nat := UInt32.size

/-- A string of the string table: its length and its UTF-8 bytes. -/
def stringEntry (text : String) : Bytes :=
  let bytes := Bytes.ofString text
  Bytes.ofNatLE 4 bytes.length ++ bytes

/-- The records of functions, whose names and code follow each other in the string
table and the code from the given offsets on, behind records already made. -/
def makeRecords (nameAt codeAt : Nat) (made : List Record) :
    List Function → Except Error (List Record)
  | [] => .ok made.reverse
  | function :: rest =>
    let nameSize := (Bytes.ofString function.name).length
    let codeSize := function.code.size
    if sizeBound ≤ nameAt then .error (.tooLarge "string table")
    else if sizeBound ≤ nameSize then .error (.tooLarge "function name")
    else if sizeBound ≤ codeAt then .error (.tooLarge "bytecode")
    else if sizeBound ≤ codeSize then .error (.tooLarge "function code")
    else
      makeRecords (nameAt + (4 + nameSize)) (codeAt + codeSize)
        (⟨nameAt, function.arity, function.locals, function.returns, codeAt, codeSize⟩ :: made)
        rest

/-- A size of four bytes, if it fits. -/
def sizeSection (what : String) (size : Nat) : Except Error Bytes :=
  if size < sizeBound then .ok (Bytes.ofNatLE 4 size) else .error (.tooLarge what)

/-- The sections of a program in the order in which they are written. -/
def sections (program : Program) : List (Except Error Bytes) :=
  let functions := program.functions.toList
  match makeRecords 0 0 [] functions with
  | .error e => [.error e]
  | .ok records =>
    let flags : Flags := ⟨program.entry.isNone, false⟩
    let strings := functions.flatMap fun function => stringEntry function.name
    let code := functions.flatMap (·.code.toList)
    [ .ok signature,
      .ok [flags.bits],
      .ok (program.entry.elim [] fun entry => Bytes.ofNatLE 4 entry.toNat),
      .ok (Bytes.ofNatLE 2 0),
      sizeSection "string table" strings.length,
      .ok strings,
      if records.length < UInt16.size then .ok (Bytes.ofNatLE 2 records.length)
        else .error (.tooLarge "function table"),
      .ok (records.flatMap fun record => Bytes.ofNatLE 2 Record.width ++ record.encode),
      sizeSection "bytecode" code.length,
      .ok code ]

/-- All sections together, or the first error among them. -/
def collect : List (Except Error Bytes) → Except Error Bytes
  | [] => .ok []
  | .error e :: _ => .error e
  | .ok bytes :: rest => (collect rest).map (bytes ++ ·)

/-- A device that accepts some bytes and then fails every time. -/
structure Sink where
  room : Nat
  kind : FailureKind
  deriving DecidableEq, Repr

/-- Hand sections to a device: what it has accepted, and the first error if there is one. -/
def deliver (sink : Sink) : List (Except Error Bytes) → Bytes × Except Error Unit
  | [] => ([], .ok ())
  | .error e :: _ => ([], .error e)
  | .ok bytes :: rest =>
    if bytes.length ≤ sink.room then
      let (accepted, result) := deliver ⟨sink.room - bytes.length, sink.kind⟩ rest
      (bytes ++ accepted, result)
    else (bytes.take sink.room, .error (.device (.failed sink.kind)))

end Container

/-- The bytes of a program. -/
def Program.toBinary (program : Program) : Except Container.Error Bytes :=
  Container.collect (Container.sections program)

/-- Write a program to a device: what it has accepted, and how writing ends. -/
def Program.writeTo? (program : Program) (sink : Container.Sink) :
    Bytes × Option (Except Container.Error Unit) :=
  let (accepted, result) := Container.deliver sink (Container.sections program)
  (accepted, Container.returned? result)

end TypedStack
