import TypedStack.Value
import TypedStack.Json.Reader
import TypedStack.Json.Number

/-!
# Fixture documents

A fixture describes one invocation: the functions, the heap, what the entry
starts with and how it should end. This module holds its parts as they stand in
a JSON document and the two directions between the document and them. A part
with named fields is written as an object, or as an array of its fields in
order; fields at the end that have a default may then be left off.
-/

namespace TypedStack

namespace Fixture

/-- A value in a fixture. References name heap entries, and sixteen bit numbers
are given as thirty-two bit ones. -/
inductive ValueSpec where
  | integer (kind : IntegerKind) (n : Int)
  | half (x : FloatBits .binary32)
  | single (x : FloatBits .binary32)
  | double (x : FloatBits .binary64)
  | bool (b : Bool)
  | ref (label : String)
  deriving DecidableEq, Repr

/-- A function in assembly text. -/
structure FunctionSpec where
  name : String
  arity : UInt16
  locals : UInt16
  returns : UInt16
  code : List String
  deriving DecidableEq, Repr

/-- A heap object. Its payload is given by its elements or as text, or else it
is filled with zeros. -/
structure HeapEntry where
  id : String
  kind : String
  count : Option Nat
  elements : Option (List ValueSpec)
  text : Option String
  deriving DecidableEq, Repr

/-- How an invocation should end. -/
inductive Expectation where
  | stack (values : List ValueSpec)
  | trap (name : String)
  deriving DecidableEq, Repr

end Fixture

/-- A description of one invocation. Without the name of an entry the first
function is the entry. -/
structure Fixture where
  functions : List Fixture.FunctionSpec
  entry : Option String
  heap : List Fixture.HeapEntry
  args : List Fixture.ValueSpec
  stack : List Fixture.ValueSpec
  locals : List (Option String)
  expect : Option Fixture.Expectation
  deriving DecidableEq, Repr

namespace Fixture

/-! ## Reading -/

/-- Whether no name occurs twice. -/
def distinct : List String → Bool
  | [] => true
  | name :: rest => !rest.contains name && distinct rest

/-- The fields of a part, given the names that it may have in order. -/
def fields? (names : List String) : Json → Option (List (String × Json))
  | .object members =>
    let given := members.map (·.1)
    if distinct given && given.all names.contains then some members else none
  | .array items => if items.length ≤ names.length then some (names.zip items) else none
  | _ => none

/-- A field that must be there. -/
def required {α : Type} (read : Json → Option α) (fields : List (String × Json))
    (name : String) : Option α :=
  (fields.lookup name).bind read

/-- A field that may be left out. -/
def optionalD {α : Type} (read : Json → Option α) (default : α)
    (fields : List (String × Json)) (name : String) : Option α :=
  match fields.lookup name with
  | none => some default
  | some value => read value

/-- A value or null. -/
def nullable {α : Type} (read : Json → Option α) : Json → Option (Option α)
  | .null => some none
  | value => (read value).map some

/-- A text. -/
def readText : Json → Option String
  | .string text => some text
  | _ => none

/-- A list. -/
def readList {α : Type} (read : Json → Option α) : Json → Option (List α)
  | .array items => items.mapM read
  | _ => none

/-- An integer between two bounds. -/
def readInt (low high : Int) : Json → Option Int
  | .number literal =>
    match literal.number? with
    | some (.integer n) => if low ≤ n ∧ n ≤ high then some n else none
    | _ => none
  | _ => none

/-- An integer of sixteen bits without sign. -/
def readU16 (value : Json) : Option UInt16 :=
  (readInt 0 65535 value).map fun n => UInt16.ofNat n.toNat

/-- A number of a format. Integers are rounded once, other numbers first to
sixty-four bits. -/
def readFloat (format : FloatFormat) : Json → Option (FloatBits format)
  | .number literal =>
    literal.number?.map fun number =>
      match number with
      | .integer n => .ofInt format n
      | .real x => x.convert format
  | _ => none

/-- A truth value. -/
def readBool : Json → Option Bool
  | .bool b => some b
  | _ => none

/-- The value with a tag, which is the name of its kind. -/
def readTagged (tag : String) (value : Json) : Option ValueSpec :=
  match Kind.ofName? tag with
  | some (.integer kind) => (readInt kind.min kind.max value).map (.integer kind)
  | some (.float .binary16) => (readFloat .binary32 value).map .half
  | some (.float .binary32) => (readFloat .binary32 value).map .single
  | some (.float .binary64) => (readFloat .binary64 value).map .double
  | some .bool => (readBool value).map .bool
  | some .ref => (readText value).map .ref
  | none => none

/-- A value: an object whose only member is named for the kind. -/
def readValue : Json → Option ValueSpec
  | .object [(tag, value)] => readTagged tag value
  | _ => none

/-- A function. -/
def readFunction (document : Json) : Option FunctionSpec := do
  let fields ← fields? ["name", "arity", "locals", "returns", "code"] document
  let name ← required readText fields "name"
  let arity ← optionalD readU16 0 fields "arity"
  let locals ← optionalD readU16 0 fields "locals"
  let returns ← optionalD readU16 0 fields "returns"
  let code ← required (readList readText) fields "code"
  return { name, arity, locals, returns, code }

/-- A heap entry. -/
def readHeapEntry (document : Json) : Option HeapEntry := do
  let fields ← fields? ["id", "kind", "count", "elements", "text"] document
  let id ← required readText fields "id"
  let kind ← required readText fields "kind"
  let count ← optionalD (nullable (readInt 0 Json.maxWord)) none fields "count"
  let elements ← optionalD (nullable (readList readValue)) none fields "elements"
  let text ← optionalD (nullable readText) none fields "text"
  return { id, kind, count := count.map Int.toNat, elements, text }

/-- An expectation: an object with one member. -/
def readExpectation : Json → Option Expectation
  | .object [("stack", values)] => (readList readValue values).map .stack
  | .object [("trap", name)] => (readText name).map .trap
  | _ => none

/-- A fixture. -/
def ofJson? (document : Json) : Option Fixture := do
  let fields ←
    fields? ["functions", "entry", "heap", "args", "stack", "locals", "expect"] document
  let functions ← required (readList readFunction) fields "functions"
  let entry ← optionalD (nullable readText) none fields "entry"
  let heap ← optionalD (readList readHeapEntry) [] fields "heap"
  let args ← optionalD (readList readValue) [] fields "args"
  let stack ← optionalD (readList readValue) [] fields "stack"
  let locals ← optionalD (readList (nullable readText)) [] fields "locals"
  let expect ← optionalD (nullable readExpectation) none fields "expect"
  return { functions, entry, heap, args, stack, locals, expect }

/-! ## Writing -/

/-- A text or null. -/
def writeOption {α : Type} (write : α → Json) : Option α → Json
  | none => .null
  | some value => write value

/-- A natural number. -/
def writeNat (n : Nat) : Json :=
  .number (.ofInt n)

/-- A value. -/
def writeValue : ValueSpec → Json
  | .integer kind n => .object [(kind.name, .number (.ofInt n))]
  | .half x => .object [(FloatFormat.binary16.name, .ofFloat .single x)]
  | .single x => .object [(FloatFormat.binary32.name, .ofFloat .single x)]
  | .double x => .object [(FloatFormat.binary64.name, .ofFloat .double x)]
  | .bool b => .object [(Kind.bool.name, .bool b)]
  | .ref label => .object [(Kind.ref.name, .string label)]

/-- A list of values. -/
def writeValues (values : List ValueSpec) : Json :=
  .array (values.map writeValue)

/-- A function. -/
def writeFunction (function : FunctionSpec) : Json :=
  .object [("name", .string function.name), ("arity", writeNat function.arity.toNat),
    ("locals", writeNat function.locals.toNat), ("returns", writeNat function.returns.toNat),
    ("code", .array (function.code.map .string))]

/-- A heap entry. -/
def writeHeapEntry (entry : HeapEntry) : Json :=
  .object [("id", .string entry.id), ("kind", .string entry.kind),
    ("count", writeOption writeNat entry.count),
    ("elements", writeOption writeValues entry.elements),
    ("text", writeOption .string entry.text)]

/-- An expectation. -/
def writeExpectation : Expectation → Json
  | .stack values => .object [("stack", writeValues values)]
  | .trap name => .object [("trap", .string name)]

/-- The document of a fixture, with all fields in order. -/
def toJson (fixture : Fixture) : Json :=
  .object [("functions", .array (fixture.functions.map writeFunction)),
    ("entry", writeOption .string fixture.entry),
    ("heap", .array (fixture.heap.map writeHeapEntry)),
    ("args", writeValues fixture.args),
    ("stack", writeValues fixture.stack),
    ("locals", .array (fixture.locals.map (writeOption .string))),
    ("expect", writeOption writeExpectation fixture.expect)]

end Fixture

end TypedStack
