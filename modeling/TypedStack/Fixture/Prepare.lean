import TypedStack.Fixture.CreationOrder
import TypedStack.Machine.Run

/-!
# Preparing and running fixtures

Preparing a fixture assembles its functions, makes its heap and resolves the
labels in its values. A prepared fixture can be run, and how a run ended can be
compared with what the fixture expects.
-/

namespace TypedStack

namespace Fixture

/-- Read a fixture from its text. -/
def parse (text : String) : Except Error Fixture :=
  match Json.parse? text with
  | none => .error (.malformed .grammar)
  | some document =>
    match ofJson? document with
    | none => .error (.malformed .shape)
    | some fixture => .ok fixture

/-- Read a fixture from the bytes of its text. -/
def ofBytes (bytes : Bytes) : Except Error Fixture :=
  match bytes.toString? with
  | none => .error (.malformed .encoding)
  | some text => parse text

/-- The text of a fixture. -/
def render (fixture : Fixture) : String :=
  String.ofList fixture.toJson.render

/-! ## The program -/

/-- Add functions to a program. -/
def addFunctions (program : Program) : List FunctionSpec → Except Error Program
  | [] => .ok program
  | spec :: rest =>
    if (program.find? spec.name).isSome then .error (.duplicateFunction spec.name)
    else
      match Function.assemble spec.name spec.arity spec.locals spec.returns spec.code with
      | .error cause => .error (.assemble spec.name cause)
      | .ok function =>
        match program.add function with
        | none => .error .tooManyFunctions
        | some (_, program) => addFunctions program rest

/-- The program of a fixture. -/
def program (fixture : Fixture) : Except Error Program :=
  if fixture.functions.isEmpty then .error .noFunctions
  else
    match addFunctions .empty fixture.functions with
    | .error e => .error e
    | .ok program =>
      match fixture.entry with
      | none => .ok (program.withEntry 0)
      | some name =>
        match program.find? name with
        | none => .error (.unknownEntry name)
        | some index => .ok (program.withEntry index)

/-! ## The heap -/

/-- The addresses of heap entries by their identifiers. -/
abbrev Labels := List (String × Address)

/-- The kind with a name. -/
def resolveKind (name : String) : Except Error Kind :=
  match Kind.ofName? name with
  | some kind => .ok kind
  | none => .error (.unknownKind name)

/-- The value that a fixture describes. -/
def resolve (labels : Labels) (heap : Heap) : ValueSpec → Except Error Value
  | .integer kind n => .ok (.wrapInteger kind n)
  | .half x => .ok (.float .binary16 x.halfOfSingle)
  | .single x => .ok (.float .binary32 x)
  | .double x => .ok (.float .binary64 x)
  | .bool b => .ok (.bool b)
  | .ref label =>
    match labels.lookup label with
    | none => .error (.unknownHeapId label)
    | some address => (heap.reference address).mapError .heap

/-- The values that a fixture describes. -/
def resolveAll (labels : Labels) (heap : Heap) (specs : List ValueSpec) :
    Except Error (List Value) :=
  specs.mapM (resolve labels heap)

/-- The payload of a heap entry of the given kind. -/
def payload (labels : Labels) (heap : Heap) (entry : HeapEntry) (kind : Kind) :
    Except Error (List Value) :=
  match entry.elements, entry.text with
  | some _, some _ => .error (.ambiguousPayload entry.id)
  | none, some text =>
    if kind = .integer .u8 then .ok ((Bytes.ofString text).map Value.u8)
    else .error (.textKind entry.id kind)
  | some specs, none => resolveAll labels heap specs
  | none, none =>
    match Value.zero? kind with
    | none => .error (.noZero entry.id kind)
    | some zero => .ok (List.replicate (entry.count.getD 0) zero)

/-- Check that a heap entry holds as many values as it says. -/
def checkCount (entry : HeapEntry) (found : Nat) : Except Error Unit :=
  match entry.count with
  | none => .ok ()
  | some count => if count = found then .ok () else .error (.countMismatch entry.id count found)

/-- Make the object of a heap entry. -/
def makeEntry (labels : Labels) (heap : Heap) (entry : HeapEntry) :
    Except Error (Labels × Heap) := do
  let kind ← resolveKind entry.kind
  let values ← payload labels heap entry kind
  checkCount entry values.length
  match Heap.create kind values heap with
  | .error e _ => throw (.heap e)
  | .ok address heap => return ((entry.id, address) :: labels, heap)

/-- Make the objects of heap entries, given by their numbers. -/
def makeEntries (entries : List HeapEntry) :
    List Nat → Labels → Heap → Except Error (Labels × Heap)
  | [], labels, heap => .ok (labels, heap)
  | index :: rest, labels, heap =>
    match entries[index]? with
    | none => makeEntries entries rest labels heap
    | some entry =>
      match makeEntry labels heap entry with
      | .error e => .error e
      | .ok (labels, heap) => makeEntries entries rest labels heap

/-- Make all heap entries. -/
def buildHeap (entries : List HeapEntry) (heap : Heap) : Except Error (Labels × Heap) := do
  let order ← creationOrder entries
  makeEntries entries order [] heap

/-! ## Prepared fixtures -/

/-- How an invocation should end, with all labels resolved. -/
inductive Expected where
  | stack (values : List Value)
  | trap (kind : TrapKind)
  deriving DecidableEq, Repr

/-- Resolve an expectation. -/
def resolveExpectation (labels : Labels) (heap : Heap) : Expectation → Except Error Expected
  | .stack specs => (resolveAll labels heap specs).map .stack
  | .trap name =>
    match TrapKind.ofName? name with
    | some kind => .ok (.trap kind)
    | none => .error (.unknownTrapKind name)

/-- Resolve an expectation if there is one. -/
def resolveExpected (labels : Labels) (heap : Heap) :
    Option Expectation → Except Error (Option Expected)
  | none => .ok none
  | some expectation => (resolveExpectation labels heap expectation).map some

/-- Resolve the kind of a local slot if there is one. -/
def resolveLocal : Option String → Except Error (Option Kind)
  | none => .ok none
  | some name => (resolveKind name).map some

end Fixture

/-- All that a run needs, and how it should end. -/
structure Prepared where
  program : Program
  heap : Heap
  activation : Activation
  labels : Fixture.Labels
  expected : Option Fixture.Expected

/-- Assemble the functions, make the heap, and resolve the values of a fixture. -/
def Fixture.prepare (fixture : Fixture) (policy : ReclaimPolicy) : Except Error Prepared := do
  let program ← fixture.program
  let (labels, heap) ← buildHeap fixture.heap (.empty policy)
  let args ← resolveAll labels heap fixture.args
  let stack ← resolveAll labels heap fixture.stack
  let expected ← resolveExpected labels heap fixture.expect
  let locals ← fixture.locals.mapM resolveLocal
  return { program, heap, activation := ⟨args, stack, locals⟩, labels, expected }

/-- How an outcome differs from what was expected. -/
inductive Mismatch where
  | stack (expected found : List Value)
  | unexpectedTrap (expected : List Value) (found : Trap)
  | missingTrap (expected : TrapKind) (found : List Value)
  | trap (expected : TrapKind) (found : Trap)
  deriving DecidableEq, Repr

/-- The wording of a mismatch. -/
def Mismatch.message : Mismatch → String
  | stack expected found =>
    "expected stack " ++ Value.renderList expected ++ ", got " ++ Value.renderList found
  | unexpectedTrap expected found =>
    "expected stack " ++ Value.renderList expected ++ ", got " ++ found.message
  | missingTrap expected found =>
    "expected " ++ expected.name ++ ", got stack " ++ Value.renderList found
  | trap expected found => "expected " ++ expected.name ++ ", got " ++ found.message

namespace Prepared

/-- Make the given texts the argument of a main function, in place of the
arguments there were. -/
def withMainArgs (prepared : Prepared) (texts : List String) : Except HeapError Prepared :=
  match Activation.ofTexts texts prepared.heap with
  | .error e _ => .error e
  | .ok activation heap =>
    .ok { prepared with heap, activation := { prepared.activation with args := activation.args } }

/-- Run the entry function. The activation is used up: what is left would start
with nothing. -/
def run (prepared : Prepared) (limits : Limits) : Except SetupError Outcome × Prepared :=
  (Machine.invoke prepared.program prepared.heap limits prepared.activation,
    { prepared with activation := .empty })

/-- Whether two lists hold equal values in the same order. -/
def equalValues : List Value → List Value → Bool
  | [], [] => true
  | a :: as, b :: bs => a.equals b && equalValues as bs
  | _, _ => false

/-- Compare an outcome with what is expected, if anything is. -/
def check (prepared : Prepared) (outcome : Outcome) : Except Mismatch Unit :=
  match prepared.expected, outcome with
  | none, _ => .ok ()
  | some (.stack expected), .ok found =>
    if equalValues expected found then .ok () else .error (.stack expected found)
  | some (.stack expected), .error trap => .error (.unexpectedTrap expected trap)
  | some (.trap expected), .ok found => .error (.missingTrap expected found)
  | some (.trap expected), .error trap =>
    if trap.kind = expected then .ok () else .error (.trap expected trap)

end Prepared

end TypedStack
