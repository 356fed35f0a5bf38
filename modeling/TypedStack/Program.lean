import TypedStack.Instruction.Assembly

/-!
# Programs

A program is a table of functions, of which one may be the entry. Functions are
called by their place in the table, a number of sixteen bits.
-/

namespace TypedStack

/-- Code with the shape of the frames it runs in. -/
structure Function where
  name : String
  /-- How many arguments a call takes from the stack. -/
  arity : UInt16
  /-- How many local slots a frame has. -/
  locals : UInt16
  /-- How many values the stack must hold at a return. -/
  returns : UInt16
  code : Array UInt8
  deriving DecidableEq, Repr

/-- A function given by assembly lines. -/
def Function.assemble (name : String) (arity locals returns : UInt16) (lines : List String) :
    Except AssembleError Function :=
  (Instruction.assemble lines).map fun code => ⟨name, arity, locals, returns, code.toArray⟩

/-- A table of functions and the entry, if there is one. -/
structure Program where
  functions : Array Function
  entry : Option UInt16
  deriving DecidableEq, Repr

namespace Program

/-- The program without functions. -/
def empty : Program :=
  ⟨#[], none⟩

/-- The program whose only function is its entry. -/
def single (function : Function) : Program :=
  ⟨#[function], some 0⟩

/-- How many functions a table can hold. -/
def maxFunctions : Nat := 65536

/-- Append a function and return its place, unless the table is full. -/
@[inline] def add (program : Program) (function : Function) : Option (UInt16 × Program) :=
  if program.functions.size < maxFunctions then
    some (UInt16.ofNat program.functions.size,
      { program with functions := program.functions.push function })
  else none

/-- The function at a place of the table. -/
def function? (program : Program) (index : UInt16) : Option Function :=
  program.functions[index.toNat]?

/-- The place of the first function with a name. -/
def find? (program : Program) (name : String) : Option UInt16 :=
  (program.functions.findIdx? (·.name == name)).map UInt16.ofNat

/-- The program with another entry. -/
def withEntry (program : Program) (index : UInt16) : Program :=
  { program with entry := some index }

end Program

end TypedStack
