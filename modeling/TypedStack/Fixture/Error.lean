import TypedStack.Program
import TypedStack.Trap

/-!
# Errors of fixtures
-/

namespace TypedStack

namespace Fixture

/-- What is wrong with the document of a fixture. -/
inductive Malformed where
  | encoding
  | grammar
  | shape
  deriving DecidableEq, Repr

/-- The wording of what is wrong with a document. -/
def Malformed.message : Malformed → String
  | encoding => "the text is not UTF-8"
  | grammar => "the text is not a JSON document"
  | shape => "the document does not have the shape of a fixture"

/-- Why a fixture could not be read or prepared. -/
inductive Error where
  | unreadable (path cause : String)
  | malformed (cause : Malformed)
  | assemble (function : String) (cause : AssembleError)
  | unknownKind (name : String)
  | unknownTrapKind (name : String)
  | noFunctions
  | tooManyFunctions
  | duplicateFunction (name : String)
  | unknownEntry (name : String)
  | duplicateHeapId (id : String)
  | unknownHeapId (id : String)
  | heapCycle (id : String)
  | countMismatch (id : String) (count found : Nat)
  | ambiguousPayload (id : String)
  | textKind (id : String) (kind : Kind)
  | noZero (id : String) (kind : Kind)
  | heap (cause : HeapError)
  deriving DecidableEq, Repr

/-- What is said of a file that cannot be read. -/
def unreadableMessage (path cause : String) : String :=
  "cannot read " ++ path ++ ": " ++ cause

/-- The wording of a fixture error. -/
def Error.message : Error → String
  | unreadable path cause => unreadableMessage path cause
  | malformed cause => "malformed fixture: " ++ cause.message
  | assemble function cause => "function `" ++ function ++ "`: " ++ cause.message
  | unknownKind name => Kind.unknownMessage name
  | unknownTrapKind name => TrapKind.unknownMessage name
  | noFunctions => "fixture declares no functions"
  | tooManyFunctions => "too many functions"
  | duplicateFunction name => "function `" ++ name ++ "` is declared twice"
  | unknownEntry name => "entry function `" ++ name ++ "` is not declared"
  | duplicateHeapId id => "heap id `" ++ id ++ "` is declared twice"
  | unknownHeapId id => "unknown heap id `" ++ id ++ "`"
  | heapCycle id => "heap entry `" ++ id ++ "` is part of a reference cycle"
  | countMismatch id count found =>
    "heap entry `" ++ id ++ "` declares " ++ toString count ++ " elements but holds " ++
      toString found
  | ambiguousPayload id => "heap entry `" ++ id ++ "` has both `elements` and `text`"
  | textKind id kind =>
    "heap entry `" ++ id ++ "` has `text` but element kind " ++ kind.name
  | noZero id kind =>
    "heap entry `" ++ id ++ "` of kind " ++ kind.name ++ " needs explicit elements"
  | heap cause => cause.message

end Fixture

end TypedStack
