import TypedStack.Fixture.Prepare
import TypedStack.Container.Reader

/-!
# Images

A file that can be run is a fixture or a program container; the signature of the
latter tells them apart.
-/

namespace TypedStack

/-- What a file holds. -/
inductive Image where
  | fixture (fixture : Fixture)
  | container (program : Program) (info : Container.Info)

namespace Image

/-- Why an image could not be loaded or prepared. -/
inductive Error where
  | unreadable (path cause : String)
  | fixture (cause : Fixture.Error)
  | container (cause : Container.Error)
  | heap (cause : HeapError)
  | library
  deriving DecidableEq, Repr

/-- The wording of an image error. -/
def Error.message : Error → String
  | unreadable path cause => Fixture.unreadableMessage path cause
  | fixture cause => cause.message
  | container cause => "malformed binary: " ++ cause.message
  | heap cause => cause.message
  | library => "binary is a library and has no entrypoint"

/-- The image that the bytes of a file are. -/
def ofBytes (bytes : Bytes) : Except Error Image :=
  if Container.signature.isPrefixOf bytes then
    match Program.readFrom (.ofBytes bytes) with
    | .ok (program, info) => .ok (.container program info)
    | .error e => .error (.container e)
  else
    match Fixture.ofBytes bytes with
    | .ok found => .ok (.fixture found)
    | .error e => .error (.fixture e)

/-- Whether the image is a program container. -/
def isContainer : Image → Bool
  | fixture _ => false
  | container _ _ => true

/-- The program of an image. -/
def program : Image → Except Error Program
  | fixture found => found.program.mapError .fixture
  | container program _ => .ok program

/-- What a container starts with: an entry with one argument is a main function,
and any other gets nothing. -/
def containerActivation (entry : Function) (args : List String) : Heap.Update Activation :=
  if entry.arity = 1 then Activation.ofTexts args else return .empty

/-- Prepare an image with the given texts as arguments. A fixture keeps its own
arguments if there are none. -/
def prepare (image : Image) (policy : ReclaimPolicy) (args : List String) :
    Except Error Prepared :=
  match image with
  | fixture found =>
    match found.prepare policy with
    | .error e => .error (.fixture e)
    | .ok prepared =>
      if args.isEmpty then .ok prepared
      else (prepared.withMainArgs args).mapError fun e => .fixture (.heap e)
  | container program _ =>
    match program.entry.bind program.function? with
    | none => .error .library
    | some entry =>
      match containerActivation entry args (.empty policy) with
      | .error e _ => .error (.heap e)
      | .ok activation heap =>
        .ok { program, heap, activation, labels := [], expected := none }

end Image

/-- The exit status of values: that of a single integer is its low thirty-two
bits with a sign, and any others have zero. -/
def exitStatus : List Value → Int
  | [value] =>
    match value.toInt? with
    | some n => n.bmod UInt32.size
    | none => 0
  | _ => 0

end TypedStack
