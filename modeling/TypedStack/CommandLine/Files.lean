import TypedStack.Image

/-!
# Files

What commands need to know of files: how they are read, why they cannot be, and
how a path gets another extension.
-/

namespace TypedStack

/-- Why a file cannot be read or written. -/
inductive FileError where
  /-- The reason and the number that the system gives. -/
  | system (reason : String) (code : Nat)
  /-- The file holds no text. -/
  | encoding
  deriving DecidableEq, Repr

namespace FileError

/-- There is no such file, or no directory on the way to it. -/
def notFound : FileError :=
  system "No such file or directory" 2

/-- A file stands where a directory is needed. -/
def notDirectory : FileError :=
  system "Not a directory" 20

/-- A directory stands where a file is needed. -/
def isDirectory : FileError :=
  system "Is a directory" 21

/-- A name or a path is longer than the system takes. -/
def nameTooLong : FileError :=
  system "File name too long" 36

/-- The wording of a file error. -/
def message : FileError → String
  | system reason code => reason ++ " (os error " ++ toString code ++ ")"
  | encoding => "stream did not contain valid UTF-8"

end FileError

/-- What reading each path gives. -/
abbrev Files := String → Except FileError Bytes

/-- The image in a file. -/
def Image.load (files : Files) (path : String) : Except Image.Error Image :=
  match files path with
  | .error e => .error (.unreadable path e.message)
  | .ok bytes => ofBytes bytes

/-- The text in a file. -/
def Files.text (files : Files) (path : String) : Except FileError String :=
  match files path with
  | .error e => .error e
  | .ok bytes =>
    match bytes.toString? with
    | none => .error .encoding
    | some text => .ok text

/-- The fixture in a file. -/
def Fixture.load (files : Files) (path : String) : Except Fixture.Error Fixture :=
  match files.text path with
  | .error e => .error (.unreadable path e.message)
  | .ok text => parse text

namespace Path

/-- Divide a text behind the last character of a class; if there is none, all of
it comes second. -/
def splitLast (cut : Char → Bool) (text : List Char) : List Char × List Char :=
  let (tail, head) := text.reverse.span (!cut ·)
  (head.reverse, tail.reverse)

/-- Give the file at the end of a path another extension. A dot at the start of
its name starts no extension. If the old extension has only two dots in front of
it, they are left alone, for they name the directory above. -/
def withExtension (path extension : String) : String :=
  let (directory, name) := splitLast (· == '/') path.toList
  let renamed :=
    match (splitLast (· == '.') name).1 with
    | [] => name ++ '.' :: extension.toList
    | ['.'] => name ++ '.' :: extension.toList
    | ['.', '.'] => ['.', '.']
    | front => front ++ extension.toList
  String.ofList (directory ++ renamed)

end Path

end TypedStack
