import TypedStack.CommandLine.Report
import TypedStack.Text.Words

/-!
# Directories in memory

A directory of files by their locations, in which command lines can be executed
without touching any other. A location is a directory if a file lies below it.
The directories above are there as well, but nothing is in them at first.
-/

namespace TypedStack.CommandLine

/-- The names on the way to a file. Those at the front may lead to directories
above, and then a slash alone stands for the topmost. -/
abbrev Location := List String

/-- Whether a name leads to a directory above. -/
def isUpward (name : String) : Bool :=
  name == ".." || name == "/"

/-- Files by their locations. -/
structure Directory where
  entries : List (Location × Bytes)

namespace Directory

/-- The directory without files. -/
def empty : Directory :=
  ⟨[]⟩

/-- The bytes of the file at a location. -/
def file? (directory : Directory) (location : Location) : Option Bytes :=
  directory.entries.lookup location

/-- Whether there is a directory at a location. -/
def isFolder (directory : Directory) (location : Location) : Bool :=
  location.all isUpward || directory.entries.any fun entry =>
    location.isPrefixOf entry.1 && entry.1 != location

/-- Put a file at a location, in place of the one there was. -/
def put (directory : Directory) (location : Location) (bytes : Bytes) : Directory :=
  ⟨(location, bytes) :: directory.entries.filter fun entry => entry.1 != location⟩

/-- The location above another; nothing is above the topmost. -/
def above (location : Location) : Location :=
  if location = ["/"] then location
  else if location.all isUpward then location ++ [".."]
  else location.dropLast

/-- How many bytes a name may have. -/
def maxNameSize : Nat := 255

/-- How many bytes a path may have. -/
def maxPathSize : Nat := 4095

/-- Go on from a location, which must be a directory. -/
def enter (directory : Directory) (location : Location) (name : String) :
    Except FileError Location :=
  if directory.isFolder location then
    match name with
    | "" => .ok location
    | "." => .ok location
    | ".." => .ok (above location)
    | name =>
      if maxNameSize < name.utf8ByteSize then .error .nameTooLong else .ok (location ++ [name])
  else if (directory.file? location).isSome then .error .notDirectory
  else .error .notFound

/-- The names of a path. -/
def names (path : String) : List String :=
  (Text.pieces (· == '/') path.toList).map String.ofList

/-- Where the names of a path start. -/
def base (path : String) : Location :=
  if path.toList.head? = some '/' then ["/"] else []

/-- The location that some of the names of a path lead to. -/
def locate (directory : Directory) (path : String) (names : List String) :
    Except FileError Location :=
  if maxPathSize < path.utf8ByteSize then .error .nameTooLong
  else names.foldlM (directory.enter · ·) (base path)

/-- Read the file that a path leads to. -/
def read (directory : Directory) : Files := fun path =>
  match directory.locate path (names path) with
  | .error e => .error e
  | .ok location =>
    match directory.file? location with
    | some bytes => .ok bytes
    | none => if directory.isFolder location then .error .isDirectory else .error .notFound

/-- Where a path leads to that a file is to be written to. A path with a slash at
its end can only mean a directory, whether it is there or not, but the one that
it would be in must be there. -/
def target (directory : Directory) (path : String) : Except FileError Location :=
  match (names path).reverse.span (·.isEmpty) with
  | ([], _) => directory.locate path (names path)
  | (_, inner) =>
    match directory.locate path ((inner.drop 1).reverse ++ ["."]) with
    | .error e => .error e
    | .ok _ => .error .isDirectory

/-- Write the file that a path leads to. -/
def write (directory : Directory) (path : String) (bytes : Bytes) :
    Except FileError Unit × Directory :=
  match directory.target path with
  | .error e => (.error e, directory)
  | .ok location =>
    if directory.isFolder location then (.error .isDirectory, directory)
    else (.ok (), directory.put location bytes)

/-- The directory with the given files, each at its path; of two files at one
path the later counts. -/
def ofFiles (files : List (String × Bytes)) : Directory :=
  files.foldl (fun directory (path, bytes) => directory.put (names path) bytes) empty

/-- Do what an invocation does in a directory. -/
def perform (directory : Directory) (invocation : Invocation) : Report × Directory :=
  match invocation.action directory.read with
  | .report report => (report, directory)
  | .write path bytes =>
    let (result, directory) := directory.write path bytes
    (reportWrite path bytes result, directory)

/-- Execute a command line in a directory. One that asks for nothing leaves the
directory as it is. -/
def execute (directory : Directory) (words : List String) :
    Except UsageError Report × Directory :=
  match parse words with
  | .error e => (.error e, directory)
  | .ok invocation =>
    let (report, directory) := directory.perform invocation
    (.ok report, directory)

end Directory

end TypedStack.CommandLine
