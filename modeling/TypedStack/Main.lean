import TypedStack.CommandLine.Report

/-!
# The program

Reads the files that a command line names, performs its command, and prints the
report.
-/

namespace TypedStack

/-- The cause of a failure of the system. -/
def FileError.ofSystem : IO.Error → FileError
  | .noFileOrDirectory _ code reason => .system reason code.toNat
  | .interrupted _ code reason => .system reason code.toNat
  | .alreadyExists _ code reason => .system reason code.toNat
  | .invalidArgument _ code reason => .system reason code.toNat
  | .permissionDenied _ code reason => .system reason code.toNat
  | .resourceExhausted _ code reason => .system reason code.toNat
  | .inappropriateType _ code reason => .system reason code.toNat
  | .noSuchThing _ code reason => .system reason code.toNat
  | .otherError code reason => .system reason code.toNat
  | .resourceBusy code reason => .system reason code.toNat
  | .resourceVanished code reason => .system reason code.toNat
  | .unsupportedOperation code reason => .system reason code.toNat
  | .hardwareFault code reason => .system reason code.toNat
  | .unsatisfiedConstraints code reason => .system reason code.toNat
  | .illegalOperation code reason => .system reason code.toNat
  | .protocolError code reason => .system reason code.toNat
  | .timeExpired code reason => .system reason code.toNat
  | .unexpectedEof => .system "unexpected end of file" 0
  | .userError reason => .system reason 0

/-- Read a file. -/
def readFile (path : String) : IO (Except FileError Bytes) := do
  try
    let bytes ← IO.FS.withFile path .read fun handle => handle.readBinToEnd
    return .ok bytes.data.toList
  catch e => return .error (.ofSystem e)

/-- Write a file. -/
def writeFile (path : String) (bytes : Bytes) : IO (Except FileError Unit) := do
  try
    IO.FS.writeBinFile path ⟨bytes.toArray⟩
    return .ok ()
  catch e => return .error (.ofSystem e)

namespace CommandLine

/-- Do what an invocation does. -/
def Invocation.perform (invocation : Invocation) : IO Report := do
  let contents ← invocation.command.inputs.mapM fun path => return (path, ← readFile path)
  let files : Files := fun path => (contents.lookup path).getD (.error .notFound)
  match invocation.action files with
  | .report report => return report
  | .write path bytes => return reportWrite path bytes (← writeFile path bytes)

/-- Print a report; its status is cut to eight bits. -/
def Report.print (report : Report) : IO UInt32 := do
  IO.print report.output
  IO.eprint report.errors
  return UInt32.ofNat (report.status % 256).toNat

end CommandLine

end TypedStack

/-- Execute a command line. -/
def main (words : List String) : IO UInt32 := do
  match TypedStack.CommandLine.parse words with
  | .error e =>
    IO.eprintln ("error: " ++ e.message)
    return UInt32.ofNat TypedStack.CommandLine.loadErrorStatus.toNat
  | .ok invocation => (← invocation.perform).print
