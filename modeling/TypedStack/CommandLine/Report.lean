import TypedStack.CommandLine.Arguments
import TypedStack.CommandLine.Files
import TypedStack.Container.Writer
import TypedStack.Listing

/-!
# What commands do

A command is a function of the files it reads. All but one only report; `build`
has a file to write, and reports how that went.
-/

namespace TypedStack.CommandLine

/-- What a command prints, and the status it ends with. -/
structure Report where
  output : String
  errors : String
  status : Int
  deriving DecidableEq, Repr

/-- The status of a command that found a fault in what it ran. -/
def failureStatus : Int := 1

/-- The status of a command that could not do its work. -/
def loadErrorStatus : Int := 2

/-- A line of text. -/
def line (text : String) : String :=
  text ++ "\n"

namespace Report

/-- The report of a command that went well. -/
def success (output : String) : Report :=
  ⟨output, "", 0⟩

/-- The report of a command that could not do its work. -/
def loadError (text : String) : Report :=
  ⟨"", line text, loadErrorStatus⟩

/-- One report behind another; the larger status is that of both. -/
def append (first second : Report) : Report :=
  ⟨first.output ++ second.output, first.errors ++ second.errors,
    max first.status second.status⟩

/-- Put output in front of a report. -/
def behind (output : String) (report : Report) : Report :=
  { report with output := output ++ report.output }

end Report

/-- What is said when something about a file goes wrong. -/
def complaint (doing path cause : String) : String :=
  "Error " ++ doing ++ " '" ++ path ++ "': " ++ cause

/-! ## Listing programs -/

/-- The counts of a function. -/
def counts (function : Function) : String :=
  "args " ++ toString function.arity.toNat ++ ", locals " ++ toString function.locals.toNat ++
    ", returns " ++ toString function.returns.toNat

/-- A function with its number, its counts and its code. -/
def listFunction (function : Function) (index : Nat) : String :=
  line ("== " ++ toString index ++ ": " ++ function.name ++ " (" ++ counts function ++ ") ==") ++
    (Listing.ofCode function.code.toList).render

/-- All functions of a program. -/
def listProgram (program : Program) : String :=
  String.join (program.functions.toList.zipIdx.map fun (function, index) =>
    listFunction function index)

/-- List the program of an image. -/
def disassemble (files : Files) (path : String) : Report :=
  match Image.load files path with
  | .error e => .loadError (complaint "loading" path e.message)
  | .ok image =>
    match image.program with
    | .error e => .loadError (complaint "loading" path e.message)
    | .ok program => .success (listProgram program)

/-! ## Running images -/

/-- The report on the outcome of a run. Returned values are the status of a
container only. -/
def reportOutcome (image : Image) : Outcome → Report
  | .ok values =>
    ⟨String.join (values.map fun value => line value.render), "",
      if image.isContainer then exitStatus values else 0⟩
  | .error trap => ⟨"", line ("trap: " ++ trap.message), failureStatus⟩

/-- Add to a report that an outcome was not what was expected. -/
def reportCheck (report : Report) : Except Mismatch Unit → Report
  | .ok () => report
  | .error e =>
    ⟨report.output, report.errors ++ line ("expectation failed: " ++ e.message), failureStatus⟩

/-- Run what was prepared. What a fixture expects is meant for its own arguments,
so it is compared only if no others are given. -/
def runPrepared (path : String) (options : RunOptions) (image : Image) (prepared : Prepared) :
    Report :=
  match (prepared.run options.limits).1 with
  | .error e => .loadError (complaint "starting" path e.message)
  | .ok outcome =>
    let report := reportOutcome image outcome
    if options.args.isEmpty then reportCheck report (prepared.check outcome) else report

/-- Run an image. -/
def run (files : Files) (path : String) (options : RunOptions) : Report :=
  match Image.load files path with
  | .error e => .loadError (complaint "loading" path e.message)
  | .ok image =>
    match image.prepare .retain options.args with
    | .error e => .loadError (complaint "preparing" path e.message)
    | .ok prepared =>
      let listing := if options.listing then listProgram prepared.program else ""
      (runPrepared path options image prepared).behind listing

/-! ## Describing containers -/

/-- The sizes of the tables of a container. -/
def describe (info : Container.Info) : String :=
  line ("Flags:\t\t" ++ info.flags.render ++ " (1 byte)") ++
    (match info.entry with
    | none => ""
    | some entry => line ("Entrypoint:\t0x" ++ Text.hex 8 entry ++ " (4 bytes)")) ++
    line ("Types:\t\t" ++ toString info.types) ++
    line ("Strings:\t" ++ toString info.strings ++ " (" ++ toString info.stringBytes ++
      " bytes total)") ++
    line ("Bytecode:\t" ++ toString info.functions ++ " functions (" ++ toString info.codeBytes ++
      " bytes total)") ++
    line ("Debug info:\t" ++ toString info.sourceMaps ++ " bytecode-to-source maps")

/-- A function with its number, its counts and its size. -/
def describeFunction (function : Function) (index : Nat) : String :=
  line ("\t#" ++ toString index ++ " " ++ function.name ++ " (" ++ counts function ++ ", " ++
    toString function.code.size ++ " bytes)")

/-- All functions of a program, with their sizes. -/
def describeProgram (program : Program) : String :=
  String.join (program.functions.toList.zipIdx.map fun (function, index) =>
    describeFunction function index)

/-- Describe a container, and its functions too if asked to be verbose. -/
def info (files : Files) (path : String) (verbose : Bool) : Report :=
  match Image.load files path with
  | .error e => .loadError (complaint "loading" path e.message)
  | .ok (.fixture _) => .loadError ("'" ++ path ++ "' is a fixture, not a program binary")
  | .ok (.container program info) =>
    .success (describe info ++ if verbose then describeProgram program else "")

/-! ## Building containers -/

/-- The container of the program of a fixture, or what is said if there is none. -/
def assembleFixture (files : Files) (path : String) : Except String Bytes :=
  match Fixture.load files path with
  | .error e => .error e.message
  | .ok fixture =>
    match fixture.program with
    | .error e => .error e.message
    | .ok program =>
      match program.toBinary with
      | .error e => .error e.message
      | .ok bytes => .ok bytes

/-- The extension of containers. -/
def containerExtension : String := "fub"

/-- Where the container of a fixture goes if it is not said. -/
def defaultOutput (path : String) : String :=
  Path.withExtension path containerExtension

/-- What a command does last. -/
inductive Action where
  | report (report : Report)
  /-- Write a file, and report how that went. -/
  | write (path : String) (bytes : Bytes)

/-- The report on writing a file. -/
def reportWrite (path : String) (bytes : Bytes) : Except FileError Unit → Report
  | .ok () => .success (line ("wrote " ++ path ++ " (" ++ toString bytes.length ++ " bytes)"))
  | .error e => .loadError (complaint "writing" path e.message)

/-- Build the container of a fixture. -/
def build (files : Files) (path : String) (output : Option String) : Action :=
  match assembleFixture files path with
  | .error text => .report (.loadError (complaint "building" path text))
  | .ok bytes => .write (output.getD (defaultOutput path)) bytes

/-! ## Checking fixtures -/

/-- Run a fixture and compare the outcome, or say what is wrong. -/
def verdict (prepared : Prepared) : Except String Unit :=
  match (prepared.run .standard).1 with
  | .error e => .error e.message
  | .ok outcome => (prepared.check outcome).mapError Mismatch.message

/-- Check one fixture. -/
def checkFixture (files : Files) (path : String) : Report :=
  let loaded := do
    let fixture ← Fixture.load files path
    fixture.prepare .retain
  match loaded with
  | .error e => .loadError (path ++ ": load error: " ++ e.message)
  | .ok prepared =>
    match verdict prepared with
    | .ok () => .success (line (path ++ ": ok"))
    | .error text => ⟨line (path ++ ": FAILED: " ++ text), "", failureStatus⟩

/-- Check fixtures in turn. -/
def check (files : Files) (paths : List String) : Report :=
  paths.foldl (fun report path => report.append (checkFixture files path)) (.success "")

/-! ## Commands -/

/-- The files that a command reads. -/
def Command.inputs : Command → List String
  | run image _ => [image]
  | disassemble image => [image]
  | info container => [container]
  | build fixture _ => [fixture]
  | check fixtures => fixtures

/-- What an invocation does, given the files it reads. -/
def Invocation.action (invocation : Invocation) (files : Files) : Action :=
  match invocation.command with
  | .run image options => .report (run files image options)
  | .disassemble image => .report (disassemble files image)
  | .info container => .report (info files container invocation.verbose)
  | .build fixture output => build files fixture output
  | .check fixtures => .report (check files fixtures)

end TypedStack.CommandLine
