import TypedStack.Machine.Basic
import TypedStack.Text.Digits

/-!
# Arguments of the command line

The words before the name of a command can only be flags that go with every
command. The words behind it are read in two passes: the first tells flags, with
their values, from other words, up to a double dash, behind which all words are
literal; the second makes a command of what it found.
-/

namespace TypedStack.CommandLine

/-- The names that commands go by. -/
inductive Verb where
  | run
  | disassemble
  | info
  | build
  | check
  deriving DecidableEq, Repr

/-- The command with a name. -/
def Verb.ofName? : String → Option Verb
  | "run" => some run
  | "disassemble" => some disassemble
  | "asm" => some disassemble
  | "info" => some info
  | "build" => some build
  | "check" => some check
  | _ => none

/-- Words that change what a command does. -/
inductive Flag where
  | verbose
  | disassemble
  | stackLimit
  | frameLimit
  | output
  deriving DecidableEq, Repr

namespace Flag

/-- The long name of a flag. -/
def name : Flag → String
  | verbose => "verbose"
  | disassemble => "disassemble"
  | stackLimit => "stack-limit"
  | frameLimit => "frame-limit"
  | output => "output"

/-- The flag with a long name. -/
def ofName? : String → Option Flag
  | "verbose" => some verbose
  | "disassemble" => some disassemble
  | "stack-limit" => some stackLimit
  | "frame-limit" => some frameLimit
  | "output" => some output
  | _ => none

/-- The flag that a letter stands for. -/
def ofLetter? : Char → Option Flag
  | 'v' => some verbose
  | 'd' => some disassemble
  | 'o' => some output
  | _ => none

/-- Whether a value follows the flag. -/
def takesValue : Flag → Bool
  | verbose => false
  | disassemble => false
  | stackLimit => true
  | frameLimit => true
  | output => true

/-- Whether a flag goes with every command. -/
def isGlobal : Flag → Bool
  | verbose => true
  | _ => false

/-- Whether a flag goes with a command. -/
def goesWith (verb : Verb) : Flag → Bool
  | verbose => true
  | disassemble => verb = .run
  | stackLimit => verb = .run
  | frameLimit => verb = .run
  | output => verb = .build

end Flag

/-- What `run` can be told beside the image. -/
structure RunOptions where
  /-- Whether the program is listed first. -/
  listing : Bool
  limits : Limits
  /-- The texts for the entry function. -/
  args : List String
  deriving DecidableEq, Repr

/-- A command with all it was told; files are given by their paths. -/
inductive Command where
  | run (image : String) (options : RunOptions)
  | disassemble (image : String)
  | info (container : String)
  | build (fixture : String) (output : Option String)
  | check (fixtures : List String)
  deriving DecidableEq, Repr

/-- What a command line asks for. -/
structure Invocation where
  verbose : Bool
  command : Command
  deriving DecidableEq, Repr

/-- Why a command line asks for nothing. -/
inductive UsageError where
  | missingCommand
  | unknownCommand (word : String)
  | unknownFlag (word : String)
  | missingValue (flag : Flag)
  | unexpectedValue (flag : Flag)
  | repeatedFlag (flag : Flag)
  | badNumber (flag : Flag) (value : String)
  | missingPath
  | emptyPath
  | surplusWord (word : String)
  deriving DecidableEq, Repr

/-- The wording of a usage error. -/
def UsageError.message : UsageError → String
  | missingCommand => "a command is needed"
  | unknownCommand word => "unknown command '" ++ word ++ "'"
  | unknownFlag word => "unknown flag '" ++ word ++ "'"
  | missingValue flag => "flag '" ++ flag.name ++ "' needs a value"
  | unexpectedValue flag => "flag '" ++ flag.name ++ "' takes no value"
  | repeatedFlag flag => "flag '" ++ flag.name ++ "' is given twice"
  | badNumber flag value => "flag '" ++ flag.name ++ "' needs a number, not '" ++ value ++ "'"
  | missingPath => "a path is needed"
  | emptyPath => "a path is empty"
  | surplusWord word => "nothing is known to do with '" ++ word ++ "'"

/-! ## Telling flags from other words -/

/-- The form of a word. -/
inductive Word where
  /-- Two dashes: all words behind it are literal. -/
  | divider
  /-- Two dashes and a name, and a value behind an equals sign if there is one. -/
  | long (name : String) (value : Option String)
  /-- One dash and at least one letter. -/
  | letters (letters : List Char)
  /-- Any other word, a single dash among them. -/
  | plain (text : String)
  deriving DecidableEq, Repr

/-- The form that a word has. -/
def Word.ofString (word : String) : Word :=
  match word.toList with
  | ['-', '-'] => divider
  | '-' :: '-' :: rest =>
    match rest.span (· != '=') with
    | (name, []) => long (String.ofList name) none
    | (name, _ :: value) => long (String.ofList name) (some (String.ofList value))
  | '-' :: letter :: rest => letters (letter :: rest)
  | _ => plain word

/-- A flag that was given, with its value if it takes one. -/
structure Given where
  flag : Flag
  value : Option String
  deriving DecidableEq, Repr

/-- Read the flag with a long name. A flag that takes a value and has none yet
comes second. -/
def readLong (accepts : Flag → Bool) (name : String) (value : Option String) :
    Except UsageError (List Given × Option Flag) :=
  match (Flag.ofName? name).filter accepts with
  | none => .error (.unknownFlag name)
  | some flag =>
    match flag.takesValue, value with
    | true, some value => .ok ([⟨flag, some value⟩], none)
    | true, none => .ok ([], some flag)
    | false, some _ => .error (.unexpectedValue flag)
    | false, none => .ok ([⟨flag, none⟩], none)

/-- Read the flags that letters stand for. The letters behind a flag that takes a
value are its value, without an equals sign in front of them; such a flag at the
end comes second. -/
def readLetters (accepts : Flag → Bool) :
    List Char → Except UsageError (List Given × Option Flag)
  | [] => .ok ([], none)
  | letter :: rest =>
    match (Flag.ofLetter? letter).filter accepts with
    | none => .error (.unknownFlag (String.singleton letter))
    | some flag =>
      if flag.takesValue then
        match rest with
        | [] => .ok ([], some flag)
        | '=' :: value => .ok ([⟨flag, some (String.ofList value)⟩], none)
        | value => .ok ([⟨flag, some (String.ofList value)⟩], none)
      else
        match readLetters accepts rest with
        | .error e => .error e
        | .ok (given, waiting) => .ok (⟨flag, none⟩ :: given, waiting)

/-- Read the flags of a word; a word that is no flag has none. -/
def readFlags (accepts : Flag → Bool) : Word → Except UsageError (List Given × Option Flag)
  | .long name value => readLong accepts name value
  | .letters letters => readLetters accepts letters
  | .divider => .ok ([], none)
  | .plain _ => .ok ([], none)

/-- What the words of a command line are. -/
structure Reading where
  given : List Given
  /-- The words before the double dash that are no flags. -/
  words : List String
  /-- The words behind the double dash. -/
  literal : List String
  deriving DecidableEq, Repr

/-- Put flags in front of a reading. -/
def Reading.give (given : List Given) (reading : Reading) : Reading :=
  { reading with given := given ++ reading.given }

/-- Put a word in front of a reading. -/
def Reading.addWord (word : String) (reading : Reading) : Reading :=
  { reading with words := word :: reading.words }

/-- Tell flags from other words. The value of a flag may be the next word, which
must not look like a flag. -/
def readWords (accepts : Flag → Bool) : List String → Except UsageError Reading
  | [] => .ok ⟨[], [], []⟩
  | word :: rest =>
    match Word.ofString word with
    | .divider => .ok ⟨[], [], rest⟩
    | .plain text => (readWords accepts rest).map (Reading.addWord text)
    | form =>
      match readFlags accepts form, rest with
      | .error e, _ => .error e
      | .ok (given, none), rest => (readWords accepts rest).map (Reading.give given)
      | .ok (_, some flag), [] => .error (.missingValue flag)
      | .ok (given, some flag), next :: rest =>
        match Word.ofString next with
        | .plain value =>
          (readWords accepts rest).map (Reading.give (given ++ [⟨flag, some value⟩]))
        | _ => .error (.missingValue flag)

/-- Find the name of a command. The flags before it come first, and the words
behind it last. -/
def readVerb : List String → Except UsageError (List Given × Verb × List String)
  | [] => .error .missingCommand
  | word :: rest =>
    match Verb.ofName? word, Word.ofString word with
    | some verb, _ => .ok ([], verb, rest)
    | none, .plain _ => .error (.unknownCommand word)
    | none, .divider => .error (.unknownCommand word)
    | none, form => do
      let (given, _) ← readFlags Flag.isGlobal form
      let (more, verb, rest) ← readVerb rest
      return (given ++ more, verb, rest)

/-! ## Making commands -/

/-- The given flag of a kind; it may be given once. -/
def once (given : List Given) (flag : Flag) : Except UsageError (Option Given) :=
  match given.filter fun entry => entry.flag = flag with
  | [] => .ok none
  | [entry] => .ok (some entry)
  | _ => .error (.repeatedFlag flag)

/-- What the numbers of flags lie below. -/
def numberBound : Nat := UInt64.size

/-- The number given with a flag, or a default. -/
def numberOf (given : List Given) (flag : Flag) (default : Nat) : Except UsageError Nat := do
  match (← once given flag).bind (·.value) with
  | none => return default
  | some text =>
    match (Text.unsigned? 10 text.toList).filter (· < numberBound) with
    | some n => return n
    | none => .error (.badNumber flag text)

/-- A path, which must not be empty. -/
def pathOf (text : String) : Except UsageError String :=
  if text.isEmpty then .error .emptyPath else .ok text

/-- The path given with a flag. -/
def pathOf? (given : List Given) (flag : Flag) : Except UsageError (Option String) := do
  match (← once given flag).bind (·.value) with
  | none => return none
  | some text => return some (← pathOf text)

/-- The only word. -/
def onlyPath : List String → Except UsageError String
  | [] => .error .missingPath
  | [word] => pathOf word
  | _ :: word :: _ => .error (.surplusWord word)

/-- Paths, of which there must be one at least. -/
def somePaths (words : List String) : Except UsageError (List String) :=
  if words.isEmpty then .error .missingPath else words.mapM pathOf

/-- The command that a reading asks for. For `run`, literal words are texts for
the entry function; for the others they are words like any. -/
def commandOf (reading : Reading) : Verb → Except UsageError Command
  | .run => do
    let image ← onlyPath reading.words
    let listing ← once reading.given .disassemble
    let stack ← numberOf reading.given .stackLimit Limits.standard.stack
    let frames ← numberOf reading.given .frameLimit Limits.standard.frames
    return .run image ⟨listing.isSome, ⟨stack, frames⟩, reading.literal⟩
  | .disassemble => do
    return .disassemble (← onlyPath (reading.words ++ reading.literal))
  | .info => do
    return .info (← onlyPath (reading.words ++ reading.literal))
  | .build => do
    let fixture ← onlyPath (reading.words ++ reading.literal)
    let output ← pathOf? reading.given .output
    return .build fixture output
  | .check => do
    return .check (← somePaths (reading.words ++ reading.literal))

/-- What the words of a command line ask for. -/
def parse (words : List String) : Except UsageError Invocation := do
  let (before, verb, rest) ← readVerb words
  let reading ← readWords (Flag.goesWith verb) rest
  let command ← commandOf reading verb
  let isVerbose := (before ++ reading.given).any fun entry => entry.flag = .verbose
  return ⟨isVerbose, command⟩

end TypedStack.CommandLine
