import TypedStack.Instruction.Encoding
import TypedStack.Text.Words
import TypedStack.Text.Digits

/-!
# Assembly text

One instruction a line: a mnemonic, for some instructions with a kind behind a
dot, and an operand. A semicolon starts a comment. `Instruction.render` writes
the same form.
-/

namespace TypedStack

/-- Why a line is no instruction. -/
inductive ParseError where
  | empty
  | unknownMnemonic (word : String)
  | missingOperand (mnemonic : String)
  | unexpectedOperand (word : String)
  | invalidOperand (word : String)
  | missingKind (mnemonic : String)
  | unknownKind (name : String)
  deriving DecidableEq, Repr

/-- The wording of a parse error. -/
def ParseError.message : ParseError → String
  | empty => "empty instruction"
  | unknownMnemonic word => "unknown mnemonic `" ++ word ++ "`"
  | missingOperand mnemonic => "`" ++ mnemonic ++ "` expects an operand"
  | unexpectedOperand word => "unexpected operand `" ++ word ++ "`"
  | invalidOperand word => "invalid operand `" ++ word ++ "`"
  | missingKind mnemonic => "`" ++ mnemonic ++ "` expects a `.<kind>` suffix"
  | unknownKind name => Kind.unknownMessage name

/-- A line, counted from one, and why it is no instruction. -/
structure AssembleError where
  line : Nat
  cause : ParseError
  deriving DecidableEq, Repr

/-- The wording of an assembly error. -/
def AssembleError.message (e : AssembleError) : String :=
  "line " ++ toString e.line ++ ": " ++ e.cause.message

namespace Instruction

/-- The text of a line before its comment. -/
def stripComment (line : String) : List Char :=
  Text.before ';' line.toList

/-- An operand that is a numeral of value at most `bound`. It is read as a number of
sixty-four bits first. -/
def parseNumber (bound : Nat) (word : String) : Except ParseError Nat :=
  match (Text.numeral? word.toList).filter (· < UInt64.size) with
  | some n => if n ≤ bound then .ok n else .error (.invalidOperand word)
  | none => .error (.invalidOperand word)

/-- The operand of an instruction that needs one. -/
def requireNumber (bound : Nat) (mnemonic : String) : Option String → Except ParseError Nat
  | none => .error (.missingOperand mnemonic)
  | some word => parseNumber bound word

/-- The slot operand of an instruction. -/
def requireSlot (mnemonic : String) (operand : Option String) : Except ParseError UInt16 :=
  (requireNumber 65535 mnemonic operand).map UInt16.ofNat

/-- The kind behind the dot of a mnemonic. -/
def requireKind (mnemonic : String) : Option String → Except ParseError Kind
  | none => .error (.missingKind mnemonic)
  | some name =>
    match Kind.ofName? name with
    | some kind => .ok kind
    | none => .error (.unknownKind name)

/-- The instruction, provided that no operand is given. -/
def withoutOperand (instruction : Instruction) : Option String → Except ParseError Instruction
  | none => .ok instruction
  | some word => .error (.unexpectedOperand word)

/-- Split the first word of a line at its first dot. The dot of `push.u8` is part
of the mnemonic. -/
def splitHead (head : List Char) : String × Option String :=
  let mnemonic := Text.before '.' head
  match head.drop mnemonic.length with
  | [] => (String.ofList head, none)
  | _ :: suffix =>
    if head = Opcode.pushU8.mnemonic.toList then (String.ofList head, none)
    else (String.ofList mnemonic, some (String.ofList suffix))

/-- The mnemonics that have a kind behind a dot. -/
def takesKind (mnemonic : String) : Bool :=
  mnemonic == "initlocal" || mnemonic == "cconv" || mnemonic == "uconv"

/-- The instruction with the given mnemonic, kind and operand. -/
def build (mnemonic : String) (suffix operand : Option String) :
    Except ParseError Instruction :=
  match mnemonic with
  | "nop" => withoutOperand nop operand
  | "push.u8" => (requireNumber 255 "push.u8" operand).map fun n => pushU8 (UInt8.ofNat n)
  | "loadarg" => (requireSlot "loadarg" operand).map loadArg
  | "poparg" => (requireSlot "poparg" operand).map popArg
  | "initlocal" =>
    match requireKind "initlocal" suffix with
    | .error e => .error e
    | .ok kind => (requireSlot "initlocal" operand).map (initLocal kind)
  | "poplocal" => (requireSlot "poplocal" operand).map popLocal
  | "pushlocal" => (requireSlot "pushlocal" operand).map pushLocal
  | "refslot" => (requireSlot "refslot" operand).map refSlot
  | "pusharray" => withoutOperand pushArray operand
  | "cconv" =>
    match requireKind "cconv" suffix with
    | .error e => .error e
    | .ok target => withoutOperand (checkedConvert target) operand
  | "uconv" =>
    match requireKind "uconv" suffix with
    | .error e => .error e
    | .ok target => withoutOperand (uncheckedConvert target) operand
  | "call" => (requireSlot "call" operand).map call
  | "ret" => withoutOperand ret operand
  | other => .error (.unknownMnemonic other)

/-- Read an instruction from the words of a line. A third word is refused before
the first two are looked at. -/
def ofWords : List (List Char) → Except ParseError Instruction
  | [] => .error .empty
  | _ :: _ :: extra :: _ => .error (.unexpectedOperand (String.ofList extra))
  | head :: operand =>
    match splitHead head with
    | (mnemonic, none) => build mnemonic none (operand.head?.map String.ofList)
    | (mnemonic, some suffix) =>
      if takesKind mnemonic then
        build mnemonic (some suffix) (operand.head?.map String.ofList)
      else .error (.unknownMnemonic (String.ofList head))

/-- Read an instruction from a line of assembly text. -/
def parse (line : String) : Except ParseError Instruction :=
  ofWords (Text.words (stripComment line))

/-- Whether a line holds nothing but blanks and a comment. -/
def isBlankLine (line : String) : Bool :=
  (Text.trim (stripComment line)).isEmpty

/-- The instructions of consecutive lines, the first of which has the given
number. Blank lines are skipped but counted. -/
def parseLines : Nat → List String → Except AssembleError (List Instruction)
  | _, [] => .ok []
  | number, line :: rest =>
    if isBlankLine line then parseLines (number + 1) rest
    else
      match parse line with
      | .error cause => .error ⟨number, cause⟩
      | .ok instruction => (parseLines (number + 1) rest).map (instruction :: ·)

/-- The code of assembly lines. -/
def assemble (lines : List String) : Except AssembleError Bytes :=
  (parseLines 1 lines).map encodeAll

/-- The code of an assembly text. -/
def assembleText (text : String) : Except AssembleError Bytes :=
  assemble (Text.lines text)

end Instruction

end TypedStack
