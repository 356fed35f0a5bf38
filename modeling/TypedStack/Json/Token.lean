import TypedStack.Json.Basic

/-!
# JSON tokens

The lexer takes a document one character at a time. Its state is the list of
tokens found and what it is in the middle of; a number or a word ends only with
the next character that cannot belong to it.
-/

namespace TypedStack

namespace Json

/-- The parts of JSON text. -/
inductive Token where
  | openBrace
  | closeBrace
  | openBracket
  | closeBracket
  | comma
  | colon
  | null
  | bool (b : Bool)
  | number (literal : Literal)
  | string (text : String)
  deriving DecidableEq, Repr

/-- What the lexer is in the middle of. Characters collected so far stand in
reverse. -/
inductive Lexer.Mode where
  /-- Between tokens. -/
  | idle
  /-- In a number or a word. -/
  | bare (done : List Char)
  /-- In a string. -/
  | string (done : List Char)
  /-- Behind a backslash in a string. -/
  | escape (done : List Char)
  /-- In the digits of a numeric escape. A first half of a surrogate pair that
  came before it stands in `high`. -/
  | unicode (done : List Char) (high : Option Nat) (value : Nat) (digits : Nat)
  /-- Behind the first half of a surrogate pair. -/
  | pair (done : List Char) (high : Nat)
  /-- Behind that and a backslash. -/
  | pairEscape (done : List Char) (high : Nat)
  deriving DecidableEq, Repr

/-- The tokens found, the last one first, and the mode. -/
structure Lexer where
  tokens : List Token
  mode : Lexer.Mode
  deriving DecidableEq, Repr

namespace Lexer

/-- The lexer before the first character. -/
def start : Lexer :=
  ⟨[], .idle⟩

/-- The characters that may stand between tokens. -/
def isSpace (c : Char) : Bool :=
  c = ' ' || c = '\t' || c = '\n' || c = '\r'

/-- The characters of numbers and words. -/
def isBare (c : Char) : Bool :=
  c.isDigit || c.isAlpha || c = '+' || c = '-' || c = '.'

/-- The value of decimal digits. -/
def digits (text : List Char) : List Nat :=
  text.map fun c => c.toNat - '0'.toNat

/-- A whole part: a zero alone, or digits that do not start with one. -/
def whole? : List Char → Option (List Nat)
  | [] => none
  | ['0'] => some [0]
  | '0' :: _ => none
  | text => if text.all Char.isDigit then some (digits text) else none

/-- A fraction with its point, or nothing. -/
def fraction? : List Char → Option (Option (List Nat))
  | [] => some none
  | '.' :: text =>
    if !text.isEmpty && text.all Char.isDigit then some (some (digits text)) else none
  | _ => none

/-- Digits of an exponent. -/
def exponentDigits? (text : List Char) : Option Nat :=
  if !text.isEmpty && text.all Char.isDigit then
    some ((digits text).foldl (fun n d => 10 * n + d) 0)
  else none

/-- An exponent with its mark, or nothing. -/
def exponent? : List Char → Option (Option Int)
  | [] => some none
  | _ :: '+' :: text => (exponentDigits? text).map fun n => some n
  | _ :: '-' :: text => (exponentDigits? text).map fun n => some (-n)
  | _ :: text => (exponentDigits? text).map fun n => some n

/-- Whether a character marks an exponent. -/
def isExponentMark (c : Char) : Bool :=
  c = 'e' || c = 'E'

/-- A number without its sign. -/
def unsignedLiteral? (negative : Bool) (text : List Char) : Option Literal := do
  let mantissa := text.takeWhile (!isExponentMark ·)
  let whole ← whole? (mantissa.takeWhile (· != '.'))
  let fraction ← fraction? (mantissa.dropWhile (· != '.'))
  let exponent ← exponent? (text.dropWhile (!isExponentMark ·))
  return { negative, whole, fraction, exponent }

/-- A number. -/
def literal? : List Char → Option Literal
  | '-' :: text => unsignedLiteral? true text
  | text => unsignedLiteral? false text

/-- The token that a run of bare characters is. -/
def bareToken? (text : List Char) : Option Token :=
  if text = "null".toList then some .null
  else if text = "true".toList then some (.bool true)
  else if text = "false".toList then some (.bool false)
  else (literal? text).map .number

/-- Take a character between tokens. -/
def idleStep (tokens : List Token) (c : Char) : Option Lexer :=
  if isSpace c then some ⟨tokens, .idle⟩
  else if c = '\x7b' then some ⟨.openBrace :: tokens, .idle⟩
  else if c = '\x7d' then some ⟨.closeBrace :: tokens, .idle⟩
  else if c = '[' then some ⟨.openBracket :: tokens, .idle⟩
  else if c = ']' then some ⟨.closeBracket :: tokens, .idle⟩
  else if c = ',' then some ⟨.comma :: tokens, .idle⟩
  else if c = ':' then some ⟨.colon :: tokens, .idle⟩
  else if c = '"' then some ⟨tokens, .string []⟩
  else if isBare c then some ⟨tokens, .bare [c]⟩
  else none

/-- The character that a letter behind a backslash stands for. -/
def simpleEscape? (c : Char) : Option Char :=
  if c = '"' ∨ c = '\\' ∨ c = '/' then some c
  else if c = 'b' then some (Char.ofNat 0x08)
  else if c = 'f' then some (Char.ofNat 0x0C)
  else if c = 'n' then some '\n'
  else if c = 'r' then some '\r'
  else if c = 't' then some '\t'
  else none

/-- The mode behind the last digit of a numeric escape of the given value. Halves
of surrogate pairs must come in pairs. -/
def closeUnicode (done : List Char) (high : Option Nat) (value : Nat) : Option Mode :=
  match high with
  | none =>
    if 0xD800 ≤ value ∧ value < 0xDC00 then some (.pair done value)
    else if 0xDC00 ≤ value ∧ value < 0xE000 then none
    else some (.string (Char.ofNat value :: done))
  | some high =>
    if 0xDC00 ≤ value ∧ value < 0xE000 then
      some (.string (Char.ofNat (0x10000 + (high - 0xD800) * 0x400 + (value - 0xDC00)) :: done))
    else none

/-- Take a character. -/
def step (lexer : Lexer) (c : Char) : Option Lexer :=
  match lexer.mode with
  | .idle => idleStep lexer.tokens c
  | .bare done =>
    if isBare c then some { lexer with mode := .bare (c :: done) }
    else
      match bareToken? done.reverse with
      | none => none
      | some token => idleStep (token :: lexer.tokens) c
  | .string done =>
    if c = '"' then some ⟨.string (String.ofList done.reverse) :: lexer.tokens, .idle⟩
    else if c = '\\' then some { lexer with mode := .escape done }
    else if c.toNat < 0x20 then none
    else some { lexer with mode := .string (c :: done) }
  | .escape done =>
    if c = 'u' then some { lexer with mode := .unicode done none 0 0 }
    else (simpleEscape? c).map fun d => { lexer with mode := .string (d :: done) }
  | .unicode done high value count =>
    match Text.digitValue? c with
    | none => none
    | some digit =>
      let value := 16 * value + digit
      if count = 3 then (closeUnicode done high value).map fun mode => { lexer with mode }
      else some { lexer with mode := .unicode done high value (count + 1) }
  | .pair done high =>
    if c = '\\' then some { lexer with mode := .pairEscape done high } else none
  | .pairEscape done high =>
    if c = 'u' then some { lexer with mode := .unicode done (some high) 0 0 } else none

/-- The tokens in order, if nothing is unfinished. -/
def finish (lexer : Lexer) : Option (List Token) :=
  match lexer.mode with
  | .idle => some lexer.tokens.reverse
  | .bare done => (bareToken? done.reverse).map fun token => (token :: lexer.tokens).reverse
  | _ => none

end Lexer

/-- The tokens of a text. -/
def tokens? (text : List Char) : Option (List Token) :=
  (text.foldlM Lexer.step Lexer.start).bind Lexer.finish

end Json

end TypedStack
