import TypedStack.Text.Digits

/-!
# JSON documents

Documents as trees. Objects keep all their members in the order of the text,
repeated ones included, and numbers keep their digits, so that whoever reads a
document decides what to make of them. `render` writes a tree compactly.
-/

namespace TypedStack

/-- A number as it is written: the digits of its whole part, those behind the
point if there is one, and the power of ten behind an exponent mark if there is
one. -/
structure Json.Literal where
  negative : Bool
  whole : List Nat
  fraction : Option (List Nat)
  exponent : Option Int
  deriving DecidableEq, Repr

/-- A JSON document. -/
inductive Json where
  | null
  | bool (b : Bool)
  | number (literal : Json.Literal)
  | string (text : String)
  | array (items : List Json)
  | object (members : List (String × Json))

namespace Json

/-- The character of a digit. -/
def digitChar (digit : Nat) : Char :=
  Char.ofNat ('0'.toNat + digit)

/-- An exponent behind its mark, always with a sign. -/
def renderExponent (n : Int) : List Char :=
  'e' :: (if n < 0 then '-' else '+') :: Nat.toDigits 10 n.natAbs

/-- The text of a number. -/
def Literal.render (literal : Literal) : List Char :=
  (if literal.negative then ['-'] else []) ++ literal.whole.map digitChar ++
    (match literal.fraction with
      | none => []
      | some digits => '.' :: digits.map digitChar) ++
    match literal.exponent with
    | none => []
    | some n => renderExponent n

/-- The literal of an integer. -/
def Literal.ofInt (n : Int) : Literal where
  negative := n < 0
  whole := (Nat.toDigits 10 n.natAbs).map fun c => c.toNat - '0'.toNat
  fraction := none
  exponent := none

/-- A character within a string. Quotes, backslashes and control characters below
the blank are escaped, the latter by a letter where they have one. -/
def escapeChar (c : Char) : List Char :=
  if c = '"' then ['\\', '"']
  else if c = '\\' then ['\\', '\\']
  else if c = '\n' then ['\\', 'n']
  else if c = '\r' then ['\\', 'r']
  else if c = '\t' then ['\\', 't']
  else if c.toNat = 0x08 then ['\\', 'b']
  else if c.toNat = 0x0C then ['\\', 'f']
  else if c.toNat < 0x20 then '\\' :: 'u' :: (Text.hex 4 c.toNat).toList
  else [c]

/-- A string with its quotes. -/
def renderString (text : String) : List Char :=
  '"' :: (text.toList.flatMap escapeChar ++ ['"'])

/-- Texts with a comma between each two. -/
def commaSeparated : List (List Char) → List Char
  | [] => []
  | [item] => item
  | item :: rest => item ++ ',' :: commaSeparated rest

mutual

/-- The text of a document, without any blanks. -/
def render : Json → List Char
  | null => "null".toList
  | bool b => (if b then "true" else "false").toList
  | number literal => literal.render
  | string text => renderString text
  | array items => '[' :: (commaSeparated (renderItems items) ++ [']'])
  | object members => '\x7b' :: (commaSeparated (renderMembers members) ++ ['\x7d'])

/-- The texts of the items of an array. -/
def renderItems : List Json → List (List Char)
  | [] => []
  | item :: rest => render item :: renderItems rest

/-- The texts of the members of an object. -/
def renderMembers : List (String × Json) → List (List Char)
  | [] => []
  | (name, value) :: rest => (renderString name ++ ':' :: render value) :: renderMembers rest

end

end Json

end TypedStack
