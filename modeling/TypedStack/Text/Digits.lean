/-!
# Digits

Rendering numbers in hexadecimal with a least width, and reading unsigned
numerals.
-/

namespace TypedStack.Text

/-- Put `fill` in front of a text until it has at least `width` characters. -/
def padLeft (fill : Char) (width : Nat) (text : List Char) : List Char :=
  List.replicate (width - text.length) fill ++ text

/-- Put `fill` behind a text until it has at least `width` characters. -/
def padRight (fill : Char) (width : Nat) (text : List Char) : List Char :=
  text ++ List.replicate (width - text.length) fill

/-- At least `width` lowercase hexadecimal digits. -/
def hex (width n : Nat) : String :=
  String.ofList (padLeft '0' width (Nat.toDigits 16 n))

/-- Two lowercase hexadecimal digits for each byte, nothing between them. -/
def hexBytes (bytes : List UInt8) : String :=
  String.join (bytes.map fun byte => hex 2 byte.toNat)

/-- A code offset as messages and listings show it: `0x` and at least four
hexadecimal digits. -/
def offset (n : Nat) : String :=
  "0x" ++ hex 4 n

/-- The value of a digit in bases up to sixteen, in either letter case. -/
def digitValue? (c : Char) : Option Nat :=
  if '0' ≤ c ∧ c ≤ '9' then some (c.toNat - '0'.toNat)
  else if 'a' ≤ c ∧ c ≤ 'f' then some (c.toNat - 'a'.toNat + 10)
  else if 'A' ≤ c ∧ c ≤ 'F' then some (c.toNat - 'A'.toNat + 10)
  else none

/-- The digit value of `c` if it is a digit of the given base. -/
def digitIn? (base : Nat) (c : Char) : Option Nat :=
  (digitValue? c).filter (· < base)

/-- Read a run of digits that follow the value `acc`. -/
def digitsFrom? (base : Nat) (acc : Nat) : List Char → Option Nat
  | [] => some acc
  | c :: rest =>
    match digitIn? base c with
    | none => none
    | some d => digitsFrom? base (base * acc + d) rest

/-- One optional plus sign and at least one digit of the base. -/
def unsigned? (base : Nat) : List Char → Option Nat
  | '+' :: c :: rest => digitsFrom? base 0 (c :: rest)
  | ['+'] => none
  | [] => none
  | c :: rest => digitsFrom? base 0 (c :: rest)

/-- A numeral of assembly text: decimal, or hexadecimal after `0x`. -/
def numeral? : List Char → Option Nat
  | '0' :: 'x' :: digits => unsigned? 16 digits
  | digits => unsigned? 10 digits

end TypedStack.Text
