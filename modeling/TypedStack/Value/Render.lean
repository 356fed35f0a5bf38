import TypedStack.Value
import TypedStack.Text.Digits
import TypedStack.Floating.Shortest

/-!
# Text of values

A value is shown as its kind and its number. Floating-point numbers are shown by
their shortest digits in positional notation; a sixteen bit number is shown by
the digits of the thirty-two bit number equal to it.
-/

namespace TypedStack

/-- The text of a floating-point number: shortest digits, ties upward, never an
exponent. -/
def FloatBits.render {format : FloatFormat} (bits : FloatBits format) : String :=
  match bits.decode with
  | .nan => "NaN"
  | .infinite negative => if negative then "-inf" else "inf"
  | .finite negative mantissa exponent =>
    let digits :=
      if mantissa = 0 then ['0']
      else (Floating.shortest format .up mantissa exponent).positional
    String.ofList (if negative then '-' :: digits else digits)

/-- The place in hexadecimal, and the generation unless it is the first. -/
def Address.render (address : Address) : String :=
  "@" ++ Text.hex 1 address.index.toNat ++
    if address.generation = 0 then "" else "'" ++ toString address.generation.toNat

/-- The element kind and the address. -/
def Reference.render (reference : Reference) : String :=
  "ref<" ++ reference.element.name ++ "> " ++ reference.address.render

namespace Value

/-- The text of a value. -/
def render (value : Value) : String :=
  match value with
  | integer kind bits => kind.name ++ " " ++ toString (intOfBits kind bits)
  | float .binary16 bits =>
    FloatFormat.binary16.name ++ " " ++ bits.singleOfHalf.render
  | float format bits => format.name ++ " " ++ bits.render
  | bool b => Kind.bool.name ++ " " ++ (if b then "true" else "false")
  | ref reference => reference.render

/-- Values in brackets, separated by commas. -/
def renderList (values : List Value) : String :=
  "[" ++ String.intercalate ", " (values.map render) ++ "]"

end Value

end TypedStack
