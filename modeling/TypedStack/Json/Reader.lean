import TypedStack.Json.Token

/-!
# Reading JSON documents

A document is built from its tokens one at a time. The arrays and objects that
are still open stand on a stack, and `Need` tells which tokens may come next.
-/

namespace TypedStack

namespace Json

/-- An array or object that is still open, its items in reverse. -/
inductive Open where
  | array (done : List Json)
  | object (done : List (String × Json)) (name : String)

/-- What may come next. -/
inductive Need where
  | value
  /-- A value, or the end of an array without items. -/
  | firstItem
  /-- A member name, or the end of an object without members. -/
  | firstName
  | name
  | colon
  | commaOrEnd
  /-- Nothing: the document is complete. -/
  | nothing (document : Json)

/-- The open arrays and objects, the innermost first, and what may come next. -/
structure Builder where
  opened : List Open
  need : Need

namespace Builder

/-- The builder before the first token. -/
def start : Builder :=
  ⟨[], .value⟩

/-- Put a complete value where it belongs. -/
def put (value : Json) : List Open → Builder
  | [] => ⟨[], .nothing value⟩
  | .array done :: rest => ⟨.array (value :: done) :: rest, .commaOrEnd⟩
  | .object done name :: rest => ⟨.object ((name, value) :: done) name :: rest, .commaOrEnd⟩

/-- Take a token where a value is due. -/
def takeValue (opened : List Open) : Token → Option Builder
  | .null => some (put .null opened)
  | .bool b => some (put (.bool b) opened)
  | .number literal => some (put (.number literal) opened)
  | .string text => some (put (.string text) opened)
  | .openBracket => some ⟨.array [] :: opened, .firstItem⟩
  | .openBrace => some ⟨.object [] "" :: opened, .firstName⟩
  | _ => none

/-- Take the name of a member. -/
def takeName : List Open → Token → Option Builder
  | .object done _ :: rest, .string name => some ⟨.object done name :: rest, .colon⟩
  | _, _ => none

/-- Close the innermost array or object. -/
def close : List Open → Token → Option Builder
  | .array done :: rest, .closeBracket => some (put (.array done.reverse) rest)
  | .object done _ :: rest, .closeBrace => some (put (.object done.reverse) rest)
  | _, _ => none

/-- Take a token. -/
def step (builder : Builder) (token : Token) : Option Builder :=
  match builder.need with
  | .value => takeValue builder.opened token
  | .firstItem =>
    if token = .closeBracket then close builder.opened token
    else takeValue builder.opened token
  | .firstName =>
    if token = .closeBrace then close builder.opened token else takeName builder.opened token
  | .name => takeName builder.opened token
  | .colon => if token = .colon then some { builder with need := .value } else none
  | .commaOrEnd =>
    if token = .comma then
      match builder.opened with
      | .array _ :: _ => some { builder with need := .value }
      | .object _ _ :: _ => some { builder with need := .name }
      | [] => none
    else close builder.opened token
  | .nothing _ => none

/-- The document, if it is complete. -/
def finish (builder : Builder) : Option Json :=
  match builder.need with
  | .nothing document => some document
  | _ => none

end Builder

/-- The document that a text is. -/
def parse? (text : String) : Option Json :=
  (tokens? text.toList).bind fun tokens =>
    (tokens.foldlM Builder.step Builder.start).bind Builder.finish

end Json

end TypedStack
