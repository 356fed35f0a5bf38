import TypedStack.Text.Blank

/-!
# Words and lines

Cutting text into words at blanks and into lines at line feeds. Both are read
off one function, `pieces`, which cuts a text at every character of a class.
-/

namespace TypedStack.Text

/-- Put a character in front of the first piece. -/
def attach (c : Char) : List (List Char) → List (List Char)
  | [] => [[c]]
  | piece :: others => (c :: piece) :: others

/-- Cut a text at every character of the class `cut`, which is left out. A text
with `k` such characters has `k + 1` pieces, some of them possibly empty. -/
def pieces (cut : Char → Bool) (text : List Char) : List (List Char) :=
  text.foldr (fun c acc => if cut c then [] :: acc else attach c acc) [[]]

@[simp] theorem pieces_nil (cut : Char → Bool) : pieces cut [] = [[]] := rfl

@[simp] theorem pieces_cons (cut : Char → Bool) (c : Char) (text : List Char) :
    pieces cut (c :: text) =
      if cut c then [] :: pieces cut text else attach c (pieces cut text) := rfl

/-- The maximal runs of non-blank characters, in order. -/
def words (text : List Char) : List (List Char) :=
  (pieces isBlank text).filter (!·.isEmpty)

/-- A text without the blanks at its start and at its end. -/
def trim (text : List Char) : List Char :=
  ((text.dropWhile isBlank).reverse.dropWhile isBlank).reverse

/-- The text before the first occurrence of `mark`, or all of it. -/
def before (mark : Char) (text : List Char) : List Char :=
  text.takeWhile (· != mark)

/-- A line without the carriage return at its end, if it has one. -/
def dropReturn (line : List Char) : List Char :=
  if line.getLast? = some '\r' then line.dropLast else line

/-- Read pieces between line feeds as lines: every piece but the last one was
closed by a line feed, and the last one is a line only if it holds a character. -/
def closeLines : List (List Char) → List (List Char)
  | [] => []
  | [last] => if last.isEmpty then [] else [last]
  | line :: next :: rest => dropReturn line :: closeLines (next :: rest)

/-- The lines of a text. A carriage return directly before a line feed belongs
to the line end, and a final line feed starts no further line. -/
def lines (text : String) : List String :=
  (closeLines (pieces (· == '\n') text.toList)).map String.ofList

end TypedStack.Text
