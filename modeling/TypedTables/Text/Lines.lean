/-!
Texts cut at a separator, and the lines of a text.
-/

namespace TypedTables.Text

/-- `cs` cut at each occurrence of `sep`; always one piece more than there are occurrences. -/
def cut (sep : Char) (cs : List Char) : List (List Char) :=
  go [] [] cs
where
  go (piece : List Char) (done : List (List Char)) : List Char → List (List Char)
    | [] => (piece.reverse :: done).reverse
    | c :: rest => if c = sep then go [] (piece.reverse :: done) rest else go (c :: piece) done rest

def dropLastReturn (line : List Char) : List Char :=
  match line.reverse with
  | '\r' :: rest => rest.reverse
  | _ => line

/-- The lines of a text. A line ends in a line feed or a carriage return and a line feed; what
follows the last line feed is a line of its own if it is not empty. -/
def lines (cs : List Char) : List (List Char) :=
  let pieces := cut '\n' cs
  pieces.dropLast.map dropLastReturn ++
    match pieces.getLast? with
    | some (c :: rest) => [c :: rest]
    | _ => []

end TypedTables.Text
