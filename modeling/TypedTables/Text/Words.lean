import TypedTables.Text.Alphanumeric
import TypedTables.Text.LetterCase

/-!
The words of an identifier and the two spellings built from them: `pascalCase` (`UserEvents`) and
`camelCase` (`userEvents`).

Characters that are neither letters nor numerals separate words. Inside a run of letters and
numerals a word ends before an upper-case letter that follows a lower-case one (`user|Id`), and
before the last letter of an upper-case run that a lower-case letter follows (`XML|Http`). The case
that counts is that of the last cased letter of the word; numerals leave it as it is.
-/

namespace TypedTables.Text

/-- The last cased letter of a word so far, if it has one. -/
inductive LastCase
  | none
  | lower
  | upper
  deriving DecidableEq, Repr

def LastCase.after (mode : LastCase) (c : Char) : LastCase :=
  if isLowercase c then .lower else if isUppercase c then .upper else mode

/-- The words of one run of letters and numerals: `word` holds the characters of the word that is
being read, last one first, and `done` the words before it, last one first. -/
def runWords (mode : LastCase) (word : List Char) (done : List (List Char)) :
    List Char → List (List Char)
  | [] => done.reverse
  | [c] => ((c :: word).reverse :: done).reverse
  | c :: next :: rest =>
    if mode.after c = .lower && isUppercase next then
      runWords .none [] ((c :: word).reverse :: done) (next :: rest)
    else if mode = .upper && isUppercase c && isLowercase next then
      runWords .none [c] (word.reverse :: done) (next :: rest)
    else
      runWords (mode.after c) (c :: word) done (next :: rest)

/-- The maximal runs of letters and numerals. -/
def alphanumericRuns (run : List Char) (done : List (List Char)) : List Char → List (List Char)
  | [] => (run.reverse :: done).reverse
  | c :: rest =>
    if isAlphanumeric c then alphanumericRuns (c :: run) done rest
    else alphanumericRuns [] (run.reverse :: done) rest

def words (ident : List Char) : List (List Char) :=
  (alphanumericRuns [] [] ident).flatMap (runWords .none [] [])

/-- Lower-case form of a word; a sigma that ends it takes its final form. -/
def lowerWord (word : List Char) : List Char :=
  match word.reverse with
  | 'Σ' :: rest => rest.reverse.flatMap toLowercase ++ ['ς']
  | _ => word.flatMap toLowercase

def capitalizeWord : List Char → List Char
  | [] => []
  | c :: rest => toUppercase c ++ lowerWord rest

/-- `user_events` as `UserEvents`. A leading digit gets an underscore before it, so that the result
can be declared as a name. -/
def pascalCase (ident : String) : String :=
  let joined := (words ident.toList).flatMap capitalizeWord
  match joined with
  | c :: _ => String.ofList (if c.isDigit then '_' :: joined else joined)
  | [] => ""

/-- `user_id` as `userId`. -/
def camelCase (ident : String) : String :=
  match words ident.toList with
  | [] => ""
  | first :: rest => String.ofList (lowerWord first ++ rest.flatMap capitalizeWord)

end TypedTables.Text
