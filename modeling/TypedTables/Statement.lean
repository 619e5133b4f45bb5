import TypedTables.Token.Lexeme

/-!
Statements: a text is cut at the semicolons that stand outside quotes and comments, byte by byte and
before anything is read as a token, and each piece is sorted into those that declare a table or may
do so, and the kinds of view that declare none.
-/

namespace TypedTables

/-- A piece of a text without the blanks around it. `start` is where it begins in the text; there,
unlike in tokens, each byte before it on its line takes one column. -/
structure Statement where
  text : String
  start : Location
  deriving DecidableEq, Repr

namespace Statement

/-- Bytes of a quoted run behind its opening quote, the closing quote included. A backslash takes
the next byte with it, which may be the first of several that make one character. -/
def quotedBytes (quote : UInt8) (bytes : List UInt8) : Nat :=
  go 0 bytes
where
  go (n : Nat) : List UInt8 → Nat
    | [] => n
    | [_] => n + 1
    | b :: d :: rest =>
      if b = '\\'.toUInt8 then go (n + 2) rest
      else if b = quote then
        if d = quote then go (n + 2) rest else n + 1
      else go (n + 1) (d :: rest)

/-- Bytes up to the end of the line. -/
def lineBytes (bytes : List UInt8) : Nat := (bytes.takeWhile (· != '\n'.toUInt8)).length

/-- Bytes of a block comment behind its opening, the closing included. -/
def blockBytes (bytes : List UInt8) : Nat :=
  go 0 bytes
where
  go (n : Nat) : List UInt8 → Nat
    | [] => n
    | [_] => n + 1
    | b :: d :: rest =>
      if b = '*'.toUInt8 && d = '/'.toUInt8 then n + 2 else go (n + 1) (d :: rest)

/-- Bytes behind `b` that belong to the same quoted run or comment. -/
def runBytes (b : UInt8) (bytes : List UInt8) : Nat :=
  if b = singleQuote.toUInt8 || b = doubleQuote.toUInt8 || b = backQuote.toUInt8 then
    quotedBytes b bytes
  else if b = '#'.toUInt8 then lineBytes bytes
  else
    match bytes with
    | d :: rest =>
      if b = '-'.toUInt8 && d = '-'.toUInt8 then lineBytes bytes
      else if b = '/'.toUInt8 && d = '*'.toUInt8 then blockBytes rest + 1
      else 0
    | [] => 0

/-- Offsets of the separating semicolons among bytes that start at `offset`; `done` holds those
before, last one first. -/
def cuts (offset : Nat) (done : List Nat) : List UInt8 → List Nat
  | [] => done.reverse
  | b :: rest =>
    if b = ';'.toUInt8 then cuts (offset + 1) (offset :: done) rest
    else
      let n := runBytes b rest
      cuts (offset + n + 1) done (rest.drop n)
  termination_by bytes => bytes.length
  decreasing_by all_goals simp only [List.length_drop, List.length_cons]; omega

/-- The pieces of a text from `first` on, cut at the bytes with the given offsets. -/
def between (source : String) (first : Nat) : List Nat → List (List Char)
  | [] => [(slice source first source.utf8ByteSize).toList]
  | stop :: stops => (slice source first stop).toList :: between source (stop + 1) stops

/-- The statement in a piece that begins at `here`, if there is more than blanks in it. -/
def ofPiece? (here : Location) (piece : List Char) : Option Statement :=
  let lead := piece.takeWhile Text.isBlank
  match piece.drop lead.length with
  | [] => none
  | c :: rest => some ⟨String.ofList (Text.trimEnd (c :: rest)), here.advanceBytes lead⟩

def ofPieces (here : Location) (done : List Statement) : List (List Char) → List Statement
  | [] => done.reverse
  | piece :: rest =>
    let next := (here.advanceBytes piece).advanceBytes [';']
    match ofPiece? here piece with
    | some statement => ofPieces next (statement :: done) rest
    | none => ofPieces next done rest

/-- All statements of a text in order, whatever they are. -/
def split (source : String) : List Statement :=
  ofPieces .start [] (between source 0 (cuts 0 [] source.toByteArray.data.toList))

/-- What is done with a statement before it is parsed. -/
inductive Class
  | keep
  | plainView
  | routedView
  deriving DecidableEq, Repr

/-- Whether a `TO` stands before the query of a materialized view, outside parentheses. -/
def isRouted (depth : Nat) : List Token → Bool
  | [] => false
  | t :: rest =>
    if depth = 0 && t.isKeyword .as then false
    else if depth = 0 && t.isKeyword .to then true
    else isRouted (t.nest depth) rest

/-- The tokens behind `OR REPLACE`, or behind a lone `OR`. -/
def skipOrReplace : List Token → List Token
  | t :: rest =>
    if t.isKeyword .or then
      match rest with
      | u :: rest' => if u.isKeyword .replace then rest' else rest
      | [] => []
    else t :: rest
  | [] => []

/-- A plain view has no columns of its own, and a view with `TO` writes into a table that is
declared elsewhere; every other statement is kept. -/
def classify (tokens : List Token) : Class :=
  match tokens with
  | t :: rest =>
    if t.isKeyword .create then
      match skipOrReplace rest with
      | u :: rest' =>
        if u.isKeyword .view then .plainView
        else if u.isKeyword .materialized && isRouted 0 rest' then .routedView
        else .keep
      | [] => .keep
    else .keep
  | [] => .keep

end Statement

/-- The statements of a text that are kept, each with a semicolon at its end. -/
def splitStatements (source : String) : List String :=
  ((Statement.split source).filter fun s => Statement.classify (tokenize s.text) == .keep).map
    fun s => s.text ++ ";"

end TypedTables
