import TypedTables.Toml.Scalar
import TypedTables.Toml.Value

/-!
Reading TOML 1.0 documents.
-/

namespace TypedTables.Toml

/-- A reader consumes the start of a text, or fails. -/
abbrev Reader := StateT (List Char) Option

namespace Reader

variable {α : Type}

def fail : Reader α := fun _ => none

def peek? : Reader (Option Char) := fun cs => some (cs.head?, cs)

/-- Consumes a text if it is at hand. -/
def accept (text : List Char) : Reader Bool := fun cs =>
  if text.isPrefixOf cs then some (true, cs.drop text.length) else some (false, cs)

def expect (c : Char) : Reader Unit := do
  if !(← accept [c]) then fail

def takeWhile (p : Char → Bool) : Reader (List Char) := fun cs =>
  some (cs.takeWhile p, cs.dropWhile p)

end Reader

open Reader

def isSpace (c : Char) : Bool := c == ' ' || c == '\t'

def blanks : Reader Unit := discard (takeWhile isSpace)

/-- Characters that may stand as they are in comments and strings. -/
def isPrintable (c : Char) : Bool := c == '\t' || (0x20 ≤ c.toNat && c.toNat != 0x7F)

def lineBreak : Reader Bool := do
  if ← accept ['\n'] then return true
  accept ['\r', '\n']

def comment : Reader Unit := do
  if ← accept ['#'] then discard (takeWhile isPrintable)

/-- The rest of a line with nothing more on it than a comment. -/
def lineEnd : Reader Unit := do
  blanks
  comment
  if (← peek?).isSome && !(← lineBreak) then fail

/-- A text without the blanks, comments and line breaks at its start. -/
def dropGap (inComment : Bool) : List Char → List Char
  | '\n' :: rest => dropGap false rest
  | '\r' :: '\n' :: rest => dropGap false rest
  | c :: rest =>
    if inComment && isPrintable c then dropGap true rest
    else if !inComment && c == '#' then dropGap true rest
    else if !inComment && isSpace c then dropGap false rest
    else c :: rest
  | [] => []

def gap : Reader Unit := modify (dropGap false)

/-- The character with a code given in hexadecimal digits. -/
def codePoint? (digits : List Char) : Option Char :=
  let code := numberOf 16 digits
  if digits.all isHexDigit && (code < 0xD800 || (0xE000 ≤ code && code < 0x110000)) then
    some (Char.ofNat code)
  else none

/-- What the escape sequence behind a backslash stands for, and how many characters it has. -/
def escape? : List Char → Option (Char × Nat)
  | 'b' :: _ => some ('\x08', 1)
  | 't' :: _ => some ('\t', 1)
  | 'n' :: _ => some ('\n', 1)
  | 'f' :: _ => some ('\x0c', 1)
  | 'r' :: _ => some ('\r', 1)
  | '\x22' :: _ => some ('\x22', 1)
  | '\\' :: _ => some ('\\', 1)
  | 'u' :: rest => if 4 ≤ (rest.take 4).length then (codePoint? (rest.take 4)).map (·, 5) else none
  | 'U' :: rest => if 8 ≤ (rest.take 8).length then (codePoint? (rest.take 8)).map (·, 9) else none
  | _ => none

/-- The rest of a string in double quotes on one line; `done` is what was read, last one first. -/
def basicString (done : List Char) (cs : List Char) : Option (String × List Char) :=
  match cs with
  | '\x22' :: rest => some (String.ofList done.reverse, rest)
  | '\\' :: rest =>
    match escape? rest with
    | some (c, n) => basicString (c :: done) (rest.drop n)
    | none => none
  | c :: rest => if isPrintable c then basicString (c :: done) rest else none
  | [] => none
  termination_by cs.length
  decreasing_by all_goals simp only [List.length_drop, List.length_cons]; omega

/-- The rest of a string in single quotes on one line. -/
def literalString : Reader String := do
  let cs ← takeWhile fun c => isPrintable c && c != '\x27'
  expect '\x27'
  return String.ofList cs

/-- The end of a string over several lines: three quotes, with up to two more before them that
belong to the string. -/
def closing? (quote : Char) (cs : List Char) : Option (List Char × List Char) :=
  let n := ((cs.take 5).takeWhile (· == quote)).length
  if 3 ≤ n then some (List.replicate (n - 3) quote, cs.drop n) else none

/-- Whether nothing but blanks stands before the end of the line. -/
def isLineOver (cs : List Char) : Bool :=
  match cs.dropWhile isSpace with
  | '\n' :: _ => true
  | '\r' :: '\n' :: _ => true
  | _ => false

/-- The rest of a string over several lines. Only between double quotes do backslashes count; one
that ends a line folds the line, so that blanks and line breaks behind it are left out. -/
def longString (quote : Char) (folding : Bool) (done : List Char) (cs : List Char) :
    Option (String × List Char) :=
  match closing? quote cs with
  | some (quotes, rest) => some (String.ofList (quotes ++ done).reverse, rest)
  | none =>
    match cs with
    | '\r' :: '\n' :: rest => longString quote folding (if folding then done else '\n' :: done) rest
    | c :: rest =>
      if folding && (isSpace c || c == '\n') then longString quote true done rest
      else if c == '\\' && quote == '\x22' then
        if isLineOver rest then longString quote true done rest
        else match escape? rest with
          | some (c, n) => longString quote false (c :: done) (rest.drop n)
          | none => none
      else if isPrintable c || c == '\n' then longString quote false (c :: done) rest
      else none
    | [] => none
  termination_by cs.length
  decreasing_by all_goals simp only [List.length_drop, List.length_cons]; omega

/-- A string in one kind of quotes, on one line or over several. -/
def stringIn (quote : Char) : Reader String := do
  if ← accept [quote, quote, quote] then
    discard lineBreak
    longString quote false []
  else
    expect quote
    if quote == '\x22' then basicString [] else literalString

def isBareKey (c : Char) : Bool := c.isAlphanum || c == '_' || c == '-'

/-- One part of a key. -/
def keyPart : Reader String := do
  match ← peek? with
  | some '\x22' =>
    expect '\x22'
    basicString []
  | some '\x27' =>
    expect '\x27'
    literalString
  | _ =>
    match ← takeWhile isBareKey with
    | [] => fail
    | cs => return String.ofList cs

/-- The parts of a key, last one first. -/
def keyParts : (fuel : Nat) → (parts : List String) → Reader (List String)
  | 0, _ => fail
  | fuel + 1, parts => do
    blanks
    let parts := (← keyPart) :: parts
    blanks
    if ← accept ['.'] then keyParts fuel parts else return parts

/-- How deep values may be nested, and how many parts keys may have. -/
def maxNesting : Nat := 79

/-- A key as the parts before its last one, and that. -/
def dottedKey : Reader (List String × String) := do
  match ← keyParts maxNesting [] with
  | last :: before => return (before.reverse, last)
  | [] => fail

/-- The items of an array behind its opening bracket. -/
def arrayItems (inner : Reader Value) : (fuel : Nat) → (done : List Value) → Reader (List Value)
  | 0, _ => fail
  | fuel + 1, done => do
    gap
    if ← accept [']'] then return done.reverse
    let done := (← inner) :: done
    gap
    if ← accept [','] then arrayItems inner fuel done
    else
      expect ']'
      return done.reverse

/-- The fields of an inline table behind its opening brace. -/
def inlineFields (inner : Reader Value) : (fuel : Nat) → (items : Items) → Reader Items
  | 0, _ => fail
  | fuel + 1, items => do
    let (path, key) ← dottedKey
    expect '='
    blanks
    let value ← inner
    blanks
    match addValue path key value items with
    | none => fail
    | some items =>
      if ← accept [','] then inlineFields inner fuel items
      else
        expect '\x7d'
        return items

def isScalarPart (c : Char) : Bool :=
  c.isAlphanum || c == '+' || c == '-' || c == '_' || c == '.' || c == ':'

/-- A number, a date, a time, or a date and a time with a blank between them. -/
def scalar : Reader Value := do
  let part ← takeWhile isScalarPart
  if part == "true".toList then return .boolean true
  else if part == "false".toList then return .boolean false
  else if isDate part then
    match ← get with
    | ' ' :: rest =>
      let time := rest.takeWhile isScalarPart
      if isZonedTime time then set (rest.drop time.length)
      return .moment
    | _ => return .moment
  else if isDateTime part then return .moment
  else if isNumber part then return .number
  else fail

/-- A value. What stands in brackets is read by `inner`; without that there is no room for it. No
brackets hold more than `fuel` values. -/
def valueWith (fuel : Nat) (inner : Option (Reader Value)) : Reader Value := do
  match ← peek?, inner with
  | some '\x22', _ => .string <$> stringIn '\x22'
  | some '\x27', _ => .string <$> stringIn '\x27'
  | some '[', some inner =>
    expect '['
    .array <$> arrayItems inner fuel []
  | some '\x7b', some inner =>
    expect '\x7b'
    blanks
    if ← accept ['\x7d'] then return .table []
    let items ← inlineFields inner fuel .empty
    return .table (fieldsOf items)
  | _, _ => scalar

/-- A value with at most `room` brackets in one another. -/
def value (fuel : Nat) : (room : Nat) → Reader Value
  | 0 => valueWith fuel none
  | room + 1 => valueWith fuel (some (value fuel room))

/-- Where the values of the lines to come belong: a path of headers, and the document so far. -/
structure Progress where
  header : List String := []
  document : Items := .empty

def orFail : Option α → Reader α
  | some a => pure a
  | none => fail

/-- A header behind its opening bracket. -/
def headerLine (progress : Progress) : Reader Progress := do
  let isElement ← accept ['[']
  let (path, key) ← dottedKey
  expect ']'
  if isElement then expect ']'
  let opened := (if isElement then openElement else openTable) path key progress.document
  return ⟨path ++ [key], ← orFail opened⟩

/-- A key and its value. -/
def fieldLine (fuel : Nat) (progress : Progress) : Reader Progress := do
  let (path, key) ← dottedKey
  expect '='
  blanks
  let value ← value fuel maxNesting
  let document ← orFail (changeAt false (fun _ => addValue path key value) false progress.header
    progress.document)
  return { progress with document }

/-- The lines of a document. Neither it nor an array in it has more than `size` of them. -/
def documentLines (size : Nat) : (fuel : Nat) → Progress → Reader Items
  | 0, _ => fail
  | fuel + 1, progress => do
    blanks
    match ← peek? with
    | none => return progress.document
    | some c =>
      let progress ←
        if c == '#' || c == '\n' || c == '\r' then pure progress
        else if ← accept ['['] then headerLine progress
        else fieldLine size progress
      lineEnd
      documentLines size fuel progress

/-- The fields of a document, if it is one. -/
def fieldsOf? (text : String) : Option (List (String × Value)) :=
  let cs := match text.toList with
    | '\uFEFF' :: rest => rest
    | cs => cs
  ((documentLines (cs.length + 1) (cs.length + 1) {}).run cs).map fun (items, _) => fieldsOf items

end TypedTables.Toml
