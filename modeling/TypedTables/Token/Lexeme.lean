import TypedTables.Text.Alphanumeric
import TypedTables.Text.Blank
import TypedTables.Token.Basic

/-!
Lexemes: how far the piece of text at the head of a character list reaches, and what it is. Every
measure counts characters of the list it is given and never exceeds its length.
-/

namespace TypedTables

namespace Lexeme

/-- Characters of a quoted run behind its opening quote, the closing quote included. A backslash
takes the next character with it, a doubled quote stands for itself, and a run that is never closed
reaches the end. -/
def quotedLength (quote : Char) (cs : List Char) : Nat :=
  go 0 cs
where
  go (n : Nat) : List Char → Nat
    | [] => n
    | [_] => n + 1
    | c :: d :: rest =>
      if c = '\\' then go (n + 2) rest
      else if c = quote then
        if d = quote then go (n + 2) rest else n + 1
      else go (n + 1) (d :: rest)

/-- What a quoted run stands for, given the characters behind its opening quote. -/
def unquote (quote : Char) (cs : List Char) : String :=
  go "" cs
where
  escaped : Char → Char
    | 'n' => '\n'
    | 't' => '\t'
    | 'r' => '\r'
    | '0' => '\x00'
    | c => c
  go (value : String) : List Char → String
    | [] => value
    | [c] => if c = '\\' || c = quote then value else value.push c
    | c :: d :: rest =>
      if c = '\\' then go (value.push (escaped d)) rest
      else if c = quote then
        if d = quote then go (value.push quote) rest else value
      else go (value.push c) (d :: rest)

/-- Characters up to the end of the line. -/
def lineLength (cs : List Char) : Nat := (cs.takeWhile (· != '\n')).length

/-- Characters of a block comment behind its opening, the closing included. -/
def blockLength (cs : List Char) : Nat :=
  go 0 cs
where
  go (n : Nat) : List Char → Nat
    | '*' :: '/' :: _ => n + 2
    | _ :: rest => go (n + 1) rest
    | [] => n

/-- Characters of a comment that starts with `c`, those behind `c` counted; none if no comment
starts there. -/
def commentLength? (c : Char) (cs : List Char) : Option Nat :=
  match c, cs with
  | '#', _ => some (lineLength cs)
  | '-', '-' :: _ => some (lineLength cs)
  | '/', '*' :: rest => some (blockLength rest + 1)
  | _, _ => none

def digitsLength (cs : List Char) : Nat := (cs.takeWhile Char.isDigit).length

/-- Characters of a fraction: a point and at least one digit. -/
def fractionLength : List Char → Nat
  | '.' :: d :: rest => if d.isDigit then digitsLength rest + 2 else 0
  | _ => 0

/-- Characters of an exponent: the letter, perhaps a sign, and at least one digit. -/
def exponentLength : List Char → Nat
  | e :: rest =>
    if e = 'e' || e = 'E' then
      match rest with
      | s :: d :: rest' =>
        if s.isDigit then digitsLength (d :: rest') + 2
        else if (s = '+' || s = '-') && d.isDigit then digitsLength rest' + 3
        else 0
      | [d] => if d.isDigit then 2 else 0
      | [] => 0
    else 0
  | [] => 0

/-- Characters of a number behind its first digit. -/
def numberLength (cs : List Char) : Nat :=
  let digits := digitsLength cs
  let fraction := fractionLength (cs.drop digits)
  digits + fraction + exponentLength (cs.drop (digits + fraction))

def isWordStart (c : Char) : Bool := Text.isAlphabetic c || c == '_'

def isWordPart (c : Char) : Bool := Text.isAlphanumeric c || c == '_'

def wordLength (cs : List Char) : Nat := (cs.takeWhile isWordPart).length

def symbol? : Char → Option TokenKind
  | '(' => some .openParen
  | ')' => some .closeParen
  | ',' => some .comma
  | '.' => some .dot
  | '=' => some .equals
  | ';' => some .semicolon
  | '*' => some .star
  | '+' | '-' | '/' | '%' | '<' | '>' | '!' | '|' | ':' | '?' | '[' | ']' | '{' | '}' | '&' | '^'
  | '~' => some .operator
  | _ => none

end Lexeme

/-- What stands at the head of a text. A gap is a blank, a comment or a character that no rule
knows. -/
inductive Lexeme
  | gap
  | quoted (kind : TokenKind) (quote : Char)
  | number
  | word
  | symbol (kind : TokenKind)
  deriving DecidableEq, Repr

def singleQuote : Char := '\x27'

def doubleQuote : Char := '\x22'

def backQuote : Char := '\x60'

/-- The lexeme that starts with `c`, and how many characters behind `c` belong to it. -/
def Lexeme.head (c : Char) (cs : List Char) : Lexeme × Nat :=
  if Text.isBlank c then (.gap, 0)
  else match commentLength? c cs with
    | some n => (.gap, n)
    | none =>
      if c = singleQuote then (.quoted .string c, quotedLength c cs)
      else if c = backQuote || c = doubleQuote then (.quoted .quotedIdentifier c, quotedLength c cs)
      else if c.isDigit then (.number, numberLength cs)
      else if isWordStart c then (.word, wordLength cs)
      else match symbol? c with
        | some kind => (.symbol kind, 0)
        | none => (.gap, 0)

def wordKind (word : String) : TokenKind :=
  match Keyword.ofWord? word with
  | some k => .keyword k
  | none => .identifier

/-- Kind and text of the token that a lexeme makes, given its characters behind the first. -/
def Lexeme.token? (lexeme : Lexeme) (c : Char) (run : List Char) : Option (TokenKind × String) :=
  match lexeme with
  | .gap => none
  | .quoted kind quote => some (kind, unquote quote run)
  | .number => some (.number, String.ofList (c :: run))
  | .word => let word := String.ofList (c :: run); some (wordKind word, word)
  | .symbol kind => some (kind, String.ofList (c :: run))

/-- The tokens of a text that starts at `here`. -/
def lexFrom (here : Location) (done : List Token) : List Char → List Token
  | [] => done.reverse
  | c :: cs =>
    let (lexeme, n) := Lexeme.head c cs
    let run := cs.take n
    let next := here.advance (c :: run)
    match lexeme.token? c run with
    | some (kind, text) => lexFrom next (⟨kind, text, here.spanTo next⟩ :: done) (cs.drop n)
    | none => lexFrom next done (cs.drop n)
  termination_by cs => cs.length
  decreasing_by all_goals simp only [List.length_drop, List.length_cons]; omega

/-- The tokens of a text. It never fails: characters that no rule knows are dropped. -/
def tokenize (source : String) : List Token := lexFrom .start [] source.toList

end TypedTables
