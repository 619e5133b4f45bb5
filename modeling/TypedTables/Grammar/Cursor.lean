import TypedTables.Error

/-!
A cursor over the tokens of a statement, and the steps that move it. A failed step leaves the
cursor where the failure was seen, so that reading can go on from there.
-/

namespace TypedTables

/-- `position` counts the tokens consumed, `rest` holds the others. -/
structure Cursor where
  position : Nat
  rest : List Token
  deriving DecidableEq, Repr

namespace Cursor

def ofTokens (tokens : List Token) : Cursor := ⟨0, tokens⟩

def peek? (c : Cursor) : Option Token := c.rest.head?

def next (c : Cursor) : Cursor :=
  match c.rest with
  | [] => c
  | _ :: rest => ⟨c.position + 1, rest⟩

/-- The tokens consumed since the cursor stood at `mark`. -/
def since (c mark : Cursor) : List Token := mark.rest.take (c.position - mark.position)

/-- The cursor behind the last token. -/
def finish (c : Cursor) : Cursor := ⟨c.position + c.rest.length, []⟩

end Cursor

/-- Steps of the grammar: each moves the cursor, and fails with an error or gives a result. -/
abbrev Grammar := EStateM Error Cursor

namespace Grammar

variable {α : Type}

/-- Fails with a fault of the token at hand. -/
def unexpected (fault : Fault) : Grammar α := fun c =>
  .error (.parse (.unexpected fault c.peek?)) c

def expected (what : Expected) : Grammar α := unexpected (.expected what)

/-- Fails if `value` is above the ceiling. -/
def check (ceiling : Ceiling) (value : Nat) : Grammar Unit := fun c =>
  match ceiling.check value with
  | .ok () => .ok () c
  | .error e => .error e c

def exhausted (loop : Loop) : Grammar α := throw (.exceeded (.steps loop))

def peek? : Grammar (Option Token) := fun c => .ok c.peek? c

def advance : Grammar Unit := fun c => .ok () c.next

/-- Whether the token `n` places ahead passes a test. -/
def looksAt (n : Nat) (test : Token → Bool) : Grammar Bool := fun c =>
  .ok (c.rest[n]?.any test) c

def isAt (kind : TokenKind) : Grammar Bool := looksAt 0 (·.kind == kind)

def isAtKeyword (k : Keyword) : Grammar Bool := isAt (.keyword k)

/-- Consumes the token at hand if it passes a test. -/
def accept? (test : Token → Bool) : Grammar (Option Token) := fun c =>
  match c.rest with
  | t :: rest => if test t then .ok (some t) ⟨c.position + 1, rest⟩ else .ok none c
  | [] => .ok none c

def eat (kind : TokenKind) : Grammar Bool := Option.isSome <$> accept? (·.kind == kind)

def eatKeyword (k : Keyword) : Grammar Bool := eat (.keyword k)

/-- Consumes the token at hand, which has to pass a test. -/
def require (test : Token → Bool) (what : Expected) : Grammar Token := do
  match ← accept? test with
  | some t => return t
  | none => expected what

def expect (kind : TokenKind) (what : Expected) : Grammar Token := require (·.kind == kind) what

def expectKeyword (k : Keyword) : Grammar Unit :=
  discard (expect (.keyword k) (.keyword k))

def expectName (what : Expected) : Grammar String := Token.text <$> require Token.isName what

def expectString (what : Expected) : Grammar String := Token.text <$> expect .string what

/-- The name of a column may be a reserved keyword, since a type always follows it. -/
def expectColumnName : Grammar String :=
  Token.text <$> require (fun t => t.isName || t.kind matches .keyword _) .columnName

end Grammar

/-- The source from the start of the first token to the end of the last one. -/
def sourceText (source : String) (tokens : List Token) : String :=
  match tokens.head?, tokens.getLast? with
  | some first, some last => slice source first.span.offset last.span.stop
  | _, _ => ""

end TypedTables
