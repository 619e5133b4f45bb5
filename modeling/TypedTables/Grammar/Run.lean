import TypedTables.Grammar.Cursor

/-!
Balanced runs of tokens: what stands between parentheses, and expressions, which reach as far as
the parentheses that they open are closed and no token outside them ends the run.
-/

namespace TypedTables.Grammar

/-- Whether a token outside parentheses ends a run: the run's own stop, a semicolon, or the end of
an enclosing group. -/
def endsRun (stop : Token → Bool) (t : Token) : Bool :=
  t.kind == .semicolon || t.kind == .closeParen || stop t

/-- Goes to the end of a run. The result counts the parentheses that are left open. -/
def skipRun (stop : Token → Bool) (budget depth position : Nat) :
    List Token → EStateM.Result Error Cursor Nat
  | [] => .ok depth ⟨position, []⟩
  | t :: rest =>
    match budget with
    | 0 => .error (.exceeded (.steps .expression)) ⟨position, t :: rest⟩
    | budget + 1 =>
      if depth == 0 && endsRun stop t then .ok depth ⟨position, t :: rest⟩
      else skipRun stop budget (t.nest depth) (position + 1) rest

/-- The tokens of a run, all of them consumed. -/
def run (stop : Token → Bool) : Grammar (List Token) := do
  let mark ← get
  let opened ← fun c =>
    skipRun stop (Ceiling.steps .expression).limit 0 c.position c.rest
  if 0 < opened then throw (.parse .unbalanced)
  return (← get).since mark

/-- The source text of a run, if there is any token in it. -/
def captureExpression (source : String) (stop : Token → Bool) : Grammar (Option String) := do
  match ← run stop with
  | [] => return none
  | tokens => return some (sourceText source tokens)

/-- Goes past the parenthesis that closes the group the cursor is in. -/
def skipGroup (budget depth position : Nat) : List Token → EStateM.Result Error Cursor Unit
  | [] => .error (.parse .unbalanced) ⟨position, []⟩
  | t :: rest =>
    match budget with
    | 0 => .error (.exceeded (.steps .balancedParentheses)) ⟨position + 1, rest⟩
    | budget + 1 =>
      if depth == 0 && t.kind == .closeParen then .ok () ⟨position + 1, rest⟩
      else skipGroup budget (t.nest depth) (position + 1) rest

def skipToClose : Grammar Unit := fun c =>
  skipGroup (Ceiling.steps .balancedParentheses).limit 0 c.position c.rest

/-- Consumes a parenthesized group. -/
def skipBalanced : Grammar Unit := do
  discard (expect .openParen .openParen)
  skipToClose

/-- The parts of a dotted name behind the first one. -/
def qualifiers (what : Expected) : (budget : Nat) → (parts : List String) → Grammar (List String)
  | budget, parts => do
    if ← eat .dot then
      match budget with
      | 0 => exhausted .qualifiedName
      | budget + 1 => qualifiers what budget ((← expectName what) :: parts)
    else return parts

/-- A name and the qualifier before it; of a longer chain the last two parts are kept. -/
def qualifiedName (what : Expected) : Grammar (Option String × String) := do
  let first ← expectName what
  match ← qualifiers what (Ceiling.steps .qualifiedName).limit [first] with
  | name :: qualifier :: _ => return (some qualifier, name)
  | name :: [] => return (none, name)
  | [] => return (none, first)

end TypedTables.Grammar
