import TypedTables.Declaration
import TypedTables.Grammar.Run
import TypedTables.Grammar.Type

/-!
Column lists: definitions of columns with their options in any order, and the entries for indices,
projections and constraints, which are passed over.
-/

namespace TypedTables

def DefaultKind.ofKeyword? : Keyword → Option DefaultKind
  | .default => some .default
  | .materialized => some .materialized
  | .alias => some .alias
  | .ephemeral => some .ephemeral
  | _ => none

/-- `NULL` makes the type nullable unless it already is. -/
def ColumnDecl.admitNull (column : ColumnDecl) : ColumnDecl :=
  if column.type.name == TypeExpr.nullableName then column
  else { column with type := .nullable column.type }

namespace Grammar

/-- Whether a token ends the expression of a column option. -/
def endsColumnOption (t : Token) : Bool :=
  match t.kind with
  | .comma | .keyword .comment | .keyword .codec | .keyword .ttl => true
  | _ => false

/-- Reads the option at hand into the column, if there is one. -/
def columnOption? (source : String) (column : ColumnDecl) : Grammar (Option ColumnDecl) := do
  match (← peek?).map Token.kind with
  | some (.keyword .null) =>
    advance
    return some column.admitNull
  | some (.keyword .not) =>
    advance
    expectKeyword .null
    return some column
  | some (.keyword .comment) =>
    advance
    return some { column with comment := some (← expectString .columnComment) }
  | some (.keyword .codec) =>
    advance
    skipBalanced
    return some column
  | some (.keyword .ttl) =>
    advance
    discard (run endsColumnOption)
    return some column
  | some (.keyword .primary) =>
    advance
    expectKeyword .key
    return some column
  | some (.keyword k) =>
    match DefaultKind.ofKeyword? k with
    | some kind =>
      advance
      let expr ← captureExpression source endsColumnOption
      return some { column with defaultKind := some kind, defaultExpr := expr }
    | none => return none
  | _ => return none

def columnOptions (source : String) : (budget : Nat) → ColumnDecl → Grammar ColumnDecl
  | 0, _ => exhausted .columnOptions
  | budget + 1, column => do
    match ← columnOption? source column with
    | some column => columnOptions source budget column
    | none => return column

/-- A name, a type and options. -/
def columnDef (source : String) : Grammar ColumnDecl := do
  let name ← expectColumnName
  let mark ← get
  let type ← columnType
  let rawType := sourceText source ((← get).since mark)
  columnOptions source (Ceiling.steps .columnOptions).limit ⟨name, type, rawType, none, none, none⟩

/-- Whether the tokens behind `INDEX` reach a `TYPE` before the entry ends; otherwise `index` is
the name of a column. -/
def reachesType (depth : Nat) : List Token → Bool
  | [] => false
  | t :: rest =>
    if depth == 0 && (t.kind == .closeParen || t.kind == .comma) then false
    else if depth == 0 && t.kind == .identifier && Text.sameIgnoringCase t.text "TYPE" then true
    else reachesType (t.nest depth) rest

def isConstraintVerb (t : Token) : Bool :=
  t.kind == .identifier &&
    (Text.sameIgnoringCase t.text "CHECK" || Text.sameIgnoringCase t.text "ASSUME")

/-- Whether an index, a projection or a constraint is at hand. -/
def startsEntry : List Token → Bool
  | t :: rest =>
    match t.kind with
    | .keyword .index => reachesType 0 rest
    | .keyword .projection => rest[1]?.any (·.kind == .openParen)
    | .keyword .constraint => rest[1]?.any isConstraintVerb
    | _ => false
  | [] => false

/-- One entry of a column list, behind the columns before it. -/
def columnListEntry (source : String) (columns : Array ColumnDecl) : Grammar (Array ColumnDecl) := do
  if startsEntry (← get).rest then
    discard (run (·.kind == .comma))
    return columns
  else
    let columns := columns.push (← columnDef source)
    check .columnCount columns.size
    return columns

/-- What is left of a column list behind its opening parenthesis. -/
def columnEntries (source : String) :
    (budget : Nat) → (columns : Array ColumnDecl) → Grammar (Array ColumnDecl)
  | 0, _ => exhausted .columnList
  | budget + 1, columns => do
    if ← eat .closeParen then return columns
    let columns ← columnListEntry source columns
    if ← eat .comma then columnEntries source budget columns
    else
      discard (expect .closeParen .columnListEnd)
      return columns

def columnList (source : String) : Grammar (List ColumnDecl) := do
  discard (expect .openParen .openParen)
  return (← columnEntries source (Ceiling.steps .columnList).limit #[]).toList

end Grammar

end TypedTables
