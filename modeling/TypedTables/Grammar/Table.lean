import TypedTables.Grammar.Column
import TypedTables.Grammar.Query

/-!
Statements that declare a table or a materialized view.
-/

namespace TypedTables.Grammar

/-- Whether a token starts the next clause of a table. -/
def startsTableClause (t : Token) : Bool :=
  match t.kind with
  | .keyword .engine | .keyword .partition | .keyword .order | .keyword .primary
  | .keyword .sample | .keyword .ttl | .keyword .settings | .keyword .comment
  | .keyword .populate | .keyword .as => true
  | _ => false

/-- The expression of a table clause. -/
def clauseExpression (source : String) : Grammar (Option String) :=
  captureExpression source startsTableClause

/-- Name and arguments of an engine. -/
def engine (source : String) : Grammar String := do
  let mark ← get
  discard (expectName .engineName)
  if ← isAt .openParen then skipBalanced
  return sourceText source ((← get).since mark)

/-- The query behind `AS`. Only a materialized view without a column list takes its columns from
it; for all other declarations it is passed over. -/
def asBody (source : String) (table : TableDecl) : Grammar TableDecl := do
  if table.kind == .materializedView && table.columns.isEmpty then
    let query ← viewQuery source
    check .columnCount query.items.length
    return { table with
      columns := query.items.map fun item => .pending item.outputName
      query := some query }
  else
    modify Cursor.finish
    return table

/-- Where a clause leaves the clauses that follow it. -/
inductive Progress
  | more (table : TableDecl)
  | done (table : TableDecl)

/-- Reads the clause at hand into the table. -/
def tableClause (source : String) (table : TableDecl) (kind : TokenKind) : Grammar Progress := do
  match kind with
  | .semicolon =>
    advance
    return .done table
  | .keyword .engine =>
    advance
    discard (eat .equals)
    return .more { table with engine := some (← engine source) }
  | .keyword .partition =>
    advance
    expectKeyword .by
    return .more { table with partitionBy := ← clauseExpression source }
  | .keyword .order =>
    advance
    expectKeyword .by
    return .more { table with orderBy := ← clauseExpression source }
  | .keyword .primary =>
    advance
    expectKeyword .key
    return .more { table with primaryKey := ← clauseExpression source }
  | .keyword .sample =>
    advance
    expectKeyword .by
    discard (clauseExpression source)
    return .more table
  | .keyword .ttl | .keyword .settings =>
    advance
    discard (clauseExpression source)
    return .more table
  | .keyword .comment =>
    advance
    discard (eat .equals)
    return .more { table with comment := some (← expectString .tableComment) }
  | .keyword .populate =>
    advance
    return .more table
  | .keyword .as =>
    advance
    return .done (← asBody source table)
  | _ => unexpected .unexpectedClause

/-- Clauses in any order, up to a semicolon, the end of the query, or the end of the tokens. -/
def tableClauses (source : String) : (budget : Nat) → TableDecl → Grammar TableDecl
  | budget, table => do
    match ← peek? with
    | none => return table
    | some t =>
      match budget with
      | 0 => exhausted .tableClauses
      | budget + 1 =>
        match ← tableClause source table t.kind with
        | .more table => tableClauses source budget table
        | .done table => return table

/-- What is declared: `TABLE`, or `MATERIALIZED VIEW`. -/
def tableKind : Grammar TableKind := do
  if ← eatKeyword .materialized then
    expectKeyword .view
    return .materializedView
  else if ← eatKeyword .table then return .table
  else if ← isAtKeyword .view then unexpected .plainView
  else expected .tableOrView

def orReplace : Grammar Unit := do
  if ← eatKeyword .or then expectKeyword .replace

def ifNotExists : Grammar Unit := do
  if ← eatKeyword .if then
    expectKeyword .not
    expectKeyword .exists

def onCluster : Grammar Unit := do
  if ← eatKeyword .on then
    expectKeyword .cluster
    if ← isAt .string then advance else discard (expectName .clusterName)

/-- Everything before the column list: kind, database and name of the table. -/
def tableHeader : Grammar TableDecl := do
  expectKeyword .create
  orReplace
  discard (eatKeyword .temporary)
  let kind ← tableKind
  ifNotExists
  let (database, name) ← qualifiedName .tableName
  onCluster
  if ← isAtKeyword .to then unexpected .routedView
  return { name, database, kind }

/-- A whole statement. -/
def statement (source : String) : Grammar TableDecl := do
  let table ← tableHeader
  let columns ← if ← isAt .openParen then columnList source else pure []
  let table ← tableClauses source (Ceiling.steps .tableClauses).limit { table with columns }
  if table.columns.isEmpty then throw (.parse (.noColumns table.qualifiedName))
  return table

end TypedTables.Grammar
