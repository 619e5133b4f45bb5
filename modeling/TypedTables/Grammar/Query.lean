import TypedTables.Declaration
import TypedTables.Grammar.Run

/-!
Queries of views, as far as they say where columns come from: the select list, the table named by
`FROM`, and a leading named sub-query.
-/

namespace TypedTables

/-- `column`, `table.column`, `database.table.column` and so on. -/
def isColumnReference : List Token → Bool
  | [] => false
  | [t] => t.isName
  | t :: dot :: rest => t.isName && dot.kind == .dot && isColumnReference rest

/-- The first identifier that is neither the name of a function nor a qualifier. -/
def firstPlainIdentifier? : List Token → Option String
  | [] => none
  | t :: rest =>
    let qualifies := rest.head?.any fun u => u.kind == .openParen || u.kind == .dot
    if t.isIdentifier && !qualifies then some t.text else firstPlainIdentifier? rest

/-- An expression and the alias after it, if it ends in `AS` and a name or keyword. -/
def splitAlias (tokens : List Token) : List Token × Option String :=
  match tokens.reverse with
  | label :: mark :: first :: rest =>
    if mark.isKeyword .as && (label.isIdentifier || label.kind matches .keyword _) then
      ((first :: rest).reverse, some label.text)
    else (tokens, none)
  | _ => (tokens, none)

/-- The item that an expression makes under an alias. A lone `*` makes none. -/
def SelectItem.ofTokens? (source : String) (tokens : List Token) : Option SelectItem :=
  let (expr, alias?) := splitAlias tokens
  match expr with
  | [t] =>
    if t.kind == .star then none
    else if t.isName then some ⟨t.text, alias?, some t.text, none⟩
    else some ⟨sourceText source expr, alias?, firstPlainIdentifier? expr, none⟩
  | head :: paren :: rest =>
    if isColumnReference expr then
      let column := (expr.getLast?.map Token.text).getD ""
      some ⟨column, alias?, some column, none⟩
    else if head.isName && paren.kind == .openParen then
      some ⟨sourceText source expr, alias?, firstPlainIdentifier? rest, some head.text⟩
    else some ⟨sourceText source expr, alias?, firstPlainIdentifier? expr, none⟩
  | [] => none

namespace Grammar

def selectItems (source : String) :
    (budget : Nat) → (items : List SelectItem) → Grammar (List SelectItem)
  | 0, _ => exhausted .selectList
  | budget + 1, items => do
    let tokens ← run fun t => t.kind == .comma || t.isKeyword .from
    if tokens.isEmpty then unexpected .emptyItem
    let items := (SelectItem.ofTokens? source tokens).toList ++ items
    if ← eat .comma then selectItems source budget items
    else return items.reverse

def selectList (source : String) : Grammar (List SelectItem) :=
  selectItems source (Ceiling.steps .selectList).limit []

/-- The table named after `FROM`; a parenthesized sub-select names none. -/
def fromSource : Grammar (Option String) := do
  if ← isAt .openParen then
    skipBalanced
    return none
  else return some (← qualifiedName .sourceTable).2

/-- `SELECT items FROM source`. -/
def selectFrom (source : String) : Grammar (List SelectItem × Option String) := do
  expectKeyword .select
  let items ← selectList source
  expectKeyword .from
  return (items, ← fromSource)

/-- Whether `name AS (SELECT` is at hand. -/
def atSubquery : Grammar Bool := do
  return (← looksAt 0 Token.isName) && (← looksAt 1 (·.isKeyword .as)) &&
    (← looksAt 2 (·.kind == .openParen)) && (← looksAt 3 (·.isKeyword .select))

def subquery (source : String) : Grammar Subquery := do
  let name ← expectName .subqueryName
  expectKeyword .as
  discard (expect .openParen .openParen)
  let (items, from_) ← selectFrom source
  skipToClose
  return ⟨name, from_, items⟩

/-- What stands behind `WITH`: a first named sub-query is kept, all else up to the main `SELECT` is
passed over. -/
def withClause (source : String) : Grammar (Option Subquery) := do
  let sub ← if ← atSubquery then some <$> subquery source else pure none
  discard (run (·.isKeyword .select))
  return sub

/-- The query of a view, to the end of the statement. -/
def viewQuery (source : String) : Grammar ViewQuery := do
  let sub ← if ← eatKeyword .with then withClause source else pure none
  let (items, from_) ← selectFrom source
  modify Cursor.finish
  return ⟨from_, items, sub⟩

end Grammar

end TypedTables
