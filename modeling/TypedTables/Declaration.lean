import TypedTables.Named
import TypedTables.TypeExpr.Basic

/-!
Declarations: tables and materialized views with their columns and, for a view that lists no
columns of its own, what is kept of its query.
-/

namespace TypedTables

inductive TableKind
  | table
  | materializedView
  deriving DecidableEq, Repr

/-- How the default expression of a column is applied. -/
inductive DefaultKind
  | default
  | materialized
  | alias
  | ephemeral
  deriving DecidableEq, Repr

structure ColumnDecl where
  name : String
  type : TypeExpr
  /-- The type as the source spells it. -/
  rawType : String
  comment : Option String := none
  defaultExpr : Option String := none
  defaultKind : Option DefaultKind := none

/-- One item of a select list. -/
structure SelectItem where
  /-- The column of a plain reference, the source text of any other expression. -/
  name : String
  alias? : Option String
  /-- The first column that the expression refers to. -/
  sourceColumn : Option String
  /-- The outermost function of the expression. -/
  function : Option String
  deriving DecidableEq, Repr

/-- A named sub-query: `WITH name AS (SELECT items FROM source …)`. -/
structure Subquery where
  name : String
  source : Option String
  items : List SelectItem
  deriving DecidableEq, Repr

/-- The query of a view. `source` is the table that its own `FROM` names. -/
structure ViewQuery where
  source : Option String
  items : List SelectItem
  subquery : Option Subquery
  deriving DecidableEq, Repr

structure TableDecl where
  name : String
  database : Option String := none
  kind : TableKind := .table
  columns : List ColumnDecl := []
  engine : Option String := none
  partitionBy : Option String := none
  orderBy : Option String := none
  primaryKey : Option String := none
  comment : Option String := none
  /-- Present for views that list no columns. -/
  query : Option ViewQuery := none

/-- The name under which an item is visible. -/
def SelectItem.outputName (item : SelectItem) : String := item.alias?.getD item.name

/-- A column that is still to be inferred. -/
def ColumnDecl.pending (name : String) : ColumnDecl :=
  ⟨name, .placeholder, TypeExpr.placeholderName, none, none, none⟩

namespace TableDecl

def findColumn? (table : TableDecl) (name : String) : Option ColumnDecl :=
  findNamed? ColumnDecl.name name table.columns

def qualifiedName (table : TableDecl) : String :=
  match table.database with
  | some database => database ++ "." ++ table.name
  | none => table.name

end TableDecl

/-- The sub-query that the view reads from: its own `FROM` names it, or names no table at all. -/
def ViewQuery.selected? (query : ViewQuery) : Option Subquery :=
  query.subquery.filter fun sub => query.source.all (Text.sameIgnoringCase · sub.name)

end TypedTables
