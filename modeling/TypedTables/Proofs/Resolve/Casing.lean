import TypedTables.Proofs.Resolve.Settled

/-!
Casing. How column names are spelled is settled behind everything else: inference knows no options,
and plugins are asked for the names that the source uses. So two resolutions that differ in casing
fail together, and differ in nothing but the names in the output.
-/

namespace TypedTables

/-- The column under the name that a casing gives it. -/
def ResolvedColumn.respell (casing : Casing) (column : ResolvedColumn) : ResolvedColumn :=
  { column with name := casing.apply column.sourceName }

def MappedTable.respell (casing : Casing) (table : MappedTable) : MappedTable :=
  { table with columns := table.columns.map (ResolvedColumn.respell casing) }

section Respell

variable (options : ResolveOptions) (casing : Casing)

theorem ColumnDecl.resolve_casing (table : String) (column : ColumnDecl) :
    column.resolve { options with casing } table =
      ResolvedColumn.respell casing <$> column.resolve options table := by
  have hmapped (name : String) (ty : TypeExpr) :
      mapType { options with casing } table name ty = mapType options table name ty := rfl
  unfold resolve
  dsimp only
  rw [hmapped]
  cases mapType options table column.concrete.name column.concrete.type with
  | error e => rfl
  | ok mapped => rfl

theorem TableDecl.resolve_casing (table : TableDecl) :
    table.resolve { options with casing } =
      MappedTable.respell casing <$> table.resolve options := by
  have hcolumns : table.columns.mapM (ColumnDecl.resolve { options with casing } table.name) =
      List.map (ResolvedColumn.respell casing) <$>
        table.columns.mapM (ColumnDecl.resolve options table.name) := by
    rw [← mapM_map]
    exact congrArg table.columns.mapM
      (funext (ColumnDecl.resolve_casing options casing table.name))
  unfold resolve
  rw [hcolumns]
  cases table.columns.mapM (ColumnDecl.resolve options table.name) with
  | error e => rfl
  | ok columns => rfl

/-- Tables settle before any option is looked at, so that a view reads the same columns under every
casing. -/
theorem resolveFrom_casing (catalog : Catalog) (tables : List TableDecl) :
    resolveFrom { options with casing } catalog tables =
      List.map (MappedTable.respell casing) <$> resolveFrom options catalog tables := by
  rw [resolveFrom_eq, resolveFrom_eq, ← mapM_map]
  exact congrArg (settle catalog tables).mapM (funext (TableDecl.resolve_casing options casing))

theorem resolve_casing (tables : List TableDecl) :
    resolve { options with casing } tables =
      List.map (MappedTable.respell casing) <$> resolve options tables := by
  unfold resolve
  rw [resolveFrom_casing]
  cases Ceiling.tableCount.check tables.length with
  | error e => rfl
  | ok =>
    cases tables.forM TableDecl.validate with
    | error e => rfl
    | ok => rfl

end Respell

/-- Resolution in camel case is resolution that keeps all names, with each column renamed after its
name in the source; where one of them fails, the other fails with the same error. -/
theorem resolve_camel (options : ResolveOptions) (tables : List TableDecl) :
    resolve { options with casing := .camel } tables =
      (fun mapped => mapped.map fun table => { table with
        columns := table.columns.map fun column =>
          { column with name := Text.camelCase column.sourceName } }) <$>
        resolve { options with casing := .preserve } tables :=
  resolve_casing { options with casing := .preserve } .camel tables

end TypedTables
