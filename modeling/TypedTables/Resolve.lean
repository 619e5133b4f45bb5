import TypedTables.Declaration
import TypedTables.Text.Blank
import TypedTables.Text.Words
import TypedTables.TsType

/-!
Resolution: declarations become tables that are ready for rendering. The columns of a view without
a column list get the types of what they are selected from; then every type is mapped and the
column names are spelled as asked for.
-/

namespace TypedTables

structure ResolvedColumn where
  /-- The name in the output. -/
  name : String
  sourceName : String
  type : TypeExpr
  mappedType : String
  rawType : String
  comment : Option String

/-- What documentation says about a table. -/
structure TableMeta where
  engine : Option String
  partitionBy : Option String
  orderBy : Option String
  comment : Option String
  deriving DecidableEq, Repr

structure MappedTable where
  declaredName : String
  sourceName : String
  columns : List ResolvedColumn
  info : TableMeta
  /-- The options that the columns were mapped with. -/
  representation : MappingOptions

/-- A table that a view can read from. -/
structure Source where
  table : TableDecl
  columns : Named ColumnDecl.name table.columns := .of ColumnDecl.name table.columns

/-- The type of a column, if it is there and its type is known. -/
def Source.columnType? (source : Source) (column : String) : Option TypeExpr := do
  let column ← source.columns.find? column
  if column.type.isPlaceholder then none else some column.type

/-- The tables that views can read from, at most one of each name. -/
structure Catalog where
  sources : Index Source := .empty
  /-- For names in lower case, the name that came first of those that differ in letter case only. -/
  firstNames : Index String := .empty

namespace Catalog

/-- Puts a table in the place of the one with the same name, or after all others. -/
def register (catalog : Catalog) (table : TableDecl) : Catalog where
  sources := catalog.sources.insert table.name { table }
  firstNames :=
    let folded := Text.lower table.name
    match catalog.firstNames.get? folded with
    | some _ => catalog.firstNames
    | none => catalog.firstNames.insert folded table.name

def ofTables (tables : List TableDecl) : Catalog := tables.foldl register {}

/-- The table with a name; if none has exactly that name, the first whose name differs in ASCII
letter case only. -/
def source? (catalog : Catalog) (name : String) : Option Source :=
  (catalog.sources.get? name).or
    ((catalog.firstNames.get? (Text.lower name)).bind catalog.sources.get?)

end Catalog

/-- The column that an item stands for. -/
def SelectItem.column (item : SelectItem) : String := item.sourceColumn.getD item.name

/-- Functions that fix the type of their result, by the lower-case start of their names. -/
def conversions : List (String × String) := [
  ("tostartofday", "DateTime"), ("tofloat", "Float64"), ("todecimal", "Decimal"),
  ("touint", "UInt64"), ("toint", "Int64")]

def wideningAggregates : List String := ["sum", "avg", "count"]

def startsWith (start name : String) : Bool := start.toList.isPrefixOf name.toList

/-- The type that a conversion function gives. -/
def conversionType? (function : String) : Option TypeExpr :=
  let function := Text.lower function
  (conversions.find? fun (start, _) => startsWith start function).map fun (_, name) => .plain name

/-- The type that a function gives for an argument of type `base`. Functions without a rule keep
the type of their argument. -/
def returnType? (function : String) (base : Option TypeExpr) : Option TypeExpr :=
  let name := Text.lower function
  if startsWith "tostartofday" name then some (.plain "DateTime")
  else if wideningAggregates.any (startsWith · name) then some (.plain "Float64")
  else base

namespace ViewQuery

/-- The table that has the columns: that of the sub-query if the view reads from one. -/
def sourceName? (query : ViewQuery) : Option String :=
  match query.selected? with
  | some sub => sub.source
  | none => query.source

/-- The items of the sub-query that the view reads from. -/
def innerItems (query : ViewQuery) : List SelectItem :=
  match query.selected? with
  | some sub => sub.items
  | none => []

end ViewQuery

/-- What the types of a view's columns are inferred from: the items of its query, those of its
sub-query, and the table that is read. -/
structure View (query : ViewQuery) where
  items : Named SelectItem.outputName query.items := .of SelectItem.outputName query.items
  innerItems : Named SelectItem.outputName query.innerItems :=
    .of SelectItem.outputName query.innerItems
  source : Option Source

namespace View

variable {query : ViewQuery}

/-- Type of a column of the table that is read. -/
def sourceType? (view : View query) (column : String) : Option TypeExpr := do
  (← view.source).columnType? column

/-- Type of a column of the sub-query. -/
def innerType? (view : View query) (column : String) : Option TypeExpr :=
  match view.innerItems.find? column with
  | none => view.sourceType? column
  | some item => (item.function.bind conversionType?).or (view.sourceType? item.column)

/-- A column of a view that reads from a table keeps the type of the column that it selects. -/
def directType? (view : View query) (column : String) : Option TypeExpr :=
  view.sourceType? (((view.items.find? column).map SelectItem.column).getD column)

/-- A column of a view that reads from its sub-query: a function gives its result type, and a bare
reference is a text. -/
def typeThrough? (view : View query) (column : String) : Option TypeExpr := do
  let item ← view.items.find? column
  match item.function with
  | none => some .text
  | some function => returnType? function (item.sourceColumn.bind view.innerType?)

/-- Type of a column of the view, as far as it can be inferred. -/
def columnType? (view : View query) (column : String) : Option TypeExpr :=
  if query.selected?.isSome then view.typeThrough? column else view.directType? column

end View

/-- The column with its type inferred if it is pending; a text if inference gives up. -/
def ColumnDecl.infer {query : ViewQuery} (view : View query) (column : ColumnDecl) : ColumnDecl :=
  if column.type.isPlaceholder then
    let ty := (view.columnType? column.name).getD .text
    { column with type := ty, rawType := ty.display }
  else column

def Catalog.inferTable (catalog : Catalog) (table : TableDecl) : TableDecl :=
  match table.query with
  | none => table
  | some query =>
    let view : View query := { source := query.sourceName?.bind catalog.source? }
    { table with columns := table.columns.map (ColumnDecl.infer view) }

def TableDecl.validate (table : TableDecl) : Except Error Unit := do
  if Text.allBlank table.name then throw (.validation .emptyTableName)
  Ceiling.columnCount.check table.columns.length
  match table.columns.findIdx? fun column => Text.allBlank column.name with
  | some i => throw (.validation (.emptyColumnName (i + 1) table.name))
  | none => return ()

def Casing.apply : Casing → String → String
  | .preserve, name => name
  | .camel, name => Text.camelCase name

/-- A placeholder that is left stands for a text. -/
def ColumnDecl.concrete (column : ColumnDecl) : ColumnDecl :=
  if column.type.isPlaceholder then
    { column with type := .text, rawType := TypeExpr.text.display }
  else column

def ColumnDecl.resolve (options : ResolveOptions) (table : String) (column : ColumnDecl) :
    Except Error ResolvedColumn := do
  let column := column.concrete
  return {
    name := options.casing.apply column.name
    sourceName := column.name
    type := column.type
    mappedType := ← mapType options table column.name column.type
    rawType := column.rawType
    comment := column.comment }

def TableDecl.resolve (options : ResolveOptions) (table : TableDecl) : Except Error MappedTable :=
  return {
    declaredName := Text.pascalCase table.name
    sourceName := table.name
    columns := ← table.columns.mapM (ColumnDecl.resolve options table.name)
    info := ⟨table.engine, table.partitionBy, table.orderBy, table.comment⟩
    representation := options.toMappingOptions }

/-- Resolves tables in their order; a view whose columns have been inferred takes its own place in
the catalog, so that later views can read from it. -/
def resolveFrom (options : ResolveOptions) (catalog : Catalog) :
    List TableDecl → Except Error (List MappedTable)
  | [] => .ok []
  | table :: rest => do
    let table := catalog.inferTable table
    let mapped ← table.resolve options
    return mapped :: (← resolveFrom options (catalog.register table) rest)

/-- Resolves all declarations together. Inference never fails; names, ceilings and unknown types
may. -/
def resolve (options : ResolveOptions) (tables : List TableDecl) :
    Except Error (List MappedTable) := do
  Ceiling.tableCount.check tables.length
  tables.forM TableDecl.validate
  resolveFrom options (Catalog.ofTables tables) tables

end TypedTables
