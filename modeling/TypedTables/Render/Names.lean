import TypedTables.Resolve

/-!
The names in generated code: what every renderer asks of the tables it is given before it writes
anything, and the keys of properties.
-/

namespace TypedTables

/-- What is wrong with a column by itself. -/
def ResolvedColumn.problem? (column : ResolvedColumn) : Option ColumnProblem :=
  if Text.allBlank column.name then some .emptyName
  else if column.type.isPlaceholder then some .unresolvedType
  else if Text.allBlank column.mappedType then some .emptyMappedType
  else none

/-- Checks the columns of a table in their order; `seen` are those before, by their names. -/
def checkColumns (table : String) (seen : Index ResolvedColumn) :
    List ResolvedColumn → Except Error Unit
  | [] => .ok ()
  | column :: rest =>
    match seen.get? column.name, column.problem? with
    | some first, _ =>
      .error (.validation (.sameColumnName first.sourceName column.sourceName table column.name))
    | none, some problem => .error (.validation (.badColumn column.sourceName table problem))
    | none, none => checkColumns table (seen.insert column.name column) rest

/-- Checks tables in their order; `seen` are those before, by their declared names. -/
def checkTables (seen : Index MappedTable) : List MappedTable → Except Error Unit
  | [] => .ok ()
  | table :: rest => do
    if Text.allBlank table.declaredName || Text.allBlank table.sourceName then
      throw (.validation (.noDeclaredName table.sourceName))
    match seen.get? table.declaredName with
    | some first =>
      throw (.validation
        (.sameDeclaredName first.sourceName table.sourceName table.declaredName))
    | none =>
      Ceiling.columnCount.check table.columns.length
      checkColumns table.sourceName .empty table.columns
      checkTables (seen.insert table.declaredName table) rest

/-- Rejects tables that cannot be rendered: names have to be there and to differ, and every column
needs a type. -/
def validateTables (tables : List MappedTable) : Except Error Unit := do
  Ceiling.tableCount.check tables.length
  checkTables .empty tables

def isKeyStart (c : Char) : Bool := c.isAlpha || c == '_' || c == '$'

def isKeyPart (c : Char) : Bool := c.isAlphanum || c == '_' || c == '$'

/-- The key of a property: bare if it is an ASCII identifier, quoted otherwise. -/
def propertyKey (name : String) : String :=
  match name.toList with
  | c :: rest => if isKeyStart c && rest.all isKeyPart then name else quoted name
  | [] => quoted name

end TypedTables
