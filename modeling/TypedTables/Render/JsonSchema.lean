import TypedTables.Json
import TypedTables.Render.Names

/-!
JSON Schema documents (draft 2020-12), one for each table.
-/

namespace TypedTables.JsonSchema

def dialect : String := "https://json-schema.org/draft/2020-12/schema"

/-- The schema of a type keyword with further fields. -/
def typed (name : String) (fields : List (String × Json)) : Json :=
  .obj (("type", .str name) :: fields)

def formatted (name : String) : Json := typed "string" [("format", .str name)]

/-- An object that has exactly these properties. -/
def closed (properties : List (String × Json)) : Json :=
  typed "object" [("properties", Json.ofFields properties),
    ("required", .arr (properties.map fun (key, _) => .str key)),
    ("additionalProperties", .bool false)]

def leaf (options : MappingOptions) : Leaf → Json
  | .integer => typed "integer" []
  | .wideInteger => match options.int64 with
    | .wideInteger => typed "integer" []
    | .string => typed "string" [("pattern", .str "^-?[0-9]+$")]
  | .float => typed "number" []
  | .boolean => typed "boolean" []
  | .decimal => typed "string" []
  | .text => typed "string" []
  | .address .v4 => formatted "ipv4"
  | .address .v6 => formatted "ipv6"
  | .date => formatted "date"
  | .dateTime => formatted "date-time"

/-- The schema of each shape; an unknown type admits everything. -/
def fold (options : MappingOptions) : TypeFold Json where
  nullable inner := .obj [("anyOf", .arr [inner, typed "null" []])]
  array item := typed "array" [("items", item)]
  tuple items := closed (items.zipIdx.map fun (item, i) => (TsType.fieldName i, item))
  map value := typed "object" [("additionalProperties", value)]
  enumeration keys := typed "string" [("enum", .arr (keys.map .str))]
  leaf := leaf options
  unknown _ := .ok (.obj [])

def ofType (options : MappingOptions) (ty : TypeExpr) : Except Error Json :=
  (fold options).run ty

def describe (comment : Option String) (json : Json) : Json :=
  match comment with
  | some text => json.withField "description" (.str text)
  | none => json

/-- The schema of a column says how the source spells the type. -/
def ofColumn (options : MappingOptions) (column : ResolvedColumn) : Except Error Json := do
  let schema ← ofType options column.type
  return describe column.comment (schema.withField "$comment" (.str column.rawType))

/-- The document of a table. -/
def ofTable (table : MappedTable) : Except Error Json := do
  let properties ← table.columns.mapM fun column => do
    return (column.name, ← ofColumn table.representation column)
  let description := match table.info.comment with
    | some text => [("description", Json.str text)]
    | none => []
  return .obj ([("$schema", .str dialect), ("title", .str table.declaredName)] ++ description ++ [
    ("type", .str "object"), ("properties", Json.ofFields properties),
    ("required", .arr (table.columns.map fun column => .str column.name)),
    ("additionalProperties", .bool false)])

/-- The documents of all tables under their declared names. -/
def documents (tables : List MappedTable) : Except Error (List (String × Json)) := do
  validateTables tables
  tables.mapM fun table => do return (table.declaredName, ← ofTable table)

/-- All documents as one object. -/
def render (tables : List MappedTable) : Except Error String := do
  return (Json.ofFields (← documents tables)).pretty ++ "\n"

end TypedTables.JsonSchema
