import TypedTables.Json
import TypedTables.Resolve
import TypedTables.Script

/-!
JSON forms of types, declarations and resolved tables, as the command line prints them.
-/

namespace TypedTables

mutual

/-- Fields of a type; the arguments are left out if there are none. -/
def TypeExpr.fields : TypeExpr → List (String × Json)
  | .mk name [] => [("name", .str name)]
  | .mk name (arg :: args) =>
    [("name", .str name), ("args", .arr (arg.toJson :: TypeArg.listToJson args))]

def TypeArg.toJson : TypeArg → Json
  | .type ty => .obj (("kind", .str "type") :: ty.fields)
  | .number text => .obj [("kind", .str "number"), ("value", .str text)]
  | .string value => .obj [("kind", .str "string"), ("value", .str value)]
  | .member key value =>
    .obj [("kind", .str "enum_member"), ("key", .str key), ("value", .int value)]

def TypeArg.listToJson : List TypeArg → List Json
  | [] => []
  | arg :: args => arg.toJson :: TypeArg.listToJson args

end

def TypeExpr.toJson (ty : TypeExpr) : Json := .obj ty.fields

def DefaultKind.toJson : DefaultKind → Json
  | .default => .str "DEFAULT"
  | .materialized => .str "MATERIALIZED"
  | .alias => .str "ALIAS"
  | .ephemeral => .str "EPHEMERAL"

def ColumnDecl.toJson (column : ColumnDecl) : Json := .obj [
  ("name", .str column.name),
  ("ty", column.type.toJson),
  ("raw_type_text", .str column.rawType),
  ("comment", .ofText? column.comment),
  ("default_expr", .ofText? column.defaultExpr),
  ("default_kind", .ofOption DefaultKind.toJson column.defaultKind)]

def SelectItem.toJson (item : SelectItem) : Json := .obj [
  ("name", .str item.name),
  ("alias", .ofText? item.alias?),
  ("source_column", .ofText? item.sourceColumn),
  ("aggregate_func", .ofText? item.function)]

def Subquery.toJson (sub : Subquery) : Json := .obj [
  ("name", .str sub.name),
  ("source_table", .ofText? sub.source),
  ("items", .arr (sub.items.map SelectItem.toJson))]

def ViewQuery.toJson (query : ViewQuery) : Json := .obj [
  ("source_table", .ofText? query.source),
  ("select_items", .arr (query.items.map SelectItem.toJson)),
  ("cte", .ofOption Subquery.toJson query.subquery)]

def TableKind.toJson : TableKind → Json
  | .table => .str "table"
  | .materializedView => .str "materialized_view"

def TableDecl.toJson (table : TableDecl) : Json := .obj [
  ("name", .str table.name),
  ("database", .ofText? table.database),
  ("kind", table.kind.toJson),
  ("columns", .arr (table.columns.map ColumnDecl.toJson)),
  ("engine", .ofText? table.engine),
  ("partition_by", .ofText? table.partitionBy),
  ("order_by", .ofText? table.orderBy),
  ("primary_key", .ofText? table.primaryKey),
  ("comment", .ofText? table.comment),
  ("materialized_view", .ofOption ViewQuery.toJson table.query)]

def ResolvedColumn.toJson (column : ResolvedColumn) : Json := .obj [
  ("name", .str column.name),
  ("source_name", .str column.sourceName),
  ("resolved_type", column.type.toJson),
  ("mapped_type", .str column.mappedType),
  ("raw_type_text", .str column.rawType),
  ("comment", .ofText? column.comment)]

def TableMeta.toJson (info : TableMeta) : Json := .obj [
  ("engine", .ofText? info.engine),
  ("partition_by", .ofText? info.partitionBy),
  ("order_by", .ofText? info.orderBy),
  ("comment", .ofText? info.comment)]

def MappingOptions.toJson (options : MappingOptions) : Json := .obj [
  ("int64", .str options.int64.tag),
  ("decimal", .str options.decimal.tag),
  ("datetime", .str options.datetime.tag),
  ("fail_on_unknown_leaf", .bool options.failOnUnknownLeaf)]

def MappedTable.toJson (table : MappedTable) : Json := .obj [
  ("declared_name", .str table.declaredName),
  ("source_name", .str table.sourceName),
  ("columns", .arr (table.columns.map ResolvedColumn.toJson)),
  ("meta", table.info.toJson),
  ("representation", table.representation.toJson)]

end TypedTables
