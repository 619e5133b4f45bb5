import TypedTables.Render.Validator
import TypedTables.Text.Lines

/-!
TypeScript interfaces, one for each table, and what they need: imports and brands. A validator may
follow each interface.
-/

namespace TypedTables.Interface

/-- The text with each `*/` broken up, so that it cannot end a comment; `done` is what is written
so far, last character first. -/
def escapeDoc (done : List Char) : List Char → List Char
  | '*' :: '/' :: rest => escapeDoc ('/' :: '\\' :: '*' :: done) rest
  | c :: rest => escapeDoc (c :: done) rest
  | [] => done.reverse

def docText (text : List Char) : String := String.ofList (escapeDoc [] text)

/-- The lines that a paragraph of a comment takes; an empty one takes an empty line. -/
def docLines (paragraph : String) : List (List Char) :=
  match paragraph.toList with
  | [] => [[]]
  | cs => Text.lines cs

def docLine (indent : String) (line : List Char) : String :=
  match line with
  | [] => indent ++ " *\n"
  | line => indent ++ " * " ++ docText line ++ "\n"

/-- A doc comment: one paragraph stands on one line, more than one take a line each or more. -/
def doc (indent : String) (paragraphs : List String) : String :=
  match paragraphs with
  | [paragraph] => indent ++ "/** " ++ docText paragraph.toList ++ " */\n"
  | paragraphs =>
    indent ++ "/**\n" ++ String.join ((paragraphs.flatMap docLines).map (docLine indent)) ++ indent ++
      " */\n"

def code (text : String) : String := "`" ++ text ++ "`"

/-- What the comment of a table says: its name, its comment, and how it is stored. -/
def tableDoc (table : MappedTable) : List String :=
  let comment := match table.info.comment with
    | some text => ["", text]
    | none => []
  let storage := [("Engine", table.info.engine), ("Partition by", table.info.partitionBy),
    ("Order by", table.info.orderBy)].filterMap fun (label, value) =>
      value.map fun text => label ++ ": " ++ code text
  ("Table " ++ code table.sourceName) :: comment ++ (if storage.isEmpty then [] else "" :: storage)

def columnDoc (column : ResolvedColumn) : List String :=
  let source := "Source type: " ++ code column.rawType
  match column.comment with
  | some text => [text, "", source]
  | none => [source]

def field (column : ResolvedColumn) : String :=
  doc "  " (columnDoc column) ++ "  " ++ propertyKey column.name ++ ": " ++ column.mappedType ++ ";\n"

def ofTable (table : MappedTable) : String :=
  doc "" (tableDoc table) ++ "export interface " ++ table.declaredName ++ " \x7b\n" ++
    String.join (table.columns.map field) ++ "\x7d\n"

/-- Declarations that the columns of a table refer to. -/
structure Usage where
  decimal : Bool := false
  ipv4 : Bool := false
  ipv6 : Bool := false
  deriving DecidableEq, Repr

namespace Usage

def merge (a b : Usage) : Usage := ⟨a.decimal || b.decimal, a.ipv4 || b.ipv4, a.ipv6 || b.ipv6⟩

/-- The leaves that a type reaches. -/
def fold : TypeFold Usage where
  nullable inner := inner
  array item := item
  tuple items := items.foldl merge {}
  map value := value
  enumeration _ := {}
  leaf leaf := ⟨leaf == .decimal, leaf == .address .v4, leaf == .address .v6⟩
  unknown _ := .ok {}

/-- Decimals need a declaration only where they are represented by a type of their own. -/
def ofColumn (options : MappingOptions) (column : ResolvedColumn) : Except Error Usage := do
  let usage ← fold.run column.type
  return { usage with decimal := usage.decimal && options.decimal == .arbitraryPrecision }

def ofTable (table : MappedTable) : Except Error Usage := do
  return (← table.columns.mapM (ofColumn table.representation)).foldl merge {}

def ofTables (tables : List MappedTable) : Except Error Usage := do
  return (← tables.mapM ofTable).foldl merge {}

end Usage

def header : String := "// Generated by chschema. Do not edit by hand.\n"

/-- Lines with an empty line before them, if there are any. -/
def block (lines : List String) : String :=
  if lines.isEmpty then "" else "\n" ++ String.join (lines.map (· ++ "\n"))

def imports (validators : Bool) (usage : Usage) : String :=
  block ((if validators then ["import \x7b z \x7d from 'zod';"] else []) ++
    (if usage.decimal then ["import Decimal from 'decimal.js';"] else []))

def brand (family : AddressFamily) : String :=
  "export type " ++ family.name ++ " = string & \x7b readonly __brand: '" ++ family.name ++ "' \x7d;"

def brands (usage : Usage) : String :=
  block ((if usage.ipv4 then [brand .v4] else []) ++ (if usage.ipv6 then [brand .v6] else []))

def validator (table : MappedTable) (expr : String) : String :=
  "\nexport const " ++ table.declaredName ++ "Schema = " ++ expr ++ ";\n"

/-- An interface and perhaps its validator, each with an empty line before it. -/
def declaration (validators : Bool) (table : MappedTable) : Except Error String := do
  let schema ← if validators then validator table <$> Validator.ofTable table else pure ""
  return "\n" ++ ofTable table ++ schema

/-- The interfaces of all tables. Nothing is written if any table cannot be rendered. -/
def render (validators : Bool) (tables : List MappedTable) : Except Error String := do
  validateTables tables
  let usage ← Usage.ofTables tables
  let sections ← tables.mapM (declaration validators)
  return header ++ imports validators usage ++ brands usage ++ String.join sections

end TypedTables.Interface
