import TypedTables.Render.Names

/-!
Validators: zod expressions that accept what the interface of a table describes.
-/

namespace TypedTables.Validator

/-- Objects with more fields than this take one line for each. -/
def maxInlineFields : Nat := 3

/-- Objects whose one-line form has more bytes than this take one line for each field. -/
def maxInlineWidth : Nat := 80

def hasLineBreak (text : String) : Bool := text.toList.contains '\n'

/-- The text with every line but the first moved two columns to the right. -/
def indent (text : String) : String :=
  String.ofList (text.toList.flatMap fun c => if c = '\n' then ['\n', ' ', ' '] else [c])

def inlineObject (entries : List String) : String :=
  "z.object(\x7b " ++ ", ".intercalate entries ++ " \x7d)"

def blockObject (entries : List String) : String :=
  "z.object(\x7b\n" ++ String.join (entries.map fun entry => "  " ++ indent entry ++ ",\n") ++ "\x7d)"

/-- The expression of an object with these keys and expressions. -/
def object (fields : List (String × String)) : String :=
  match fields with
  | [] => "z.object(\x7b\x7d)"
  | fields =>
    let entries := fields.map fun (key, expr) => propertyKey key ++ ": " ++ expr
    if !entries.any hasLineBreak && fields.length ≤ maxInlineFields &&
        (inlineObject entries).utf8ByteSize ≤ maxInlineWidth then inlineObject entries
    else blockObject entries

def leaf (options : MappingOptions) : Leaf → String
  | .integer | .float => "z.number()"
  | .wideInteger => match options.int64 with
    | .wideInteger => "z.bigint()"
    | .string => "z.string()"
  | .boolean => "z.boolean()"
  | .decimal => match options.decimal with
    | .string => "z.string()"
    | .arbitraryPrecision => "z.instanceof(Decimal)"
  | .text => "z.string()"
  | .address .v4 => "z.string().ip(\x7b version: 'v4' \x7d)"
  | .address .v6 => "z.string().ip(\x7b version: 'v6' \x7d)"
  | .date | .dateTime => match options.datetime with
    | .string => "z.string()"
    | .dateType => "z.date()"

/-- The validator of each shape. Whether unknown types are allowed was settled by resolution. -/
def fold (options : MappingOptions) : TypeFold String where
  nullable inner := inner ++ ".nullable()"
  array item := "z.array(" ++ item ++ ")"
  tuple items := object (items.zipIdx.map fun (item, i) => (TsType.fieldName i, item))
  map value := "z.record(z.string(), " ++ value ++ ")"
  enumeration keys := "z.enum([" ++ ", ".intercalate (keys.map quoted) ++ "])"
  leaf := leaf options
  unknown _ := .ok "z.unknown()"

def ofType (options : MappingOptions) (ty : TypeExpr) : Except Error String :=
  (fold options).run ty

def ofTable (table : MappedTable) : Except Error String := do
  let fields ← table.columns.mapM fun column => do
    return (column.name, ← ofType table.representation column.type)
  return object fields

end TypedTables.Validator
