import TypedTables.Options
import TypedTables.TypeExpr.Fold

/-!
TypeScript types: the text of a type, and whether a `|` stands outside its brackets and literals,
so that it needs parentheses before `[]`.
-/

namespace TypedTables

structure TsType where
  text : String
  union : Bool
  deriving DecidableEq, Repr

/-- A scan of TypeScript text: inside a literal, with the quote that ends it and whether the next
character is escaped, or outside with a number of open brackets. -/
inductive UnionScan
  | literal (quote : Char) (escaped : Bool) (depth : Nat)
  | code (depth : Nat)
  deriving DecidableEq, Repr

def UnionScan.step (scan : UnionScan) (c : Char) : UnionScan :=
  match scan with
  | .literal quote true depth => .literal quote false depth
  | .literal quote false depth =>
    if c = '\\' then .literal quote true depth
    else if c = quote then .code depth
    else .literal quote false depth
  | .code depth =>
    match c with
    | '\x27' | '\x22' | '\x60' => .literal c false depth
    | '(' | '[' | '{' | '<' => .code (depth + 1)
    | ')' | ']' | '}' | '>' => .code (depth - 1)
    | _ => .code depth

/-- Whether the rest of a text has a `|` outside literals and brackets. -/
def hasUnionFrom (scan : UnionScan) : List Char → Bool
  | [] => false
  | c :: rest =>
    if scan = .code 0 && c == '|' then true else hasUnionFrom (scan.step c) rest

def hasTopLevelUnion (text : String) : Bool := hasUnionFrom (.code 0) text.toList

namespace TsType

def single (text : String) : TsType := ⟨text, false⟩

/-- A type given by its text alone. -/
def ofText (text : String) : TsType := ⟨text, hasTopLevelUnion text⟩

def nullable (inner : TsType) : TsType := ⟨inner.text ++ " | null", true⟩

def array (item : TsType) : TsType :=
  if item.union then single ("(" ++ item.text ++ ")[]") else single (item.text ++ "[]")

/-- Name of the element of a tuple at an index. -/
def fieldName (i : Nat) : String := "_" ++ toString i

def tuple (items : List TsType) : TsType :=
  match items with
  | [] => single "\x7b\x7d"
  | items =>
    let fields := items.zipIdx.map fun (item, i) => fieldName i ++ ": " ++ item.text
    single ("\x7b " ++ "; ".intercalate fields ++ " \x7d")

def map (value : TsType) : TsType := single ("Record<string, " ++ value.text ++ ">")

def enumeration (keys : List String) : TsType :=
  ⟨" | ".intercalate (keys.map quoted), 1 < keys.length⟩

def leaf (options : MappingOptions) : Leaf → TsType
  | .integer | .float => single "number"
  | .wideInteger => match options.int64 with
    | .wideInteger => single "bigint"
    | .string => single "string"
  | .boolean => single "boolean"
  | .decimal => match options.decimal with
    | .string => single "string"
    | .arbitraryPrecision => single "Decimal"
  | .text => single "string"
  | .address family => single family.name
  | .date | .dateTime => match options.datetime with
    | .string => single "string"
    | .dateType => single "Date"

def unknown (options : MappingOptions) (name : String) : Except Error TsType :=
  if options.failOnUnknownLeaf then .error (.unknownLeaf name) else .ok (single "unknown")

/-- The TypeScript type of each shape; what `intercept` answers goes before. -/
def fold (options : MappingOptions) (intercept : TypeExpr → Nat → Option TsType) :
    TypeFold TsType where
  nullable := nullable
  array := array
  tuple := tuple
  map := map
  enumeration := enumeration
  leaf := leaf options
  unknown := unknown options
  intercept := intercept

end TsType

/-- The type of a column's tree, with plugins asked at every node. -/
def mapType (options : ResolveOptions) (table column : String) (ty : TypeExpr) :
    Except Error String := do
  let intercept := fun ty depth =>
    let site := ⟨table, column, depth, options.toMappingOptions⟩
    (options.plugins.findSome? fun plugin => plugin ty site).map TsType.ofText
  let mapped ← (TsType.fold options.toMappingOptions intercept).run ty
  return mapped.text

end TypedTables
