import TypedTables.TypeExpr.Basic

/-!
Shapes: what the node of a type tree is for every output format. `SimpleAggregateFunction` stores
its last type argument, a map keeps its value type only, and an enumeration keeps its keys only.
-/

namespace TypedTables

inductive AddressFamily
  | v4
  | v6
  deriving DecidableEq, Repr

/-- Kinds of leaf, whatever they are represented by. -/
inductive Leaf
  /-- Integers up to 32 bits. -/
  | integer
  /-- Integers of 64 bits and more. -/
  | wideInteger
  | float
  | boolean
  | decimal
  | text
  | address (family : AddressFamily)
  | date
  | dateTime
  deriving DecidableEq, Repr

def AddressFamily.name : AddressFamily → String
  | .v4 => "IPv4"
  | .v6 => "IPv6"

/-- The leaf with a canonical name. -/
def Leaf.ofName? : String → Option Leaf
  | "Int8" | "Int16" | "Int32" | "UInt8" | "UInt16" | "UInt32" => some .integer
  | "Int64" | "UInt64" | "Int128" | "UInt128" | "Int256" | "UInt256" => some .wideInteger
  | "Float32" | "Float64" => some .float
  | "Bool" => some .boolean
  | "Decimal" | "Decimal32" | "Decimal64" | "Decimal128" | "Decimal256" => some .decimal
  | "String" | "FixedString" | "UUID" => some .text
  | "IPv4" => some (.address .v4)
  | "IPv6" => some (.address .v6)
  | "Date" | "Date32" => some .date
  | "DateTime" | "DateTime64" => some .dateTime
  | _ => none

inductive Shape
  | nullable (inner : TypeExpr)
  /-- Wrappers that leave the value as it is. -/
  | transparent (inner : TypeExpr)
  | array (item : TypeExpr)
  | tuple (items : List TypeExpr)
  | map (value : TypeExpr)
  | enumeration (keys : List String)
  | leaf (leaf : Leaf)
  | unknown (name : String)

def isEnumName (name : String) : Bool := name == "Enum" || name == "Enum8" || name == "Enum16"

/-- The key that an argument of an enumeration stands for. -/
def TypeArg.key? : TypeArg → Option String
  | .member key _ => some key
  | .string value => some value
  | _ => none

def TypeExpr.shape (ty : TypeExpr) : Shape :=
  let wrapping (wrap : TypeExpr → Shape) (inner : Option TypeExpr) : Shape :=
    (inner.map wrap).getD (.unknown ty.name)
  match ty.name with
  | "Nullable" => wrapping .nullable ty.typeArgs.head?
  | "LowCardinality" => wrapping .transparent ty.typeArgs.head?
  | "SimpleAggregateFunction" => wrapping .transparent ty.typeArgs.getLast?
  | "Array" => wrapping .array ty.typeArgs.head?
  | "Tuple" => .tuple ty.typeArgs
  | "Map" => wrapping .map ty.typeArgs[1]?
  | name =>
    if isEnumName name then
      match ty.args.filterMap TypeArg.key? with
      | [] => .leaf .text
      | keys => .enumeration keys
    else match Leaf.ofName? name with
      | some leaf => .leaf leaf
      | none => .unknown name

end TypedTables
