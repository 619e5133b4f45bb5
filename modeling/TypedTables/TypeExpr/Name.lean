import TypedTables.Text.AsciiCase
import TypedTables.TypeExpr.Basic

/-!
Canonical spellings of type names. A known name is matched in any mix of ASCII letter case, and the
names of standard SQL are folded onto the native ones.
-/

namespace TypedTables

/-- Lower-case spelling and canonical name of every known type. -/
def knownTypeNames : List (String × String) := [
  ("nullable", "Nullable"), ("lowcardinality", "LowCardinality"), ("array", "Array"),
  ("tuple", "Tuple"), ("map", "Map"), ("nested", "Nested"), ("enum", "Enum"), ("enum8", "Enum8"),
  ("enum16", "Enum16"), ("decimal", "Decimal"), ("numeric", "Decimal"), ("dec", "Decimal"),
  ("decimal32", "Decimal32"), ("decimal64", "Decimal64"), ("decimal128", "Decimal128"),
  ("decimal256", "Decimal256"), ("int8", "Int8"), ("tinyint", "Int8"), ("int16", "Int16"),
  ("smallint", "Int16"), ("int32", "Int32"), ("int", "Int32"), ("integer", "Int32"),
  ("int64", "Int64"), ("bigint", "Int64"), ("int128", "Int128"), ("int256", "Int256"),
  ("uint8", "UInt8"), ("uint16", "UInt16"), ("uint32", "UInt32"), ("uint64", "UInt64"),
  ("uint128", "UInt128"), ("uint256", "UInt256"), ("float32", "Float32"), ("float", "Float32"),
  ("real", "Float32"), ("float64", "Float64"), ("double", "Float64"), ("bool", "Bool"),
  ("boolean", "Bool"), ("string", "String"), ("text", "String"), ("varchar", "String"),
  ("char", "String"), ("blob", "String"), ("fixedstring", "FixedString"), ("uuid", "UUID"),
  ("ipv4", "IPv4"), ("ipv6", "IPv6"), ("date", "Date"), ("date32", "Date32"),
  ("datetime", "DateTime"), ("datetime64", "DateTime64"), ("json", "JSON"), ("object", "Object"),
  ("nothing", "Nothing"), ("simpleaggregatefunction", "SimpleAggregateFunction"),
  ("aggregatefunction", "AggregateFunction"), ("unknown", TypeExpr.placeholderName)]

/-- Unknown names stay as they are written. -/
def canonicalName (raw : String) : String :=
  (knownTypeNames.lookup (Text.lower raw)).getD raw

end TypedTables
