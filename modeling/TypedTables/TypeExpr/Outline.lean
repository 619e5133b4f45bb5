import TypedTables.TypeExpr.Fold

/-!
Outlines: one short text for the structure of a type. Wrappers are written by a letter and angle
brackets, leaves by their names, unknown types by a question mark and theirs.
-/

namespace TypedTables

def Leaf.name : Leaf → String
  | .integer => "Integer"
  | .wideInteger => "WideInteger"
  | .float => "Float"
  | .boolean => "Boolean"
  | .decimal => "Decimal"
  | .text => "Text"
  | .address family => family.name
  | .date => "Date"
  | .dateTime => "DateTime"

def outlineFold : TypeFold String where
  nullable inner := "N<" ++ inner ++ ">"
  array item := "A<" ++ item ++ ">"
  tuple items := "T<" ++ ",".intercalate items ++ ">"
  map value := "M<" ++ value ++ ">"
  enumeration keys := "E<" ++ "|".intercalate keys ++ ">"
  leaf := Leaf.name
  unknown name := .ok ("?" ++ name)

def TypeExpr.outline (ty : TypeExpr) : Except Error String := outlineFold.run ty

end TypedTables
