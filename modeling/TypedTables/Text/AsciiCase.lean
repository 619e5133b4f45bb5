/-!
Upper and lower case of ASCII letters; all other characters stay as they are.
-/

namespace TypedTables.Text

def lower (s : String) : String := String.ofList (s.toList.map Char.toLower)

def upper (s : String) : String := String.ofList (s.toList.map Char.toUpper)

/-- Equality up to the case of ASCII letters. -/
def sameIgnoringCase (a b : String) : Bool := lower a == lower b

end TypedTables.Text
