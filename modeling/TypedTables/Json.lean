/-!
JSON values without fractions. Objects keep their fields in the order of insertion; `pretty` lays a
value out with one field or element per line, indented by two spaces.
-/

namespace TypedTables

inductive Json
  | null
  | bool (value : Bool)
  | int (value : Int)
  | str (value : String)
  | arr (items : List Json)
  | obj (fields : List (String × Json))

namespace Json

/-- Sets a field: in its place if there is one with the key, at the end otherwise. -/
def setField (key : String) (value : Json) : List (String × Json) → List (String × Json)
  | [] => [(key, value)]
  | (k, v) :: rest => if k = key then (key, value) :: rest else (k, v) :: setField key value rest

/-- The object that has these fields set one after the other. -/
def ofFields (fields : List (String × Json)) : Json :=
  .obj (fields.foldl (fun fields (key, value) => setField key value fields) [])

/-- The object with a field set; any other value as it is. -/
def withField (json : Json) (key : String) (value : Json) : Json :=
  match json with
  | .obj fields => .obj (setField key value fields)
  | json => json

def ofOption {α : Type} (encode : α → Json) : Option α → Json
  | some a => encode a
  | none => .null

def ofText? : Option String → Json := ofOption .str

def hexDigit (n : Nat) : Char := "0123456789abcdef".toList.getD n '0'

def escapeChar (c : Char) : List Char :=
  match c with
  | '\x22' => ['\\', '\x22']
  | '\\' => ['\\', '\\']
  | '\n' => ['\\', 'n']
  | '\r' => ['\\', 'r']
  | '\t' => ['\\', 't']
  | '\x08' => ['\\', 'b']
  | '\x0c' => ['\\', 'f']
  | c =>
    if c.toNat < 0x20 then ['\\', 'u', '0', '0', hexDigit (c.toNat / 16), hexDigit (c.toNat % 16)]
    else [c]

/-- A text between double quotes. Quotes, backslashes and control characters are escaped. -/
def quote (value : String) : String :=
  String.ofList ('\x22' :: value.toList.flatMap escapeChar ++ ['\x22'])

/-- A line break and the indentation behind it. -/
def lineBreak (depth : Nat) : String := String.ofList ('\n' :: List.replicate (2 * depth) ' ')

mutual

/-- The value laid out at a depth; its first line is not indented. -/
def prettyAt (depth : Nat) : Json → String
  | .null => "null"
  | .bool true => "true"
  | .bool false => "false"
  | .int value => toString value
  | .str value => quote value
  | .arr [] => "[]"
  | .arr (item :: items) =>
    "[" ++ lineBreak (depth + 1) ++ prettyItems (depth + 1) (prettyAt (depth + 1) item) items ++
      lineBreak depth ++ "]"
  | .obj [] => "\x7b\x7d"
  | .obj ((key, value) :: fields) =>
    "\x7b" ++ lineBreak (depth + 1) ++
      prettyFields (depth + 1) (quote key ++ ": " ++ prettyAt (depth + 1) value) fields ++
      lineBreak depth ++ "\x7d"

/-- What is written so far, and the items behind it. -/
def prettyItems (depth : Nat) (written : String) : List Json → String
  | [] => written
  | item :: items =>
    prettyItems depth (written ++ "," ++ lineBreak depth ++ prettyAt depth item) items

def prettyFields (depth : Nat) (written : String) : List (String × Json) → String
  | [] => written
  | (key, value) :: fields =>
    prettyFields depth
      (written ++ "," ++ lineBreak depth ++ quote key ++ ": " ++ prettyAt depth value) fields

end

def pretty (json : Json) : String := prettyAt 0 json

end Json

end TypedTables
