/-!
Column types as trees: a name and a list of arguments, of which some are types again. `display`
writes a tree the way a declaration spells it.
-/

namespace TypedTables

mutual

inductive TypeExpr
  | mk (name : String) (args : List TypeArg)

inductive TypeArg
  | type (ty : TypeExpr)
  | number (text : String)
  | string (value : String)
  | member (key : String) (value : Int)

end

namespace TypeExpr

def name : TypeExpr → String
  | .mk name _ => name

def args : TypeExpr → List TypeArg
  | .mk _ args => args

@[simp] theorem name_mk (n : String) (as : List TypeArg) : (TypeExpr.mk n as).name = n := rfl

@[simp] theorem args_mk (n : String) (as : List TypeArg) : (TypeExpr.mk n as).args = as := rfl

/-- A type without arguments. -/
def plain (name : String) : TypeExpr := .mk name []

/-- The name of the type that view columns have until it is inferred. -/
def placeholderName : String := "Unknown"

def placeholder : TypeExpr := plain placeholderName

/-- The type that stands in wherever inference gives up. -/
def text : TypeExpr := plain "String"

def isPlaceholder (ty : TypeExpr) : Bool := ty.name == placeholderName

def nullableName : String := "Nullable"

def nullable (ty : TypeExpr) : TypeExpr := .mk nullableName [.type ty]

instance : Inhabited TypeExpr := ⟨text⟩

end TypeExpr

def TypeArg.type? : TypeArg → Option TypeExpr
  | .type ty => some ty
  | _ => none

/-- The arguments that are types, literals and members left out. -/
def TypeExpr.typeArgs (ty : TypeExpr) : List TypeExpr := ty.args.filterMap TypeArg.type?

/-- A text between single quotes, with a backslash before each single quote and each backslash. -/
def quoted (value : String) : String :=
  String.ofList ('\x27' :: value.toList.flatMap escape ++ ['\x27'])
where
  escape : Char → List Char
    | '\\' => ['\\', '\\']
    | '\x27' => ['\\', '\x27']
    | c => [c]

mutual

def TypeExpr.display : TypeExpr → String
  | .mk name [] => name
  | .mk name (arg :: args) =>
    name ++ "(" ++ ", ".intercalate (arg.display :: TypeArg.displays args) ++ ")"

def TypeArg.display : TypeArg → String
  | .type ty => ty.display
  | .number text => text
  | .string value => quoted value
  | .member key value => quoted key ++ " = " ++ toString value

def TypeArg.displays : List TypeArg → List String
  | [] => []
  | arg :: args => arg.display :: TypeArg.displays args

end

end TypedTables
