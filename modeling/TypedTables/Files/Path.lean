import TypedTables.Text.Lines

/-!
Paths as texts: names between slashes.
-/

namespace TypedTables.Path

/-- How many bytes a path can have. -/
def maxSize : Nat := 4095

/-- How many bytes a name can have. -/
def maxNameSize : Nat := 255

/-- The texts between slashes. A path from the root begins with an empty one, and a path that asks
for a directory ends in one. -/
def parts (path : String) : List String := (Text.cut '/' path.toList).map String.ofList

/-- A part that stays where it is. -/
def isIdle (part : String) : Bool := part == "" || part == "."

/-- The parts that lead somewhere. -/
def steps (path : String) : List String := (parts path).filter fun part => !isIdle part

def isAbsolute (path : String) : Bool := path.toList.head? == some '/'

/-- A spelling of the working directory. -/
def isHere (path : String) : Bool :=
  match parts path with
  | "." :: rest => rest.all isIdle
  | _ => false

/-- The entry of a directory under a name. -/
def join (path name : String) : String :=
  match path.toList.getLast? with
  | none => name
  | some '/' => path ++ name
  | some _ => path ++ "/" ++ name

/-- The path from the root along these names. -/
def ofNames (names : List String) : String := "/" ++ "/".intercalate names

/-- The path of the directory that the entry of a path stands in, if the path names one. -/
def parent? (path : String) : Option String :=
  match (((parts path).reverse.dropWhile isIdle).drop 1).dropWhile isIdle with
  | [] => none
  | rest => some ("/".intercalate rest.reverse)

/-- The paths of a directory and of those around it, innermost first; its last name comes first. -/
def outward : List String → List String
  | [] => [ofNames []]
  | name :: rest => ofNames (name :: rest).reverse :: outward rest

end TypedTables.Path
