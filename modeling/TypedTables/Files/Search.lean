import TypedTables.Files.Host
import TypedTables.Files.Pattern

/-!
The paths that fit a pattern of paths: one pattern per component, each of them tried on the entries
of the directories that the components before it lead to.
-/

namespace TypedTables

structure PathPattern where
  isAbsolute : Bool
  components : List Pattern
  /-- A pattern that ends in a slash fits directories only. -/
  needsDirectory : Bool

namespace PathPattern

/-- The texts between the slashes of a pattern; a slash at either end stands between none. -/
def componentTexts (pattern : String) : List String :=
  let parts := Path.parts pattern
  let parts := if Path.isAbsolute pattern then parts.drop 1 else parts
  if parts.getLast? == some "" then parts.dropLast else parts

/-- The pattern has to be right as a whole and in every component. -/
def ofText (pattern : String) : Except Pattern.Error PathPattern := do
  discard (Pattern.ofText pattern)
  return {
    isAbsolute := Path.isAbsolute pattern
    components := ← (componentTexts pattern).mapM Pattern.ofText
    needsDirectory := pattern.toList.getLast? == some '/' }

variable {m : Type → Type} [Monad m]

/-- The path of an entry of a directory. Entries of the working directory are their own paths. -/
def enter (path name : String) : String := if Path.isHere path then name else Path.join path name

/-- The paths behind `path` that fit the components, in the order of their names, a directory
before its entries. `fuel` bounds the depth of the search. -/
def searchFrom (host : Host m) (needsDirectory : Bool) :
    (fuel : Nat) → List Pattern → (path : String) → m (List String)
  | _, [], path => do
    if needsDirectory && !(← host.isDirectory path) then return [] else return [path]
  | 0, _ :: _, _ => return []
  | fuel + 1, pattern :: rest, path => do
    match pattern.name? with
    | some name =>
      let next := enter path name
      let isThere ← if name == "." || name == ".." then host.isDirectory path else host.isThere next
      if isThere then searchFrom host needsDirectory fuel rest next else return []
    | none =>
      if !(← host.isDirectory path) then return []
      let dots := if pattern.head? == some (.just '.') then ["..", "."] else []
      let around ← (dots.filter fun name => pattern.fits name.toList).mapM fun name =>
        searchFrom host needsDirectory fuel rest (Path.join path name)
      let names := (← host.names path).mergeSort fun a b => decide (a ≤ b)
      let within ← names.mapM fun name => do
        let next := enter path name
        if pattern.isDeep then
          let after := rest.dropWhile Pattern.isDeep
          let isDirectory ← host.isDirectory next
          let found ← match after with
            | [] => pure (if isDirectory then [next] else [])
            | pattern :: rest =>
              if pattern.fits name.toList then searchFrom host needsDirectory fuel rest next
              else pure []
          let below ←
            if isDirectory then searchFrom host needsDirectory fuel (pattern :: after) next
            else pure []
          return found ++ below
        else if pattern.fits name.toList then searchFrom host needsDirectory fuel rest next
        else return []
      return (around ++ within).flatten

/-- No path that is found is longer than paths can be, and so no search goes deeper. -/
def search (host : Host m) (pattern : PathPattern) : m (List String) :=
  searchFrom host pattern.needsDirectory (Path.maxSize + pattern.components.length)
    pattern.components (if pattern.isAbsolute then "/" else ".")

end PathPattern

end TypedTables
