import TypedTables.Files.Tree

/-!
What commands ask of the machine they run on, and workspaces, which are such machines as plain
values.
-/

namespace TypedTables

/-- Files and the two output streams. Paths are seen from the working directory. -/
structure Host (m : Type → Type) where
  read : String → m (Except FileFault String)
  /-- Writes a file and makes the directories that it stands in. -/
  write : String → String → m (Except FileFault Unit)
  isThere : String → m Bool
  isDirectory : String → m Bool
  /-- The names in a directory, in no particular order. -/
  names : String → m (List String)
  /-- The working directory and the directories around it, innermost first. -/
  directories : m (List String)
  print : String → m Unit
  warn : String → m Unit

/-- Files, a working directory, and what has been written to the two output streams. -/
structure Workspace where
  root : Tree
  here : Place
  printed : String := ""
  warned : String := ""

namespace Workspace

def read (workspace : Workspace) (path : String) : Except FileFault String :=
  workspace.root.read workspace.here path

/-- The directories stay also if the file cannot be written. -/
def write (workspace : Workspace) (path text : String) : Except FileFault Unit × Workspace :=
  match workspace.root.makeParent workspace.here path with
  | .error fault => (.error fault, workspace)
  | .ok root =>
    match root.write workspace.here path text with
    | .error fault => (.error fault, { workspace with root })
    | .ok root => (.ok (), { workspace with root })

def host : Host (StateM Workspace) where
  read path := return (← get).read path
  write path text := modifyGet fun workspace => workspace.write path text
  isThere path := return ((← get).root.at? (← get).here path).isSome
  isDirectory path := return ((← get).root.at? (← get).here path).any Tree.isDirectory
  names path := return (← get).root.names (← get).here path
  directories := return Path.outward (← get).here.reverse
  print text := modify fun workspace => { workspace with printed := workspace.printed ++ text }
  warn text := modify fun workspace => { workspace with warned := workspace.warned ++ text }

end Workspace

end TypedTables
