import TypedTables.Files.Path

/-!
Trees of files. A place is the list of names from the root to an entry; `Tree.resolve` finds the
place that a path means in a working directory.
-/

namespace TypedTables

/-- Why a file operation fails. -/
inductive FileFault
  | notFound
  | alreadyExists
  | notDirectory
  | isDirectory
  /-- No name can hold the character of code 0. -/
  | zeroInName
  | nameTooLong
  | other (message : String)
  deriving DecidableEq, Repr

def FileFault.message : FileFault → String
  | .notFound => "No such file or directory (os error 2)"
  | .alreadyExists => "File exists (os error 17)"
  | .notDirectory => "Not a directory (os error 20)"
  | .isDirectory => "Is a directory (os error 21)"
  | .zeroInName => "file name contained an unexpected NUL byte"
  | .nameTooLong => "File name too long (os error 36)"
  | .other message => message

abbrev Place := List String

inductive Tree
  | file (text : String)
  | directory (entries : List (String × Tree))

namespace Tree

def empty : Tree := .directory []

def isDirectory : Tree → Bool
  | .file _ => false
  | .directory _ => true

def find? : Place → Tree → Option Tree
  | [], tree => some tree
  | name :: rest, .directory entries => (entries.lookup name).bind (find? rest)
  | _ :: _, .file _ => none

/-- Sets the entry of a name, in its place if there is one and at the end otherwise. -/
def setEntry (name : String) (tree : Tree) : List (String × Tree) → List (String × Tree)
  | [] => [(name, tree)]
  | (n, t) :: rest => if n = name then (name, tree) :: rest else (n, t) :: setEntry name tree rest

/-- Puts an entry at a place. Directories are made on the way; nothing is put below a file. -/
def put : Tree → Place → Tree → Tree
  | _, [], entry => entry
  | .directory entries, name :: rest, entry =>
    let inner := (entries.lookup name).getD empty
    .directory (setEntry name (inner.put rest entry) entries)
  | .file text, _ :: _, _ => .file text

mutual

/-- The files with their places, seen from `place`, whose names are given last one first. -/
def filesFrom (place : Place) : Tree → List (Place × String)
  | .file text => [(place.reverse, text)]
  | .directory entries => entryFiles place entries

def entryFiles (place : Place) : List (String × Tree) → List (Place × String)
  | [] => []
  | (name, tree) :: rest => filesFrom (name :: place) tree ++ entryFiles place rest

end

def files (tree : Tree) : List (Place × String) := filesFrom [] tree

/-- Fails if no entry can have the name. -/
def checkName (name : String) : Except FileFault Unit :=
  if Path.maxNameSize < name.utf8ByteSize then .error .nameTooLong else .ok ()

/-- Fails if the text is no path. -/
def checkPath (path : String) : Except FileFault Unit :=
  if path.toList.contains '\x00' then .error .zeroInName
  else if path = "" then .error .notFound
  else if Path.maxSize < path.utf8ByteSize then .error .nameTooLong
  else .ok ()

def follow (root : Tree) (place : Place) : List String → Except FileFault Place
  | [] => .ok place
  | part :: rest =>
    match root.find? place with
    | none => .error .notFound
    | some (.file _) => .error .notDirectory
    | some (.directory _) =>
      if Path.isIdle part then follow root place rest
      else if part = ".." then follow root place.dropLast rest
      else do
        checkName part
        follow root (place ++ [part]) rest

/-- Where a path starts: at the root or in the working directory. -/
def start (here : Place) (path : String) : Place := if Path.isAbsolute path then [] else here

/-- The place that a path means. Every part is taken from a directory that is there; the place
itself need not be there. -/
def resolve (root : Tree) (here : Place) (path : String) : Except FileFault Place := do
  checkPath path
  root.follow (start here path) (Path.parts path)

def read (root : Tree) (here : Place) (path : String) : Except FileFault String := do
  match root.find? (← root.resolve here path) with
  | none => .error .notFound
  | some (.file text) => .ok text
  | some (.directory _) => .error .isDirectory

/-- What a path leads to, if it leads anywhere. -/
def at? (root : Tree) (here : Place) (path : String) : Option Tree :=
  match root.resolve here path with
  | .ok place => root.find? place
  | .error _ => none

/-- The names in a directory. -/
def names (root : Tree) (here : Place) (path : String) : List String :=
  match root.at? here path with
  | some (.directory entries) => entries.map Prod.fst
  | _ => []

/-- Makes one directory after the other along `steps`; those that are there stay. -/
def makeEach (root : Tree) (place : Place) : List String → Except FileFault Tree
  | [] => .ok root
  | step :: rest =>
    if step = ".." then makeEach root place.dropLast rest
    else do
      checkName step
      let place := place ++ [step]
      match root.find? place with
      | some (.directory _) => makeEach root place rest
      | some (.file _) => .error .alreadyExists
      | none => makeEach (root.put place empty) place rest

/-- Makes the directories that are missing along `steps`. The way to the first of them is followed
and cannot go through a file; from there on each directory is made by itself, and a file in its
place is in the way. -/
def makeDirectories (root : Tree) (place : Place) : List String → Except FileFault Tree
  | [] => .ok root
  | step :: rest =>
    if step = ".." then makeDirectories root place.dropLast rest
    else do
      checkName step
      match root.find? (place ++ [step]) with
      | some (.directory _) => makeDirectories root (place ++ [step]) rest
      | some (.file _) => .error (if rest.isEmpty then .alreadyExists else .notDirectory)
      | none => root.makeEach place (step :: rest)

/-- Makes the directory that the file of a path is to stand in. -/
def makeParent (root : Tree) (here : Place) (path : String) : Except FileFault Tree :=
  match Path.parent? path with
  | none => .ok root
  | some parent => do
    checkPath parent
    root.makeDirectories (start here path) (Path.steps parent)

/-- Writes a file into a directory that is there. -/
def write (root : Tree) (here : Place) (path text : String) : Except FileFault Tree := do
  checkPath path
  let parts := (Path.parts path).reverse.dropWhile (· == "")
  let parent ← root.follow (start here path) (parts.drop 1).reverse
  let place := parent ++ parts.take 1
  match root.find? parent with
  | none => throw .notFound
  | some (.file _) => throw .notDirectory
  | some (.directory _) =>
    let asksForDirectory := path.toList.getLast? == some '/' || parts.head?.any fun part =>
      part == "." || part == ".."
    if asksForDirectory then throw .isDirectory
    (parts.take 1).forM checkName
    if (root.find? place).any isDirectory then throw .isDirectory
    return root.put place (.file text)

end Tree

end TypedTables
