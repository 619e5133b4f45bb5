import TypedTables.Command.Run

/-!
The program: a command line run on the file system.
-/

namespace TypedTables

/-- The fault that an error of the file system stands for. Codes of errors come as they are or
negated. -/
def faultOf : IO.Error → FileFault
  | .noFileOrDirectory .. => .notFound
  | .alreadyExists .. => .alreadyExists
  | .inappropriateType _ code _ => if min code (-code) = 21 then .isDirectory else .notDirectory
  | e@(.invalidArgument _ code _) =>
    if min code (-code) = 36 then .nameTooLong else .other (toString e)
  | .userError _ => .other "stream did not contain valid UTF-8"
  | e => .other (toString e)

def catchFault {α : Type} (action : IO α) : IO (Except FileFault α) := do
  return (← action.toBaseIO).mapError faultOf

/-- No entry has the empty path. -/
def isThere (path : String) : IO Bool := do
  if path.isEmpty then return false else ((← IO.currentDir) / path).pathExists

def isDirectory (path : String) : IO Bool := do
  if path.isEmpty then return false else ((← IO.currentDir) / path).isDir

/-- Makes a directory; one that is there stays. -/
def makeDirectory (path : String) : IO Unit := do
  try IO.FS.createDir path
  catch e => if !(← isDirectory path) then throw e

/-- Makes the directory along the parts of a path, last one first, and those around it only where
one of them is missing. -/
def makeDirectories : List String → IO Unit
  | [] => pure ()
  | part :: around => do
    if Path.isIdle part then makeDirectories around
    else
      let path := "/".intercalate (part :: around).reverse
      try makeDirectory path
      catch
      | .noFileOrDirectory .. =>
        makeDirectories around
        makeDirectory path
      | e => throw e

def fileSystem : Host IO where
  read path := catchFault (IO.FS.readFile path)
  write path text := catchFault do
    if let some parent := Path.parent? path then makeDirectories (Path.parts parent).reverse
    IO.FS.writeFile path text
  isThere := isThere
  isDirectory := isDirectory
  names path := do
    match ← catchFault ((← IO.currentDir) / path).readDir with
    | .ok entries => return entries.toList.map fun entry => entry.fileName
    | .error _ => return []
  directories := return Path.outward (Path.steps (← IO.currentDir).toString).reverse
  print := IO.print
  warn := IO.eprint

end TypedTables

open TypedTables

def main (args : List String) : IO UInt32 := do
  let outcome ← Command.run fileSystem args
  match outcome with
  | .failed failure => IO.eprintln ("Error: " ++ failure.message)
  | .rejected => IO.eprint Command.Scope.outer.help
  | .done | .incomplete => pure ()
  return outcome.exitCode.toUInt32
