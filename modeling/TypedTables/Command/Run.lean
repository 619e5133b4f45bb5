import TypedTables.Command.Arguments
import TypedTables.Command.Report
import TypedTables.Encode
import TypedTables.Files.Search
import TypedTables.Render.Interface
import TypedTables.Render.JsonSchema

/-!
Running a command line on a host. Scripts are resolved together, so that a view in one file can
read from a table in another.
-/

namespace TypedTables

/-- The configuration with what is given on the command line in place of its own settings. -/
def Config.override (config : Config) (files : List String) (mapping : MappingArguments) : Config :=
  { config with
    files := if files.isEmpty then config.files else files
    preset := mapping.preset.or config.preset
    choices := fun setting => (mapping.choices setting).or (config.choices setting)
    failOnUnknownLeaf := if mapping.failOnUnknownLeaf then some true else config.failOnUnknownLeaf }

namespace Command

/-- Why a command fails. -/
inductive Failure
  | file (fault : FileFault)
  | malformedConfig
  | config (e : ConfigError)
  | noDestination
  | pattern (e : Pattern.Error)
  | noFiles
  | error (e : Error)

def Failure.message : Failure → String
  | .file fault => fault.message
  | .malformedConfig => "the configuration file does not hold a configuration"
  | .config e => e.message
  | .noDestination =>
    "--emit all needs --ts-out or --json-schema-out; only one artifact can go to stdout"
  | .pattern e => e.message
  | .noFiles =>
    "No DDL files specified. Pass files as arguments or configure `files` in " ++ Config.fileName
  | .error e => e.message

/-- How a command line ends. -/
inductive Outcome
  | done
  /-- Statements were skipped. -/
  | incomplete
  /-- The arguments make no command. -/
  | rejected
  | failed (failure : Failure)

def Outcome.exitCode : Outcome → Nat
  | .done => 0
  | .incomplete => 1
  | .rejected | .failed _ => 2

variable {m : Type → Type} [Monad m]

/-- A part of a command. -/
abbrev Task (m : Type → Type) := ExceptT Failure m

def attempt {ε α : Type} (failure : ε → Failure) (result : Except ε α) : Task m α :=
  ExceptT.mk (pure (result.mapError failure))

def readFile (host : Host m) (path : String) : Task m String := do
  attempt .file (← host.read path)

def readConfig (host : Host m) (path : String) : Task m Config := do
  match Config.ofText? (← readFile host path) with
  | some config => return config
  | none => throw .malformedConfig

/-- The configuration file of the first directory that has one. -/
def firstConfig? (host : Host m) : List String → m (Option String)
  | [] => return none
  | directory :: rest => do
    let path := Path.join directory Config.fileName
    if ← host.isThere path then return some path else firstConfig? host rest

/-- The configuration in the file given, or else in the nearest one, if there is any. -/
def findConfig (host : Host m) (given : Option String) : Task m Config := do
  match given with
  | some path => readConfig host path
  | none =>
    match ← ExceptT.lift (firstConfig? host (← host.directories)) with
    | some path => readConfig host path
    | none => return {}

/-- The files that a name stands for: itself, or those that fit it as a pattern. -/
def filesOf (host : Host m) (name : String) : Task m (List String) := do
  if Pattern.isMeant name then
    let pattern ← attempt .pattern (PathPattern.ofText name)
    ExceptT.lift (pattern.search host)
  else return [name]

def showDiagnostics (host : Host m) (path text : String) (report : Report) : m Unit :=
  let lines := (Text.lines text.toList).toArray
  report.diagnostics.forM fun diagnostic => host.warn (diagnostic.report path lines)

/-- The declarations of a script; what was dropped from it is shown. -/
def readTables (host : Host m) (quiet : Bool) (path : String) : Task m (List TableDecl) := do
  let text ← readFile host path
  let report ← attempt .error (readScript text)
  if !quiet then ExceptT.lift (showDiagnostics host path text report)
  return report.tables.toList

/-- The tables of all files, resolved together. -/
def loadTables (host : Host m) (quiet : Bool) (config : Config) : Task m (List MappedTable) := do
  let options ← attempt .config config.resolveOptions
  let files := (← config.files.mapM (filesOf host)).flatten
  if files.isEmpty then throw .noFiles
  let declarations := (← files.mapM (readTables host quiet)).flatten
  attempt .error (resolve options declarations)

/-- Writes a text to a file or, without one, to the output. -/
def deliver (host : Host m) (file : Option String) (text : String) : Task m Unit := do
  match file with
  | some path => attempt .file (← host.write path text)
  | none => host.print text

/-- Only one text can go to the output. -/
def generateOutputs (host : Host m) (quiet : Bool) (given : GenerateArguments) : Task m Unit := do
  let config ← findConfig host given.mapping.config
  let emit := given.emit.getD config.defaultEmit
  let validators := given.validators || config.emitValidators.getD false
  let interfacesFile := given.interfacesFile.or config.interfacesFile
  let schemaFile := given.schemaFile.or config.schemaFile
  if emit = .all && interfacesFile.isNone && schemaFile.isNone then throw .noDestination
  let tables ← loadTables host quiet (config.override given.files given.mapping)
  if emit != .jsonSchema then
    deliver host interfacesFile (← attempt .error (Interface.render validators tables))
  if emit != .interfaces then
    deliver host schemaFile (← attempt .error (JsonSchema.render tables))
  if !quiet then host.warn ("Generated types for " ++ toString tables.length ++ " table(s)\n")

def listTables (host : Host m) (quiet : Bool) (files : List String) (mapping : MappingArguments)
    (format : Format) : Task m Unit := do
  let config ← findConfig host mapping.config
  let tables ← loadTables host quiet (config.override files mapping)
  host.print (match format with
    | .human => MappedTable.listing tables
    | .json => (Json.arr (tables.map MappedTable.toJson)).pretty ++ "\n")

/-- Shows the declarations of a script and tells whether statements were skipped. -/
def parseFile (host : Host m) (quiet : Bool) (path : String) : Task m Bool := do
  let text ← readFile host path
  let report ← attempt .error (readScript text)
  host.print ((Json.arr (report.tables.toList.map TableDecl.toJson)).pretty ++ "\n")
  if !quiet then ExceptT.lift (showDiagnostics host path text report)
  return report.diagnostics.any fun diagnostic => diagnostic.kind == .skippedStatement

def perform (host : Host m) (invocation : Invocation) : Task m Outcome := do
  match invocation.command with
  | .generate given =>
    generateOutputs host invocation.quiet given
    return .done
  | .tables files mapping format =>
    listTables host invocation.quiet files mapping format
    return .done
  | .parse file => return if ← parseFile host invocation.quiet file then .incomplete else .done

def Scope.title : Scope → String
  | .outer => "chschema"
  | .generate => "chschema-generate"
  | .tables => "chschema-tables"
  | .parse => "chschema-parse"

def version : String := "0.1.0-alpha.1"

def optionLine (option : OptionName) : String :=
  let letter := match option.letter with
    | some c => String.ofList ['-', c, ',', ' ']
    | none => "    "
  let value := match option.parameter with
    | .switch _ => ""
    | .slot _ => " <VALUE>"
  "  " ++ letter ++ "--" ++ option.long ++ value ++ "\n"

def Scope.usage : Scope → String
  | .outer => "Usage: chschema [OPTIONS] <generate|tables|parse|help>\n"
  | .generate => "Usage: chschema generate [OPTIONS] [FILES]...\n"
  | .tables => "Usage: chschema tables [OPTIONS] [FILES]...\n"
  | .parse => "Usage: chschema parse [OPTIONS] <FILE>\n"

def Scope.help (scope : Scope) : String :=
  scope.usage ++ "\nOptions:\n" ++ String.join (scope.options.map optionLine)

def run (host : Host m) (args : List String) : m Outcome := do
  match ofArguments args with
  | .error .rejected => return .rejected
  | .error (.version scope) =>
    host.print (scope.title ++ " " ++ version ++ "\n")
    return .done
  | .error (.help scope) =>
    host.print scope.help
    return .done
  | .ok invocation =>
    match ← (perform host invocation).run with
    | .ok outcome => return outcome
    | .error failure => return .failed failure

end Command

end TypedTables
