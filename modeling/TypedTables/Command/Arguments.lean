import TypedTables.Config

/-!
The command line: what may be given to which command, and what it asks for. Arguments are read from
left to right; the first that is wrong, or that asks for the version or for help, ends the reading.
-/

namespace TypedTables

inductive Format
  | human
  | json
  deriving DecidableEq, Repr

/-- What is given for the mapping of types, beside the configuration. -/
structure MappingArguments where
  config : Option String
  preset : Option String
  choices : Setting → Option String
  failOnUnknownLeaf : Bool

structure GenerateArguments where
  files : List String
  mapping : MappingArguments
  emit : Option Emit
  interfacesFile : Option String
  schemaFile : Option String
  validators : Bool

inductive Command
  | generate (arguments : GenerateArguments)
  | tables (files : List String) (mapping : MappingArguments) (format : Format)
  | parse (file : String)

namespace Command

/-- What options are looked up for: no command yet, or one of the commands. -/
inductive Scope
  | outer
  | generate
  | tables
  | parse
  deriving DecidableEq, Repr

/-- An option without a value. -/
inductive Switch
  | verbose
  | quiet
  | version
  | help
  | validators
  | failOnUnknownLeaf
  deriving DecidableEq, Repr

/-- An option with a value. -/
inductive Slot
  | config
  | preset
  | choice (setting : Setting)
  | emit
  | interfacesFile
  | schemaFile
  | format
  deriving DecidableEq, Repr

inductive Parameter
  | switch (switch : Switch)
  | slot (slot : Slot)

/-- An option under its long name and, if it has one, its letter. -/
structure OptionName where
  long : String
  letter : Option Char
  parameter : Parameter

def commonOptions : List OptionName := [
  ⟨"verbose", some 'v', .switch .verbose⟩,
  ⟨"quiet", some 'q', .switch .quiet⟩,
  ⟨"version", some 'V', .switch .version⟩,
  ⟨"help", some 'h', .switch .help⟩]

def mappingOptions : List OptionName := [
  ⟨"config", some 'c', .slot .config⟩,
  ⟨"preset", none, .slot .preset⟩,
  ⟨"int64", none, .slot (.choice .int64)⟩,
  ⟨"decimal", none, .slot (.choice .decimal)⟩,
  ⟨"datetime", none, .slot (.choice .datetime)⟩,
  ⟨"casing", none, .slot (.choice .casing)⟩,
  ⟨"fail-on-unknown-leaf", none, .switch .failOnUnknownLeaf⟩]

namespace Scope

def options : Scope → List OptionName
  | .outer | .parse => commonOptions
  | .generate => commonOptions ++ mappingOptions ++ [
      ⟨"emit", some 'e', .slot .emit⟩,
      ⟨"ts-out", none, .slot .interfacesFile⟩,
      ⟨"json-schema-out", none, .slot .schemaFile⟩,
      ⟨"validators", none, .switch .validators⟩]
  | .tables => commonOptions ++ mappingOptions ++ [⟨"format", some 'f', .slot .format⟩]

def named? (scope : Scope) (name : String) : Option Parameter :=
  (scope.options.find? fun option => option.long == name).map OptionName.parameter

def lettered? (scope : Scope) (letter : Char) : Option Parameter :=
  (scope.options.find? fun option => option.letter == some letter).map OptionName.parameter

def ofName? (name : String) : Option Scope :=
  [("generate", .generate), ("tables", .tables), ("parse", .parse)].lookup name

/-- How many files the command takes, if there is a bound. -/
def maxFiles? : Scope → Option Nat
  | .outer => some 0
  | .parse => some 1
  | .generate | .tables => none

end Scope

def emitOfName? (name : String) : Option Emit :=
  [("interfaces", .interfaces), ("json-schema", .jsonSchema), ("all", .all)].lookup name

def formatOfName? (name : String) : Option Format :=
  [("human", .human), ("json", .json)].lookup name

/-- Whether an option can have a value. -/
def Slot.takes (value : String) : Slot → Bool
  | .config | .interfacesFile | .schemaFile => value != ""
  | .preset => true
  | .choice setting => (({} : ResolveOptions).choose setting value).isOk
  | .emit => (emitOfName? value).isSome
  | .format => (formatOfName? value).isSome

/-- What has been given so far. -/
structure Given where
  switches : List Switch := []
  values : List (Slot × String) := []
  files : List String := []

/-- Why the reading of arguments ends early. -/
inductive Stop
  | rejected
  | version (scope : Scope)
  | help (scope : Scope)
  deriving DecidableEq, Repr

namespace Given

/-- Only `verbose` may be repeated. -/
def turnOn (given : Given) (scope : Scope) (switch : Switch) : Except Stop Given :=
  match switch with
  | .version => .error (.version scope)
  | .help => .error (.help scope)
  | .verbose => .ok { given with switches := switch :: given.switches }
  | _ =>
    if given.switches.contains switch then .error .rejected
    else .ok { given with switches := switch :: given.switches }

def assign (given : Given) (slot : Slot) (value : String) : Except Stop Given :=
  if slot.takes value && (given.values.lookup slot).isNone then
    .ok { given with values := (slot, value) :: given.values }
  else .error .rejected

def addFile (scope : Scope) (given : Given) (file : String) : Except Stop Given :=
  if file != "" && scope.maxFiles?.all (given.files.length < ·) then
    .ok { given with files := given.files ++ [file] }
  else .error .rejected

/-- Letters behind one dash. What follows the letter of a slot is its value; with nothing there the
slot waits for the next argument. -/
def addLetters (scope : Scope) (given : Given) : List Char → Except Stop (Given × Option Slot)
  | [] => .ok (given, none)
  | letter :: rest =>
    match scope.lettered? letter with
    | none => .error .rejected
    | some (.switch switch) => do addLetters scope (← given.turnOn scope switch) rest
    | some (.slot slot) =>
      match rest with
      | [] => .ok (given, some slot)
      | '=' :: value => do return (← given.assign slot (String.ofList value), none)
      | value => do return (← given.assign slot (String.ofList value), none)

/-- A word behind two dashes, perhaps with a value behind `=`. -/
def addWord (scope : Scope) (given : Given) (word : List Char) : Except Stop (Given × Option Slot) :=
  let name := String.ofList (word.takeWhile (· != '='))
  match scope.named? name, word.dropWhile (· != '=') with
  | some (.switch switch), [] => do return (← given.turnOn scope switch, none)
  | some (.slot slot), [] => .ok (given, some slot)
  | some (.slot slot), _ :: value => do return (← given.assign slot (String.ofList value), none)
  | _, _ => .error .rejected

/-- Reads arguments; `waiting` is a slot that has no value yet. Behind `--` all arguments are
files. -/
def readFrom (scope : Scope) (given : Given) (waiting : Option Slot) :
    List String → Except Stop Given
  | [] => if waiting.isSome then .error .rejected else .ok given
  | arg :: rest =>
    match arg.toList, waiting with
    | ['-'], some slot => do readFrom scope (← given.assign slot arg) none rest
    | '-' :: _ :: _, some _ => .error .rejected
    | _, some slot => do readFrom scope (← given.assign slot arg) none rest
    | ['-', '-'], none => rest.foldlM (addFile scope) given
    | '-' :: '-' :: word, none => do
      let (given, waiting) ← given.addWord scope word
      readFrom scope given waiting rest
    | '-' :: letter :: letters, none => do
      let (given, waiting) ← given.addLetters scope (letter :: letters)
      readFrom scope given waiting rest
    | _, none => do readFrom scope (← given.addFile scope arg) none rest

def has (given : Given) (switch : Switch) : Bool := given.switches.contains switch

def value? (given : Given) (slot : Slot) : Option String := given.values.lookup slot

/-- Choices go by the names that are shown for them. -/
def choice? (given : Given) (setting : Setting) : Option String := do
  let name ← given.value? (.choice setting)
  let options ← (({} : ResolveOptions).choose setting name).toOption
  return options.text setting

def mapping (given : Given) : MappingArguments where
  config := given.value? .config
  preset := given.value? .preset
  choices := given.choice?
  failOnUnknownLeaf := given.has .failOnUnknownLeaf

/-- The command that is asked for, unless something is missing. -/
def command? (given : Given) : Scope → Option Command
  | .outer => none
  | .generate => some (.generate {
      files := given.files
      mapping := given.mapping
      emit := (given.value? .emit).bind emitOfName?
      interfacesFile := given.value? .interfacesFile
      schemaFile := given.value? .schemaFile
      validators := given.has .validators })
  | .tables =>
    some (.tables given.files given.mapping (((given.value? .format).bind formatOfName?).getD .human))
  | .parse => given.files.head?.map .parse

end Given

structure Invocation where
  command : Command
  quiet : Bool

def isDashed (arg : String) : Bool :=
  match arg.toList with
  | '-' :: _ :: _ => true
  | _ => false

/-- The scope that help is asked for. -/
def helpScope? : List String → Option Scope
  | [] => some .outer
  | [name] => if name == "help" then some .outer else Scope.ofName? name
  | _ => none

/-- Reads a whole command line: options, the name of a command, and what is given to it. -/
def ofArguments (args : List String) : Except Stop Invocation := do
  let outer ← Given.readFrom .outer {} none (args.takeWhile isDashed)
  match args.dropWhile isDashed with
  | [] => throw .rejected
  | name :: rest =>
    if (args.takeWhile isDashed).contains "--" then throw .rejected
    if name == "help" then
      match helpScope? rest with
      | some scope => throw (.help scope)
      | none => throw .rejected
    match Scope.ofName? name with
    | none => throw .rejected
    | some scope =>
      let given ← Given.readFrom scope {} none rest
      match given.command? scope with
      | none => throw .rejected
      | some command => return ⟨command, outer.has .quiet || given.has .quiet⟩

end Command

end TypedTables
