import TypedTables.Options
import TypedTables.Toml.Reader

/-!
Configuration files: which files to read, how to resolve them, and where the results go.
-/

namespace TypedTables

def Setting.key : Setting → String
  | .int64 => "int64"
  | .decimal => "decimal"
  | .datetime => "datetime"
  | .casing => "casing"

/-- All settings, in the order in which they are chosen. -/
def Setting.all : List Setting := [.int64, .decimal, .datetime, .casing]

/-- Named bundles of options. -/
inductive Preset
  | default
  | strict
  | jsonSafe
  deriving DecidableEq, Repr

namespace Preset

def ofName? (name : String) : Option Preset :=
  [("default", .default), ("strict", .strict), ("json-safe", .jsonSafe), ("jsonsafe", .jsonSafe),
    ("json", .jsonSafe)].lookup (Text.lower name)

def options : Preset → ResolveOptions
  | .default => {}
  | .strict => { decimal := .arbitraryPrecision, datetime := .dateType, failOnUnknownLeaf := true }
  | .jsonSafe => { int64 := .string }

end Preset

/-- What is generated. -/
inductive Emit
  | interfaces
  | jsonSchema
  | all
  deriving DecidableEq, Repr

/-- Why a configuration gives no options. -/
inductive ConfigError
  | unknownPreset (name : String)
  | option (e : OptionError)
  deriving DecidableEq, Repr

def ConfigError.message : ConfigError → String
  | .unknownPreset name =>
    "Unknown preset: '" ++ name ++ "'. Supported presets: default, strict, json-safe."
  | .option e => e.message

structure Config where
  files : List String := []
  preset : Option String := none
  choices : Setting → Option String := fun _ => none
  failOnUnknownLeaf : Option Bool := none
  emitValidators : Option Bool := none
  interfacesFile : Option String := none
  schemaFile : Option String := none

namespace Config

def fileName : String := "chschema.toml"

/-- Both are emitted only if both have a file. -/
def defaultEmit (config : Config) : Emit :=
  match config.interfacesFile, config.schemaFile with
  | some _, some _ => .all
  | none, some _ => .jsonSchema
  | _, none => .interfaces

/-- The preset's options with every choice made on top of them. -/
def resolveOptions (config : Config) : Except ConfigError ResolveOptions := do
  let preset ← match config.preset with
    | none => pure Preset.default
    | some name =>
      match Preset.ofName? name with
      | some preset => pure preset
      | none => throw (.unknownPreset name)
  let options ← Setting.all.foldlM (fun options setting =>
    match config.choices setting with
    | none => .ok options
    | some name => (options.choose setting name).mapError .option) preset.options
  return { options with
    failOnUnknownLeaf := config.failOnUnknownLeaf.getD options.failOnUnknownLeaf }

open Toml (Value)

def text? : Value → Option String
  | .string text => some text
  | _ => none

def flag? : Value → Option Bool
  | .boolean value => some value
  | _ => none

def texts? : Value → Option (List String)
  | .array items => items.mapM text?
  | _ => none

/-- The value of a key if it is there; fails if it is not of the kind that `read?` takes. -/
def field? {α : Type} (fields : List (String × Value)) (key : String) (read? : Value → Option α) :
    Option (Option α) :=
  match fields.lookup key with
  | none => some none
  | some value => (read? value).map some

/-- The value of an array at an index if it is there. -/
def item? {α : Type} (items : List Value) (index : Nat) (read? : Value → Option α) :
    Option (Option α) :=
  match items[index]? with
  | none => some none
  | some value => (read? value).map some

/-- The files of interfaces and of JSON Schema, by name or in this order. A date or a time counts as
a table that names neither. -/
def outputs? : Value → Option (Option String × Option String)
  | .table fields => return (← field? fields "typescript" text?, ← field? fields "json-schema" text?)
  | .array items => return (← item? items 0 text?, ← item? items 1 text?)
  | .moment => some (none, none)
  | _ => none

/-- Keys without a meaning are ignored. -/
def ofFields? (fields : List (String × Value)) : Option Config := do
  let choice (setting : Setting) := field? fields setting.key text?
  let int64 ← choice .int64
  let decimal ← choice .decimal
  let datetime ← choice .datetime
  let casing ← choice .casing
  let outputs := (← field? fields "output" outputs?).getD (none, none)
  return {
    files := (← field? fields "files" texts?).getD []
    preset := ← field? fields "preset" text?
    choices := fun setting => match setting with
      | .int64 => int64
      | .decimal => decimal
      | .datetime => datetime
      | .casing => casing
    failOnUnknownLeaf := ← field? fields "fail-on-unknown-leaf" flag?
    emitValidators := ← field? fields "emit-validators" flag?
    interfacesFile := outputs.1
    schemaFile := outputs.2 }

def ofText? (text : String) : Option Config := (Toml.fieldsOf? text).bind ofFields?

end Config

end TypedTables
