import TypedTables.Text.AsciiCase
import TypedTables.TypeExpr.Basic

/-!
Options of resolution: how wide integers, decimals and dates are represented, how column names are
spelled, what happens to unknown types, and plugins that answer for types of their own.

Every choice has a name that is shown, and further names under which it is known. Names are matched
in any mix of ASCII letter case.
-/

namespace TypedTables

inductive IntegerForm
  | wideInteger
  | string
  deriving DecidableEq, Repr

inductive DecimalForm
  | string
  | arbitraryPrecision
  deriving DecidableEq, Repr

inductive DateTimeForm
  | string
  | dateType
  deriving DecidableEq, Repr

inductive Casing
  | preserve
  | camel
  deriving DecidableEq, Repr

/-- What a name is given for. -/
inductive Setting
  | int64
  | decimal
  | datetime
  | casing
  deriving DecidableEq, Repr

/-- A name that no choice of a setting is known by. -/
structure OptionError where
  setting : Setting
  name : String
  deriving DecidableEq, Repr

def OptionError.message (e : OptionError) : String :=
  match e.setting with
  | .int64 => "Unknown int64 representation: '" ++ e.name ++ "'. Supported values: bigint, string."
  | .decimal =>
    "Unknown decimal representation: '" ++ e.name ++ "'. Supported values: string, decimal."
  | .datetime =>
    "Unknown datetime representation: '" ++ e.name ++ "'. Supported values: string, date."
  | .casing => "Unknown identifier casing: '" ++ e.name ++ "'. Supported values: preserve, camel."

/-- The choice known by a name. -/
def chooseNamed {α : Type} (setting : Setting) (choices : List (String × α)) (name : String) :
    Except OptionError α :=
  match choices.lookup (Text.lower name) with
  | some choice => .ok choice
  | none => .error ⟨setting, name⟩

namespace IntegerForm

def text : IntegerForm → String
  | .wideInteger => "bigint"
  | .string => "string"

def tag : IntegerForm → String
  | .wideInteger => "wide-integer"
  | .string => "string"

def ofName : String → Except OptionError IntegerForm :=
  chooseNamed .int64 [("bigint", .wideInteger), ("wide-integer", .wideInteger), ("wide", .wideInteger),
    ("string", .string)]

end IntegerForm

namespace DecimalForm

def text : DecimalForm → String
  | .string => "string"
  | .arbitraryPrecision => "decimal"

def tag : DecimalForm → String
  | .string => "string"
  | .arbitraryPrecision => "arbitrary-precision"

def ofName : String → Except OptionError DecimalForm :=
  chooseNamed .decimal [("string", .string), ("decimal", .arbitraryPrecision),
    ("arbitrary-precision", .arbitraryPrecision)]

end DecimalForm

namespace DateTimeForm

def text : DateTimeForm → String
  | .string => "string"
  | .dateType => "date"

def tag : DateTimeForm → String
  | .string => "string"
  | .dateType => "date-type"

def ofName : String → Except OptionError DateTimeForm :=
  chooseNamed .datetime [("string", .string), ("date", .dateType), ("date-type", .dateType)]

end DateTimeForm

namespace Casing

def text : Casing → String
  | .preserve => "preserve"
  | .camel => "camel"

def ofName : String → Except OptionError Casing :=
  chooseNamed .casing [("preserve", .preserve), ("camel", .camel), ("camelcase", .camel)]

end Casing

/-- The options that every output format has to agree on. -/
structure MappingOptions where
  int64 : IntegerForm := .wideInteger
  decimal : DecimalForm := .string
  datetime : DateTimeForm := .string
  failOnUnknownLeaf : Bool := false
  deriving DecidableEq, Repr

/-- Where a plugin is asked: the source names of table and column, and the depth of the node. -/
structure PluginSite where
  table : String
  column : String
  depth : Nat
  options : MappingOptions

/-- A plugin gives the mapped type of a node or passes. -/
abbrev Plugin := TypeExpr → PluginSite → Option String

/-- Plugins are asked in their order. -/
structure ResolveOptions extends MappingOptions where
  casing : Casing := .preserve
  plugins : List Plugin := []

namespace ResolveOptions

/-- The plugin is asked after those that are there already. -/
def withPlugin (options : ResolveOptions) (plugin : Plugin) : ResolveOptions :=
  { options with plugins := options.plugins ++ [plugin] }

/-- The options with the choice that a name makes for a setting. -/
def choose (options : ResolveOptions) (setting : Setting) (name : String) :
    Except OptionError ResolveOptions :=
  match setting with
  | .int64 => do return { options with int64 := ← IntegerForm.ofName name }
  | .decimal => do return { options with decimal := ← DecimalForm.ofName name }
  | .datetime => do return { options with datetime := ← DateTimeForm.ofName name }
  | .casing => do return { options with casing := ← Casing.ofName name }

/-- The name of the choice made for a setting. -/
def text (options : ResolveOptions) : Setting → String
  | .int64 => options.int64.text
  | .decimal => options.decimal.text
  | .datetime => options.datetime.text
  | .casing => options.casing.text

/-- One line that shows every option, plugins by their number. -/
def summary (options : ResolveOptions) : String :=
  let int64 := match options.int64 with
    | .wideInteger => "WideInteger"
    | .string => "String"
  let decimal := match options.decimal with
    | .string => "String"
    | .arbitraryPrecision => "ArbitraryPrecision"
  let datetime := match options.datetime with
    | .string => "String"
    | .dateType => "DateType"
  let casing := match options.casing with
    | .preserve => "Preserve"
    | .camel => "Camel"
  let strict := if options.failOnUnknownLeaf then "true" else "false"
  "ResolveOptions \x7b int64: " ++ int64 ++ ", decimal: " ++ decimal ++ ", datetime: " ++ datetime ++
    ", casing: " ++ casing ++ ", fail_on_unknown_leaf: " ++ strict ++ ", plugins: " ++
    toString options.plugins.length ++ " \x7d"

end ResolveOptions

/-- A plugin given by data: where all conditions that are present hold, it answers with a text in
which the marker `{type}` stands for the node. -/
structure Rule where
  type : Option String
  table : Option String
  column : Option String
  int64 : Option String
  depth : Option Nat
  minDepth : Option Nat
  output : String

namespace Rule

def marker : List Char := ['\x7b', 't', 'y', 'p', 'e', '\x7d']

/-- The text with every marker replaced. -/
def fill (replacement : List Char) (done : List Char) : List Char → List Char
  | [] => done.reverse
  | c :: rest =>
    if marker.isPrefixOf (c :: rest) then
      fill replacement (replacement.reverse ++ done) (rest.drop (marker.length - 1))
    else fill replacement (c :: done) rest
  termination_by cs => cs.length
  decreasing_by all_goals simp only [List.length_drop, List.length_cons]; omega

def applies (rule : Rule) (ty : TypeExpr) (site : PluginSite) : Bool :=
  rule.type.all (· == ty.name) && rule.table.all (· == site.table) &&
    rule.column.all (· == site.column) && rule.int64.all (· == site.options.int64.text) &&
    rule.depth.all (· == site.depth) && rule.minDepth.all (· ≤ site.depth)

def plugin (rule : Rule) : Plugin := fun ty site =>
  if rule.applies ty site then
    some (String.ofList (fill ty.display.toList [] rule.output.toList))
  else none

end Rule

end TypedTables
