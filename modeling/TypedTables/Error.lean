import TypedTables.Token.Basic

/-!
Ceilings and errors. Every error names its cause; `Error.message` gives the one wording that each
cause has.
-/

namespace TypedTables

/-- Loops of the grammar whose steps are counted. -/
inductive Loop
  | columnList
  | columnOptions
  | typeArguments
  | tableClauses
  | selectList
  | qualifiedName
  | balancedParentheses
  | expression
  deriving DecidableEq, Repr

/-- What has a fixed ceiling. -/
inductive Ceiling
  | inputLength
  | statementCount
  | statementLength
  | tableCount
  | columnCount
  | tupleArity
  | enumMembers
  | steps (loop : Loop)
  deriving DecidableEq, Repr

def Loop.name : Loop → String
  | .columnList => "column list"
  | .columnOptions => "column options"
  | .typeArguments => "type arguments"
  | .tableClauses => "table clauses"
  | .selectList => "select list"
  | .qualifiedName => "qualified name"
  | .balancedParentheses => "balanced parentheses"
  | .expression => "expression"

namespace Ceiling

def name : Ceiling → String
  | .inputLength => "input length"
  | .statementCount => "statement count"
  | .statementLength => "statement length"
  | .tableCount => "table count"
  | .columnCount => "column count"
  | .tupleArity => "tuple arity"
  | .enumMembers => "enum member count"
  | .steps loop => loop.name

/-- Lengths are in bytes. -/
def limit : Ceiling → Nat
  | .inputLength => 10485760
  | .statementCount => 10000
  | .statementLength => 1048576
  | .tableCount => 5000
  | .columnCount => 2000
  | .tupleArity => 256
  | .enumMembers => 1024
  | .steps _ => 100000

end Ceiling

/-- How deep types may be nested; a type without arguments has depth 1. -/
def maxTypeDepth : Nat := 20

/-- What the grammar asks for where it cannot go on. -/
inductive Expected
  | keyword (keyword : Keyword)
  | openParen
  | columnListEnd
  | argumentListEnd
  | numberAfterMinus
  | enumValue
  | typeName
  | columnName
  | tableName
  | sourceTable
  | clusterName
  | engineName
  | subqueryName
  | columnComment
  | tableComment
  | tableOrView
  deriving DecidableEq, Repr

def Expected.text : Expected → String
  | .keyword k => k.text
  | .openParen => "'('"
  | .columnListEnd => "',' or ')' in column list"
  | .argumentListEnd => "',' or ')' in type arguments"
  | .numberAfterMinus => "a number after '-'"
  | .enumValue => "an integer enum value"
  | .typeName => "a type name"
  | .columnName => "column name"
  | .tableName => "table name"
  | .sourceTable => "source table"
  | .clusterName => "cluster name"
  | .engineName => "engine name"
  | .subqueryName => "sub-query name"
  | .columnComment => "column comment"
  | .tableComment => "table comment"
  | .tableOrView => "TABLE or MATERIALIZED VIEW after CREATE"

/-- What is wrong with the token at hand. -/
inductive Fault
  | expected (what : Expected)
  | plainView
  | routedView
  | unterminatedArguments
  | unexpectedArgument
  | unexpectedClause
  | emptyItem
  deriving DecidableEq, Repr

def Fault.text : Fault → String
  | .expected what => "expected " ++ what.text
  | .plainView => "plain views are not modeled"
  | .routedView => "materialized views routed with TO are not modeled"
  | .unterminatedArguments => "unterminated type argument list"
  | .unexpectedArgument => "unexpected token in type arguments"
  | .unexpectedClause => "unexpected token after column list"
  | .emptyItem => "empty projection item"

/-- Why a statement does not declare a table. -/
inductive ParseError
  | unexpected (fault : Fault) (found : Option Token)
  | unbalanced
  | invalidEnumValue (number : Token)
  | noColumns (table : String)
  deriving DecidableEq, Repr

namespace ParseError

def message : ParseError → String
  | .unexpected fault (some t) => fault.text ++ ", found '" ++ t.text ++ "'"
  | .unexpected fault none => fault.text ++ ", found end of statement"
  | .unbalanced => "unbalanced parentheses"
  | .invalidEnumValue t => "invalid enum value '" ++ t.text ++ "'"
  | .noColumns table => "'" ++ table ++ "' declares no columns"

def span? : ParseError → Option Span
  | .unexpected _ found => found.map Token.span
  | .invalidEnumValue t => some t.span
  | .unbalanced | .noColumns _ => none

end ParseError

/-- What a column cannot be rendered for. -/
inductive ColumnProblem
  | emptyName
  | unresolvedType
  | emptyMappedType
  deriving DecidableEq, Repr

def ColumnProblem.text : ColumnProblem → String
  | .emptyName => "an empty name"
  | .unresolvedType => "an unresolved type"
  | .emptyMappedType => "an empty mapped type"

/-- How a value breaks what resolution or rendering asks of it. -/
inductive Violation
  | emptyTableName
  /-- `number` counts the columns of the table from 1. -/
  | emptyColumnName (number : Nat) (table : String)
  | noDeclaredName (table : String)
  | sameDeclaredName (first second declared : String)
  | sameColumnName (first second table name : String)
  | badColumn (column table : String) (problem : ColumnProblem)
  deriving DecidableEq, Repr

def Violation.message : Violation → String
  | .emptyTableName => "table with an empty name"
  | .emptyColumnName number table =>
    "column " ++ toString number ++ " of table '" ++ table ++ "' has an empty name"
  | .noDeclaredName table => "table '" ++ table ++ "' has no declared name"
  | .sameDeclaredName first second declared =>
    "tables '" ++ first ++ "' and '" ++ second ++ "' both render as '" ++ declared ++ "'"
  | .sameColumnName first second table name =>
    "columns '" ++ first ++ "' and '" ++ second ++ "' of table '" ++ table ++
      "' both render as '" ++ name ++ "'"
  | .badColumn column table problem =>
    "column '" ++ column ++ "' of table '" ++ table ++ "' has " ++ problem.text

inductive Error
  | parse (cause : ParseError)
  | validation (violation : Violation)
  | tooDeep
  | exceeded (ceiling : Ceiling)
  | unknownLeaf (name : String)
  deriving DecidableEq, Repr

namespace Error

def message : Error → String
  | .parse cause => "parse error: " ++ cause.message
  | .validation violation => "validation error: " ++ violation.message
  | .tooDeep => "type nesting exceeds the maximum depth of " ++ toString maxTypeDepth
  | .exceeded ceiling => ceiling.name ++ " exceeds the limit of " ++ toString ceiling.limit
  | .unknownLeaf name => "unknown leaf type '" ++ name ++ "'"

def code : Error → String
  | .parse _ => "chschema::parse"
  | .validation _ => "chschema::validation"
  | .tooDeep => "chschema::depth_exceeded"
  | .exceeded _ => "chschema::limit_exceeded"
  | .unknownLeaf _ => "chschema::unknown_leaf_type"

def help? : Error → Option String
  | .validation _ => some "the value handed to resolve/render violates its contract"
  | .unknownLeaf _ =>
    some "disable fail_on_unknown_leaf or register a type plugin for this type"
  | _ => none

/-- Whether the statement can be dropped and the rest of the input processed. -/
def isRecoverable : Error → Bool
  | .parse _ => true
  | _ => false

end Error

/-- Fails if `value` is above the ceiling. -/
def Ceiling.check (ceiling : Ceiling) (value : Nat) : Except Error Unit :=
  if ceiling.limit < value then .error (.exceeded ceiling) else .ok ()

end TypedTables
