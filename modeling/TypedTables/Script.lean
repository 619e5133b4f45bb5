import TypedTables.Grammar.Table
import TypedTables.Statement

/-!
Scripts: texts of many statements. Every declaration found in a script is kept, and what is dropped
on the way is reported; only a ceiling stops the reading.
-/

namespace TypedTables

inductive Severity
  | warning
  | info
  deriving DecidableEq, Repr

inductive DiagnosticKind
  | skippedStatement
  | filteredStatement
  deriving DecidableEq, Repr

namespace DiagnosticKind

def code : DiagnosticKind → String
  | .skippedStatement => "W0001"
  | .filteredStatement => "W0002"

def name : DiagnosticKind → String
  | .skippedStatement => "skipped-statement"
  | .filteredStatement => "filtered-statement"

def severity : DiagnosticKind → Severity
  | .skippedStatement => .warning
  | .filteredStatement => .info

end DiagnosticKind

/-- Why a statement, or a part of one, was dropped. -/
inductive Dropped
  | unparsed (cause : ParseError)
  | plainView
  | routedView
  deriving DecidableEq, Repr

structure Diagnostic where
  cause : Dropped
  span : Span
  deriving DecidableEq, Repr

namespace Diagnostic

def kind (d : Diagnostic) : DiagnosticKind :=
  match d.cause with
  | .unparsed _ => .skippedStatement
  | .plainView | .routedView => .filteredStatement

def message (d : Diagnostic) : String :=
  match d.cause with
  | .unparsed cause => cause.message
  | .plainView => "plain view ignored"
  | .routedView => "materialized view routed with TO ignored"

def help? (d : Diagnostic) : Option String :=
  match d.kind with
  | .skippedStatement =>
    some "the statement was dropped; the rest of the input was still processed"
  | .filteredStatement => none

end Diagnostic

/-- A span of a statement as a span of the text that the statement stands in. -/
def Statement.locate (statement : Statement) (span : Span) : Span where
  offset := statement.start.offset + span.offset
  length := span.length
  line := statement.start.line + span.line - 1
  column := if span.line = 1 then statement.start.column + span.column - 1 else span.column

/-- The span of the whole statement, in itself. -/
def Statement.span (statement : Statement) : Span := ⟨0, statement.text.utf8ByteSize, 1, 1⟩

/-- What a script declares and what was dropped from it, both in the order of the text. -/
structure Report where
  tables : Array TableDecl := #[]
  diagnostics : Array Diagnostic := #[]

namespace Report

def declare (report : Report) (table : TableDecl) : Report :=
  { report with tables := report.tables.push table }

def drop (report : Report) (statement : Statement) (cause : Dropped) (span : Option Span) : Report :=
  let diagnostic := ⟨cause, statement.locate (span.getD statement.span)⟩
  { report with diagnostics := report.diagnostics.push diagnostic }

/-- Reads a declaration at each `CREATE`. After a declaration reading goes on behind it, after a
failure behind the `CREATE` that failed. -/
def addTokens (statement : Statement) (report : Report) : List Token → Except Error Report
  | [] => .ok report
  | t :: rest =>
    if t.isKeyword .create then
      match Grammar.statement statement.text (.ofTokens (t :: rest)) with
      | .ok table c => do
        let report := report.declare table
        Ceiling.tableCount.check report.tables.size
        addTokens statement report (rest.drop (c.position - 1))
      | .error (.parse cause) _ =>
        addTokens statement (report.drop statement (.unparsed cause) cause.span?) rest
      | .error e _ => .error e
    else addTokens statement report rest
  termination_by tokens => tokens.length
  decreasing_by all_goals simp only [List.length_drop, List.length_cons]; omega

def addStatement (report : Report) (statement : Statement) : Except Error Report := do
  Ceiling.statementLength.check statement.text.utf8ByteSize
  let tokens := tokenize statement.text
  match Statement.classify tokens with
  | .keep => addTokens statement report tokens
  | .plainView => return report.drop statement .plainView none
  | .routedView => return report.drop statement .routedView none

end Report

/-- Reads a script. -/
def readScript (source : String) : Except Error Report := do
  Ceiling.inputLength.check source.utf8ByteSize
  let statements := Statement.split source
  Ceiling.statementCount.check statements.length
  statements.foldlM Report.addStatement {}

end TypedTables
