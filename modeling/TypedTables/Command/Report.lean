import TypedTables.Resolve
import TypedTables.Script

/-!
What is shown to a reader: diagnostics with the line they point at, and lists of resolved tables.
-/

namespace TypedTables

namespace Diagnostic

/-- The severity, in its colour. -/
def label : Severity → String
  | .warning => "\x1b[33mwarning\x1b[0m"
  | .info => "\x1b[34minfo\x1b[0m"

def spaces (n : Nat) : String := String.ofList (List.replicate n ' ')

/-- A number with spaces before it, three characters wide at least. -/
def lineNumber (n : Nat) : String :=
  let digits := toString n
  spaces (3 - digits.length) ++ digits

/-- A line with the part of it that a span covers underlined. A span that goes on behind the line
is underlined to the end of the line. -/
def excerpt (span : Span) (line : String) : String :=
  let before := span.column - 1
  let marks := max 1 (min span.length (line.utf8ByteSize - before))
  "   |\n" ++ lineNumber span.line ++ " | " ++ line ++ "\n   | " ++ spaces before ++
    String.ofList (List.replicate marks '^') ++ "\n"

/-- A diagnostic of a file with these lines. -/
def report (file : String) (lines : Array (List Char)) (d : Diagnostic) : String :=
  label d.kind.severity ++ "[" ++ d.kind.code ++ "]: " ++ d.message ++ "\n" ++
    "  --> " ++ file ++ ":" ++ toString d.span.line ++ ":" ++ toString d.span.column ++ "\n" ++
    (match lines[d.span.line - 1]? with
      | some line => excerpt d.span (String.ofList line)
      | none => "") ++
    (match d.help? with
      | some help => "   = help: " ++ help ++ "\n"
      | none => "") ++ "\n"

end Diagnostic

namespace MappedTable

def columnLine (column : ResolvedColumn) : String :=
  "    - " ++ column.name ++ " " ++ column.rawType ++ " -> " ++ column.mappedType ++ "\n"

def summary (table : MappedTable) : String :=
  "Table: " ++ table.sourceName ++ " (" ++ table.declaredName ++ ")\n" ++
    (match table.info.engine with
      | some engine => "  Engine: " ++ engine ++ "\n"
      | none => "") ++
    String.join (table.columns.map columnLine) ++ "\n"

/-- A summary of every table, and their number. -/
def listing (tables : List MappedTable) : String :=
  String.join (tables.map summary) ++ toString tables.length ++ " table(s)\n"

end MappedTable

end TypedTables
