import TypedTables.Render.Interface
import TypedTables.Render.JsonSchema
import TypedTables.Script

/-!
Sessions: declarations are loaded piece by piece, options are set, and the tables resolved last are
rendered. A step that fails leaves the session as it is.
-/

namespace TypedTables

structure Session where
  declarations : List TableDecl := []
  options : ResolveOptions := {}
  tables : List MappedTable := []

namespace Session

inductive Step
  | load (text : String)
  | choose (setting : Setting) (name : String)
  | failOnUnknownLeaf (value : Bool)
  | plugin (rule : Rule)
  | resolve
  | interfaces (validators : Bool)
  | jsonSchema
  | clear

inductive Reply
  /-- Names of the tables loaded, number of diagnostics, and number of all declarations. -/
  | loaded (names : List String) (diagnostics total : Nat)
  | text (text : String)
  | flag (value : Bool)
  | tables (tables : List MappedTable)
  | cleared
  | failed (error : Error)
  | badOption (error : OptionError)

def step (session : Session) : Step → Session × Reply
  | .load text =>
    match readScript text with
    | .ok report =>
      let tables := report.tables.toList
      let declarations := session.declarations ++ tables
      ({ session with declarations },
        .loaded (tables.map TableDecl.qualifiedName) report.diagnostics.size declarations.length)
    | .error e => (session, .failed e)
  | .choose setting name =>
    match session.options.choose setting name with
    | .ok options => ({ session with options }, .text (options.text setting))
    | .error e => (session, .badOption e)
  | .failOnUnknownLeaf value =>
    let options := { session.options with failOnUnknownLeaf := value }
    ({ session with options }, .flag value)
  | .plugin rule =>
    let options := session.options.withPlugin rule.plugin
    ({ session with options }, .text options.summary)
  | .resolve =>
    match TypedTables.resolve session.options session.declarations with
    | .ok tables => ({ session with tables }, .tables tables)
    | .error e => (session, .failed e)
  | .interfaces validators =>
    match Interface.render validators session.tables with
    | .ok text => (session, .text text)
    | .error e => (session, .failed e)
  | .jsonSchema =>
    match JsonSchema.render session.tables with
    | .ok text => (session, .text text)
    | .error e => (session, .failed e)
  | .clear => ({ session with declarations := [], tables := [] }, .cleared)

end Session

end TypedTables
