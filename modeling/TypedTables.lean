import TypedTables.Main
import TypedTables.Proofs.Checked.Script
import TypedTables.Proofs.Command.Artifacts
import TypedTables.Proofs.Grammar.Derivation
import TypedTables.Proofs.Grammar.Expression
import TypedTables.Proofs.Grammar.TableClauses
import TypedTables.Proofs.Render.Docs
import TypedTables.Proofs.Render.Identifiers
import TypedTables.Proofs.Render.OneLine
import TypedTables.Proofs.Render.Readable
import TypedTables.Proofs.Render.Union
import TypedTables.Proofs.Render.Wrappers
import TypedTables.Proofs.Resolve.Call
import TypedTables.Proofs.Resolve.Casing
import TypedTables.Proofs.Resolve.LetterCase
import TypedTables.Proofs.Resolve.Order
import TypedTables.Proofs.Resolve.Strict
import TypedTables.Proofs.Script.Attempts
import TypedTables.Proofs.Script.Join
import TypedTables.Proofs.Script.Place
import TypedTables.Proofs.Script.Rounds
import TypedTables.Proofs.Statement.Filter
import TypedTables.Proofs.Statement.Resplit
import TypedTables.Proofs.Token.Cover
import TypedTables.Session
import TypedTables.TypeExpr.Outline
