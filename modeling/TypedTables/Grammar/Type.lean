import TypedTables.Grammar.Cursor
import TypedTables.TypeExpr.Name
import TypedTables.TypeExpr.Shape

/-!
Types: a name and perhaps a parenthesized list of arguments. An argument is a type, with or without
an element name before it, a number, a string, or a string with an integer value.
-/

namespace TypedTables.Grammar

/-- Largest value of an enumeration member. -/
def maxEnumValue : Nat := 9223372036854775807

/-- The value of a run of digits, if it is not too large and there is nothing but digits, and at
least one. -/
def decimal? (digits : List Char) : Option Nat :=
  if digits.isEmpty then none
  else digits.foldl (fun value? c => do
    let value ← value?
    let next := 10 * value + (c.toNat - '0'.toNat)
    if c.isDigit && next ≤ maxEnumValue then some next else none) (some 0)

def isMinus (t : Token) : Bool := t.kind == .operator && t.text == "-"

def signedInteger : Grammar Int := do
  let minus ← accept? isMinus
  let t ← expect .number .enumValue
  match decimal? t.text.toList with
  | some n => return if minus.isSome then -(n : Int) else n
  | none => throw (.parse (.invalidEnumValue t))

/-- One argument of a type; `inner` reads a type one level down. -/
def typeArg (inner : Grammar TypeExpr) : Grammar TypeArg := do
  match ← peek? with
  | none => unexpected .unterminatedArguments
  | some t =>
    if t.kind == .string then
      advance
      if ← eat .equals then return .member t.text (← signedInteger)
      else return .string t.text
    else if t.kind == .number then
      advance
      return .number t.text
    else if isMinus t then
      advance
      return .number ("-" ++ (← expect .number .numberAfterMinus).text)
    else if t.isName then
      if ← looksAt 1 Token.isIdentifier then advance
      return .type (← inner)
    else unexpected .unexpectedArgument

/-- The ceiling on the number of arguments, for the types that have one. -/
def argumentCeiling? (name : String) : Option Ceiling :=
  if name == "Tuple" then some .tupleArity
  else if isEnumName name then some .enumMembers
  else none

def checkArguments (name : String) (args : Array TypeArg) : Grammar Unit :=
  match argumentCeiling? name with
  | some ceiling => check ceiling args.size
  | none => pure ()

/-- A list of at least one argument and the parenthesis that ends it, behind the arguments before
them. -/
def typeArgs (inner : Grammar TypeExpr) (name : String) :
    (budget : Nat) → (args : Array TypeArg) → Grammar (Array TypeArg)
  | 0, _ => exhausted .typeArguments
  | budget + 1, args => do
    let args := args.push (← typeArg inner)
    checkArguments name args
    if ← eat .comma then typeArgs inner name budget args
    else
      discard (expect .closeParen .argumentListEnd)
      return args

/-- A type that may be nested `room` levels deep. -/
def typeExpr : (room : Nat) → Grammar TypeExpr
  | 0 => throw .tooDeep
  | room + 1 => do
    let name := canonicalName (← require Token.isIdentifier .typeName).text
    if ← eat .openParen then
      if ← eat .closeParen then return .plain name
      else
        let limit := (Ceiling.steps .typeArguments).limit
        return .mk name (← typeArgs (typeExpr room) name limit #[]).toList
    else return .plain name

/-- The type of a column. -/
def columnType : Grammar TypeExpr := typeExpr maxTypeDepth

end TypedTables.Grammar
