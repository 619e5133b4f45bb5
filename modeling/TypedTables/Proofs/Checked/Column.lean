import TypedTables.Proofs.Checked.Run
import TypedTables.Proofs.TypeExpr.Written

/-!
Types and columns: the value of an enumeration member is negated with a look at its bounds, and the
tokens behind `INDEX` are a part of the list whose parentheses are counted down.
-/

namespace TypedTables.Checked

open Grammar hiding exhausted

section Types

variable (l : Listing)

def signedInteger : Parse Int := do
  let minus ← plain l (accept? isMinus)
  let t ← plain l (expect .number .enumValue)
  match decimal? t.text.toList with
  | some n => if minus.isSome then negate n else return n
  | none => fail (.parse (.invalidEnumValue t))

/-- One argument of a type; `inner` reads a type one level down. -/
def typeArg (inner : Parse TypeExpr) : Parse TypeArg := do
  match ← plain l peek? with
  | none => plain l (unexpected .unterminatedArguments)
  | some t =>
    if t.kind == .string then
      plain l advance
      if ← plain l (eat .equals) then return .member t.text (← signedInteger l)
      else return .string t.text
    else if t.kind == .number then
      plain l advance
      return .number t.text
    else if isMinus t then
      plain l advance
      return .number ("-" ++ (← plain l (expect .number .numberAfterMinus)).text)
    else if t.isName then
      if ← plain l (looksAt 1 Token.isIdentifier) then plain l advance
      return .type (← inner)
    else plain l (unexpected .unexpectedArgument)

def typeArgs (inner : Parse TypeExpr) (name : String) :
    (budget : Nat) → (args : Array TypeArg) → Parse (Array TypeArg)
  | 0, _ => exhausted .typeArguments
  | budget + 1, args => do
    let args := args.push (← typeArg l inner)
    plain l (checkArguments name args)
    if ← plain l (eat .comma) then typeArgs inner name budget args
    else
      discard (plain l (expect .closeParen .argumentListEnd))
      return args

/-- A type that may be nested `room` levels deep. -/
def typeExpr : (room : Nat) → Parse TypeExpr
  | 0 => fail .tooDeep
  | room + 1 => do
    let name := canonicalName (← plain l (require Token.isIdentifier .typeName)).text
    if ← plain l (eat .openParen) then
      if ← plain l (eat .closeParen) then return .plain name
      else
        let limit := (Ceiling.steps .typeArguments).limit
        return .mk name (← typeArgs l (typeExpr room) name limit #[]).toList
    else return .plain name

end Types

section Columns

variable (largest : Nat) (l : Listing)

/-- Reads the option at hand into the column, if there is one. -/
def columnOption? (column : ColumnDecl) : Parse (Option ColumnDecl) := do
  match (← plain l peek?).map Token.kind with
  | some (.keyword .null) =>
    plain l advance
    return some column.admitNull
  | some (.keyword .not) =>
    plain l advance
    plain l (expectKeyword .null)
    return some column
  | some (.keyword .comment) =>
    plain l advance
    return some { column with comment := some (← plain l (expectString .columnComment)) }
  | some (.keyword .codec) =>
    plain l advance
    skipBalanced l
    return some column
  | some (.keyword .ttl) =>
    plain l advance
    discard (capture largest l endsColumnOption)
    return some column
  | some (.keyword .primary) =>
    plain l advance
    plain l (expectKeyword .key)
    return some column
  | some (.keyword k) =>
    match DefaultKind.ofKeyword? k with
    | some kind =>
      plain l advance
      let expr ← capture largest l endsColumnOption
      return some { column with defaultKind := some kind, defaultExpr := expr }
    | none => return none
  | _ => return none

def columnOptions : (budget : Nat) → ColumnDecl → Parse ColumnDecl
  | 0, _ => exhausted .columnOptions
  | budget + 1, column => do
    match ← columnOption? largest l column with
    | some column => columnOptions budget column
    | none => return column

/-- A name, a type and options. -/
def columnDef : Parse ColumnDecl := do
  let name ← plain l expectColumnName
  let first ← get
  let type ← typeExpr l maxTypeDepth
  let rawType ← rawText largest l first (← get)
  columnOptions largest l (Ceiling.steps .columnOptions).limit
    ⟨name, type, rawType, none, none, none⟩

/-- Whether the tokens behind `INDEX` reach a `TYPE` before the entry ends. -/
def reachesType (depth : Nat) : List Token → Access Bool
  | [] => return false
  | t :: rest => do
    if depth == 0 && (t.kind == .closeParen || t.kind == .comma) then return false
    else if depth == 0 && t.kind == .identifier && Text.sameIgnoringCase t.text "TYPE" then
      return true
    else reachesType (← nest t depth) rest

/-- Whether an index, a projection or a constraint is at hand. -/
def startsEntry : Parse Bool := do
  match (← plain l peek?).map Token.kind with
  | some (.keyword .index) => reachesType 0 (← partFrom l.tokens ((← get) + 1))
  | some (.keyword .projection) => plain l (looksAt 2 (·.kind == .openParen))
  | some (.keyword .constraint) => plain l (looksAt 2 isConstraintVerb)
  | _ => return false

/-- One entry of a column list, behind the columns before it. -/
def columnListEntry (columns : Array ColumnDecl) : Parse (Array ColumnDecl) := do
  if ← startsEntry l then
    discard (capture largest l (·.kind == .comma))
    return columns
  else
    let columns := columns.push (← columnDef largest l)
    plain l (check .columnCount columns.size)
    return columns

def columnEntries : (budget : Nat) → (columns : Array ColumnDecl) → Parse (Array ColumnDecl)
  | 0, _ => exhausted .columnList
  | budget + 1, columns => do
    if ← plain l (eat .closeParen) then return columns
    let columns ← columnListEntry largest l columns
    if ← plain l (eat .comma) then columnEntries budget columns
    else
      discard (plain l (expect .closeParen .columnListEnd))
      return columns

def columnList : Parse (List ColumnDecl) := do
  discard (plain l (expect .openParen .openParen))
  return (← columnEntries largest l (Ceiling.steps .columnList).limit #[]).toList

end Columns

section Types

variable {l : Listing} {inner : Grammar TypeExpr} {inner' : Parse TypeExpr}

theorem negate_of_decimal? {digits : List Char} {n : Nat} (h : decimal? digits = some n) :
    negate n = .ok (-(n : Int)) := if_pos (le_of_decimal? h)

theorem safe_signedInteger : Safe l Eq Grammar.signedInteger (signedInteger l) := by
  refine (safe_plain (inStep_accept? ofContent_isMinus)).seq fun minus => ?_
  refine (safe_plain (inStep_expect _ _)).seq fun t => ?_
  cases h : decimal? t.text.toList with
  | some n =>
    dsimp only
    rw [negate_of_decimal? h]
    cases minus <;> exact .pure rfl
  | none => exact safe_fail _

theorem safe_typeArg (h : Safe l Eq inner inner') :
    Safe l Eq (Grammar.typeArg inner) (typeArg l inner') := by
  refine (safe_plain inStep_peek?).seq fun t? => ?_
  cases t? with
  | none => exact safe_unexpected _
  | some t =>
    dsimp only
    split_ifs
    · refine (safe_plain inStep_advance).seq fun _ => ?_
      refine (safe_plain (inStep_eat _)).seq fun equals => ?_
      cases equals with
      | true => exact safe_signedInteger.seq fun _ => .pure rfl
      | false => exact .pure rfl
    · exact (safe_plain inStep_advance).seq fun _ => .pure rfl
    · exact (safe_plain inStep_advance).seq fun _ =>
        (safe_plain (inStep_expect _ _)).seq fun _ => .pure rfl
    · have htype : Safe l Eq (do return TypeArg.type (← inner))
          (do return TypeArg.type (← inner')) := h.seq fun _ => .pure rfl
      refine (safe_plain (inStep_looksAt 1 fun _ _ _ _ => rfl)).seq fun named => ?_
      cases named with
      | true => exact (safe_plain inStep_advance).seq fun _ => htype
      | false => exact htype
    · exact safe_unexpected _

theorem safe_typeArgs (h : Safe l Eq inner inner') (name : String) (budget : Nat)
    (args : Array TypeArg) :
    Safe l Eq (Grammar.typeArgs inner name budget args) (typeArgs l inner' name budget args) := by
  induction budget generalizing args with
  | zero => exact safe_exhausted _
  | succ budget ih =>
    refine (safe_typeArg h).seq fun arg => (safe_plain (inStep_checkArguments _ _)).seq fun _ => ?_
    refine (safe_plain (inStep_eat _)).seq fun comma => ?_
    cases comma with
    | true => exact ih _
    | false => exact (safe_plain (inStep_expect _ _)).discard.seq fun _ => .pure rfl

theorem safe_typeExpr (room : Nat) : Safe l Eq (Grammar.typeExpr room) (typeExpr l room) := by
  induction room with
  | zero => exact safe_fail _
  | succ room ih =>
    refine (safe_plain (inStep_require (fun _ _ _ _ => rfl) _)).seq fun t => ?_
    refine (safe_plain (inStep_eat _)).seq fun opened => ?_
    cases opened with
    | false => exact .pure rfl
    | true =>
      refine (safe_plain (inStep_eat _)).seq fun closed => ?_
      cases closed with
      | true => exact .pure rfl
      | false => exact (safe_typeArgs ih _ _ _).seq fun _ => .pure rfl

end Types

section Entries

variable {l : Listing} {c : Cursor} {position : Nat}

theorem reachesType_eq (depth : Nat) (tokens : List Token) :
    reachesType depth tokens = .ok (Grammar.reachesType depth tokens) := by
  induction tokens generalizing depth with
  | nil => rfl
  | cons t rest ih =>
    rw [reachesType, Grammar.reachesType]
    split_ifs with hends
    · rfl
    · rfl
    · have hnest : nest t depth = .ok (t.nest depth) :=
        nest_of_not_ends hends fun hkind => by rw [hkind]; rfl
      rw [Access.bind_eq hnest, ih]

theorem startsEntry_eq (h : At l c position) :
    startsEntry l position = .ok (Grammar.startsEntry c.rest) position := by
  unfold startsEntry
  obtain ⟨rfl, hdrop⟩ | ⟨t, rest, rfl, hdrop, hnext⟩ := h.next
  · rw [bind_of_ok (plain_of_ok peek? hdrop rfl)]
    rfl
  · have hpart : partFrom l.tokens (position + 1) = .ok rest := by
      rw [partFrom_eq hnext.within]
      exact congrArg (fun c => Except.ok c.rest) hnext.eq.symm
    have hlooks (test : Token → Bool) : plain l (looksAt 2 test) position =
        .ok (rest[1]?.any test) position := plain_of_ok (looksAt 2 test) hdrop rfl
    rw [bind_of_ok (plain_of_ok peek? hdrop rfl), Grammar.startsEntry]
    dsimp only [Cursor.peek?, List.head?_cons, Option.map_some]
    cases t.kind with
    | keyword k =>
      cases k with
      | index =>
        dsimp only
        rw [get_bind, access_bind hpart, reachesType_eq]
        rfl
      | projection | constraint => exact hlooks _
      | _ => rfl
    | _ => rfl

end Entries

section Columns

variable {largest : Nat} {l : Listing} (hl : Covers largest l)
include hl

theorem safe_columnOption? (column : ColumnDecl) :
    Safe l Eq (Grammar.columnOption? l.source column) (columnOption? largest l column) := by
  have hadvance : Safe l Eq advance (plain l advance) := safe_plain inStep_advance
  refine (safe_plain inStep_peek?).seq fun t? => ?_
  generalize t?.map Token.kind = kind?
  cases kind? with
  | none => exact .pure rfl
  | some kind =>
    cases kind with
    | keyword k =>
      cases k with
      | null => exact hadvance.seq fun _ => .pure rfl
      | not | primary =>
        exact hadvance.seq fun _ => (safe_plain (inStep_expectKeyword _)).seq fun _ => .pure rfl
      | comment =>
        exact hadvance.seq fun _ => (safe_plain (inStep_expectString _)).seq fun _ => .pure rfl
      | codec => exact hadvance.seq fun _ => safe_skipBalanced.seq fun _ => .pure rfl
      | ttl => exact hadvance.seq fun _ => (safe_discard_run hl _).seq fun _ => .pure rfl
      | default | materialized | «alias» | ephemeral =>
        exact hadvance.seq fun _ => (safe_captureExpression hl _).seq fun _ => .pure rfl
      | _ => exact .pure rfl
    | _ => exact .pure rfl

theorem safe_columnOptions (budget : Nat) (column : ColumnDecl) :
    Safe l Eq (Grammar.columnOptions l.source budget column)
      (columnOptions largest l budget column) := by
  induction budget generalizing column with
  | zero => exact safe_exhausted _
  | succ budget ih =>
    refine (safe_columnOption? hl column).seq fun column? => ?_
    cases column? with
    | some column => exact ih column
    | none => exact .pure rfl

theorem safe_columnDef : Safe l Eq (Grammar.columnDef l.source) (columnDef largest l) := by
  refine (safe_plain (inStep_text (fun _ _ _ _ => rfl) _)).seq fun name => ?_
  refine Lockstep.get.bind fun mark first hmark => (safe_typeExpr _).seq fun type => ?_
  refine Lockstep.get.bind fun c stop h => ?_
  dsimp only
  rw [access_bind (hl.rawText_eq first h.within), hmark.since h]
  exact safe_columnOptions hl _ _

theorem safe_columnListEntry (columns : Array ColumnDecl) :
    Safe l Eq (Grammar.columnListEntry l.source columns) (columnListEntry largest l columns) := by
  have hstarts : Safe l Eq (do return Grammar.startsEntry (← get).rest) (startsEntry l) := by
    intro c position h
    rw [startsEntry_eq h]
    exact .ok rfl h
  have hentry : Grammar.columnListEntry l.source columns =
      (do return Grammar.startsEntry (← get).rest) >>= fun starts =>
        if starts then do
          discard (run (·.kind == .comma))
          return columns
        else do
          let columns := columns.push (← Grammar.columnDef l.source)
          check .columnCount columns.size
          return columns := rfl
  rw [hentry]
  refine hstarts.seq fun starts => ?_
  cases starts with
  | true => exact (safe_discard_run hl _).seq fun _ => .pure rfl
  | false =>
    exact (safe_columnDef hl).seq fun _ => (safe_plain (inStep_check _ _)).seq fun _ => .pure rfl

theorem safe_columnEntries (budget : Nat) (columns : Array ColumnDecl) :
    Safe l Eq (Grammar.columnEntries l.source budget columns)
      (columnEntries largest l budget columns) := by
  induction budget generalizing columns with
  | zero => exact safe_exhausted _
  | succ budget ih =>
    refine (safe_plain (inStep_eat _)).seq fun closed => ?_
    cases closed with
    | true => exact .pure rfl
    | false =>
      refine (safe_columnListEntry hl columns).seq fun columns => ?_
      refine (safe_plain (inStep_eat _)).seq fun comma => ?_
      cases comma with
      | true => exact ih columns
      | false => exact (safe_plain (inStep_expect _ _)).discard.seq fun _ => .pure rfl

theorem safe_columnList : Safe l Eq (Grammar.columnList l.source) (columnList largest l) :=
  (safe_plain (inStep_expect _ _)).discard.seq fun _ =>
    (safe_columnEntries hl _ _).seq fun _ => .pure rfl

end Columns

end TypedTables.Checked
