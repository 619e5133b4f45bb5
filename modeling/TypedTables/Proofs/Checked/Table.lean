import TypedTables.Proofs.Checked.Column

/-!
Queries and table clauses: an item of a select list is made from a part of the tokens, whose first,
second and last elements are taken by their indices.
-/

namespace TypedTables.Checked

open Grammar hiding exhausted

section Queries

variable (largest : Nat) (l : Listing)

/-- The name of the function that an expression calls. -/
def callee? (expr : List Token) : Access (Option String) := do
  if expr.length ≤ 1 then return none
  else
    let head ← element expr 0
    if head.isName then
      let paren ← element expr 1
      return if paren.kind == .openParen then some head.text else none
    else return none

/-- The item that an expression from `first` on makes under an alias. -/
def item? (first : Nat) (expr : List Token) (alias? : Option String) :
    Access (Option SelectItem) := do
  if expr.map Token.kind = [.star] then return none
  else if isColumnReference expr then
    let column := (← element expr (← sub expr.length 1)).text
    return some ⟨column, alias?, some column, none⟩
  else
    match ← callee? expr with
    | some function =>
      let text ← rawText largest l first (first + expr.length)
      return some ⟨text, alias?, firstPlainIdentifier? (← partFrom expr 2), some function⟩
    | none =>
      let text ← rawText largest l first (first + expr.length)
      return some ⟨text, alias?, firstPlainIdentifier? expr, none⟩

/-- The item that the tokens from `first` to before `stop` make. -/
def selectItem (first stop : Nat) : Parse (Option SelectItem) := do
  let tokens ← part l.tokens first stop
  if tokens.isEmpty then plain l (unexpected .emptyItem)
  else item? largest l first (splitAlias tokens).1 (splitAlias tokens).2

def selectItems : (budget : Nat) → (items : List SelectItem) → Parse (List SelectItem)
  | 0, _ => exhausted .selectList
  | budget + 1, items => do
    let range ← captureRange largest l fun t => t.kind == .comma || t.isKeyword .from
    let items := (← selectItem largest l range.1 range.2).toList ++ items
    if ← plain l (eat .comma) then selectItems budget items else return items.reverse

/-- The table named after `FROM`; a parenthesized sub-select names none. -/
def fromSource : Parse (Option String) := do
  if ← plain l (isAt .openParen) then
    skipBalanced l
    return none
  else return some (← plain l (qualifiedName .sourceTable)).2

/-- `SELECT items FROM source`. -/
def selectFrom : Parse (List SelectItem × Option String) := do
  plain l (expectKeyword .select)
  let items ← selectItems largest l (Ceiling.steps .selectList).limit []
  plain l (expectKeyword .from)
  return (items, ← fromSource l)

def subquery : Parse Subquery := do
  let name ← plain l (expectName .subqueryName)
  plain l (expectKeyword .as)
  discard (plain l (expect .openParen .openParen))
  let query ← selectFrom largest l
  skipToClose l
  return ⟨name, query.2, query.1⟩

/-- What stands behind `WITH`. -/
def withClause : Parse (Option Subquery) := do
  let sub ← if ← plain l atSubquery then some <$> subquery largest l else pure none
  discard (capture largest l (·.isKeyword .select))
  return sub

/-- The query of a view, to the end of the statement. -/
def viewQuery : Parse ViewQuery := do
  let sub ← if ← plain l (eatKeyword .with) then withClause largest l else pure none
  let query ← selectFrom largest l
  plain l (modify Cursor.finish)
  return ⟨query.2, query.1, sub⟩

end Queries

section Clauses

variable (largest : Nat) (l : Listing)

/-- The expression of a table clause. -/
def clauseExpression : Parse (Option String) := capture largest l startsTableClause

/-- Name and arguments of an engine. -/
def engine : Parse String := do
  let first ← get
  discard (plain l (expectName .engineName))
  if ← plain l (isAt .openParen) then skipBalanced l
  rawText largest l first (← get)

/-- The query behind `AS`, where the columns are taken from it. -/
def asBody (table : TableDecl) : Parse TableDecl := do
  if table.kind == .materializedView && table.columns.isEmpty then
    let query ← viewQuery largest l
    plain l (check .columnCount query.items.length)
    return { table with
      columns := query.items.map fun item => .pending item.outputName
      query := some query }
  else
    plain l (modify Cursor.finish)
    return table

/-- Reads the clause at hand into the table. -/
def tableClause (table : TableDecl) (kind : TokenKind) : Parse Progress := do
  match kind with
  | .semicolon =>
    plain l advance
    return .done table
  | .keyword .engine =>
    plain l advance
    discard (plain l (eat .equals))
    return .more { table with engine := some (← engine largest l) }
  | .keyword .partition =>
    plain l advance
    plain l (expectKeyword .by)
    return .more { table with partitionBy := ← clauseExpression largest l }
  | .keyword .order =>
    plain l advance
    plain l (expectKeyword .by)
    return .more { table with orderBy := ← clauseExpression largest l }
  | .keyword .primary =>
    plain l advance
    plain l (expectKeyword .key)
    return .more { table with primaryKey := ← clauseExpression largest l }
  | .keyword .sample =>
    plain l advance
    plain l (expectKeyword .by)
    discard (clauseExpression largest l)
    return .more table
  | .keyword .ttl | .keyword .settings =>
    plain l advance
    discard (clauseExpression largest l)
    return .more table
  | .keyword .comment =>
    plain l advance
    discard (plain l (eat .equals))
    return .more { table with comment := some (← plain l (expectString .tableComment)) }
  | .keyword .populate =>
    plain l advance
    return .more table
  | .keyword .as =>
    plain l advance
    return .done (← asBody largest l table)
  | _ => plain l (unexpected .unexpectedClause)

/-- Clauses in any order, up to a semicolon, the end of the query, or the end of the tokens. -/
def tableClauses : (budget : Nat) → TableDecl → Parse TableDecl
  | budget, table => do
    match ← plain l peek? with
    | none => return table
    | some t =>
      match budget with
      | 0 => exhausted .tableClauses
      | budget + 1 =>
        match ← tableClause largest l table t.kind with
        | .more table => tableClauses budget table
        | .done table => return table

/-- A whole statement. -/
def statement : Parse TableDecl := do
  let table ← plain l tableHeader
  let columns ← if ← plain l (isAt .openParen) then columnList largest l else pure []
  let table ← tableClauses largest l (Ceiling.steps .tableClauses).limit { table with columns }
  if table.columns.isEmpty then fail (.parse (.noColumns table.qualifiedName))
  return table

end Clauses

section Items

variable {largest : Nat} {l : Listing} {expr tokens : List Token} {alias? : Option String}

/-- What stands before an alias is a part of the tokens, and not an empty one. -/
theorem exists_splitAlias (hne : tokens ≠ []) :
    ∃ n, 0 < n ∧ n ≤ tokens.length ∧ (splitAlias tokens).1 = tokens.take n := by
  have hwhole : 0 < tokens.length ∧ tokens = tokens.take tokens.length :=
    ⟨List.length_pos_iff.2 hne, List.take_length.symm⟩
  unfold splitAlias
  split
  · next label mark first rest hreverse =>
    split_ifs
    · have htokens : tokens = (first :: rest).reverse ++ [mark, label] := by
        rw [← List.reverse_reverse tokens, hreverse]
        simp
      refine ⟨(first :: rest).reverse.length, by simp, ?_, ?_⟩
      · rw [htokens, List.length_append]
        exact Nat.le_add_right _ _
      · conv_rhs => rw [htokens, List.take_left]
    · exact ⟨tokens.length, hwhole.1, le_rfl, hwhole.2⟩
  · exact ⟨tokens.length, hwhole.1, le_rfl, hwhole.2⟩

theorem callee?_eq (head paren : Token) (rest : List Token) : callee? (head :: paren :: rest) =
    .ok (if head.isName && paren.kind == .openParen then some head.text else none) := by
  rw [callee?, if_neg (by simp)]
  change (if head.isName then _ else _) = _
  cases head.isName <;> rfl

theorem element_last (hne : expr ≠ []) :
    ∃ t, expr.getLast? = some t ∧ element expr (expr.length - 1) = .ok t := by
  refine ⟨expr.getLast hne, List.getLast?_eq_some_getLast hne, ?_⟩
  rw [element, ← List.getLast?_eq_getElem?, List.getLast?_eq_some_getLast hne]

theorem item?_eq (hl : Covers largest l) {first : Nat} (hexpr : expr = l.part first expr.length)
    (hwithin : first + expr.length ≤ l.tokens.length) (hne : expr ≠ [])
    (hsplit : splitAlias tokens = (expr, alias?)) :
    item? largest l first expr alias? = .ok (SelectItem.ofTokens? l.source tokens) := by
  have htext : rawText largest l first (first + expr.length) = .ok (sourceText l.source expr) := by
    rw [hl.rawText_eq first hwithin, Nat.add_sub_cancel_left, Listing.text, ← hexpr]
  obtain ⟨last, hlast, helement⟩ := element_last hne
  have hsub : sub expr.length 1 = .ok (expr.length - 1) := sub_eq (List.length_pos_iff.2 hne)
  rw [SelectItem.ofTokens?, hsplit, item?, Access.bind_eq hsub, Access.bind_eq helement]
  obtain ⟨head, rest, rfl⟩ := List.exists_cons_of_ne_nil hne
  cases rest with
  | nil =>
    obtain rfl : head = last := by simpa using hlast
    have hcallee : callee? [head] = .ok none := rfl
    rw [Access.bind_eq hcallee]
    dsimp only
    rw [Access.bind_eq htext, isColumnReference]
    by_cases hstar : head.kind = .star
    · rw [if_pos (by rw [List.map_singleton, hstar]), if_pos (beq_iff_eq.2 hstar)]
      rfl
    · have hkinds : [head].map Token.kind ≠ [.star] := by simpa using hstar
      rw [if_neg hkinds, if_neg (mt beq_iff_eq.1 hstar)]
      split_ifs <;> rfl
  | cons paren rest =>
    rw [Access.bind_eq (callee?_eq head paren rest)]
    dsimp only
    rw [if_neg (by simp), hlast]
    split_ifs with hcolumn hcall
    · rfl
    · have hrest : partFrom (head :: paren :: rest) 2 = .ok rest := partFrom_eq (by simp)
      dsimp only
      rw [Access.bind_eq htext, Access.bind_eq hrest]
      rfl
    · dsimp only
      rw [Access.bind_eq htext]
      rfl

theorem selectItem_eq_unexpected {first stop : Nat} (hle : first ≤ stop)
    (hstop : stop ≤ l.tokens.length) (hnil : l.part first (stop - first) = []) :
    selectItem largest l first stop = plain l (unexpected .emptyItem) := by
  rw [selectItem, access_bind (part_eq hle hstop)]
  exact if_pos (List.isEmpty_iff.2 hnil)

theorem selectItem_eq (hl : Covers largest l) {first stop : Nat} (hle : first ≤ stop)
    (hstop : stop ≤ l.tokens.length) (hne : l.part first (stop - first) ≠ []) :
    selectItem largest l first stop =
      pure (SelectItem.ofTokens? l.source (l.part first (stop - first))) := by
  obtain ⟨n, hpos, hn, hexpr⟩ := exists_splitAlias hne
  rw [length_part (by omega)] at hn
  have htake : (l.part first (stop - first)).take n = l.part first n := by
    rw [Listing.part, List.take_take, Nat.min_eq_left hn, Listing.part]
  have hsize : (l.part first n).length = n := length_part (by omega)
  rw [htake] at hexpr
  have hitem : item? largest l first (splitAlias (l.part first (stop - first))).1
      (splitAlias (l.part first (stop - first))).2 =
        .ok (SelectItem.ofTokens? l.source (l.part first (stop - first))) := by
    refine item?_eq hl ?_ ?_ ?_ rfl
    · rw [hexpr, hsize]
    · rw [hexpr, hsize]
      omega
    · rw [hexpr, ← List.length_pos_iff, hsize]
      exact hpos
  rw [selectItem, access_bind (part_eq hle hstop), ← access_eq hitem]
  exact if_neg (mt List.isEmpty_iff.1 hne)

end Items

section Queries

variable {largest : Nat} {l : Listing} (hl : Covers largest l)
include hl

theorem safe_selectItems (budget : Nat) (items : List SelectItem) :
    Safe l Eq (Grammar.selectItems l.source budget items) (selectItems largest l budget items) := by
  induction budget generalizing items with
  | zero => exact safe_exhausted _
  | succ budget ih =>
    refine (safe_captureRange hl _).bind fun tokens range h => ?_
    obtain ⟨hle, hstop, rfl⟩ := h
    by_cases hnil : l.part range.1 (range.2 - range.1) = []
    · rw [selectItem_eq_unexpected hle hstop hnil, hnil]
      rintro _ position ⟨rfl, hwithin⟩
      exact .error rfl ⟨rfl, hwithin⟩
    · rw [selectItem_eq hl hle hstop hnil, pure_bind]
      dsimp only
      rw [if_neg (mt List.isEmpty_iff.1 hnil)]
      refine (safe_plain (inStep_eat _)).seq fun comma => ?_
      cases comma with
      | true => exact ih _
      | false => exact .pure rfl

omit hl in
theorem safe_fromSource : Safe l Eq Grammar.fromSource (fromSource l) := by
  refine (safe_plain (inStep_isAt _)).seq fun paren => ?_
  cases paren with
  | true => exact safe_skipBalanced.seq fun _ => .pure rfl
  | false => exact (safe_plain (inStep_qualifiedName _)).seq fun _ => .pure rfl

theorem safe_selectFrom : Safe l Eq (Grammar.selectFrom l.source) (selectFrom largest l) := by
  refine (safe_plain (inStep_expectKeyword _)).seq fun _ => ?_
  refine (safe_selectItems hl _ _).seq fun items => ?_
  exact (safe_plain (inStep_expectKeyword _)).seq fun _ =>
    safe_fromSource.seq fun _ => .pure rfl

theorem safe_subquery : Safe l Eq (Grammar.subquery l.source) (subquery largest l) := by
  refine (safe_plain (inStep_expectName _)).seq fun name => ?_
  refine (safe_plain (inStep_expectKeyword _)).seq fun _ => ?_
  refine (safe_plain (inStep_expect _ _)).discard.seq fun _ => ?_
  exact (safe_selectFrom hl).seq fun _ => safe_skipToClose.seq fun _ => .pure rfl

theorem safe_withClause : Safe l Eq (Grammar.withClause l.source) (withClause largest l) := by
  have hrest (sub? : Option Subquery) :
      Safe l Eq (do discard (run (·.isKeyword .select)); return sub?)
        (do discard (capture largest l (·.isKeyword .select)); return sub?) :=
    (safe_discard_run hl _).seq fun _ => .pure rfl
  refine (safe_plain inStep_atSubquery).seq fun atSub => ?_
  cases atSub with
  | true => exact Lockstep.seq ((safe_subquery hl).mono fun _ _ h => congrArg some h).map hrest
  | false => exact hrest none

theorem safe_viewQuery : Safe l Eq (Grammar.viewQuery l.source) (viewQuery largest l) := by
  have hrest (sub? : Option Subquery) :
      Safe l Eq
        (do
          let query ← Grammar.selectFrom l.source
          modify Cursor.finish
          return (⟨query.2, query.1, sub?⟩ : ViewQuery))
        (do
          let query ← selectFrom largest l
          plain l (modify Cursor.finish)
          return ⟨query.2, query.1, sub?⟩) :=
    (safe_selectFrom hl).seq fun _ => (safe_plain inStep_finish).seq fun _ => .pure rfl
  refine (safe_plain (inStep_eat _)).seq fun clause => ?_
  cases clause with
  | true => exact (safe_withClause hl).seq hrest
  | false => exact hrest none

end Queries

section Clauses

variable {largest : Nat} {l : Listing} (hl : Covers largest l)
include hl

theorem safe_engine : Safe l Eq (Grammar.engine l.source) (engine largest l) := by
  refine Lockstep.get.bind fun mark first hmark => ?_
  have hrest : Safe l Eq (do return sourceText l.source ((← get).since mark))
      (do rawText largest l first (← get)) := by
    refine Lockstep.get.bind fun c stop h => ?_
    rw [hmark.since h, access_eq (hl.rawText_eq first h.within)]
    exact .pure rfl
  refine (safe_plain (inStep_expectName _)).discard.seq fun _ => ?_
  refine (safe_plain (inStep_isAt _)).seq fun opened => ?_
  cases opened with
  | true => exact safe_skipBalanced.seq fun _ => hrest
  | false => exact hrest

theorem safe_asBody (table : TableDecl) :
    Safe l Eq (Grammar.asBody l.source table) (asBody largest l table) := by
  unfold Grammar.asBody asBody
  split_ifs
  · exact (safe_viewQuery hl).seq fun _ => (safe_plain (inStep_check _ _)).seq fun _ => .pure rfl
  · exact (safe_plain inStep_finish).seq fun _ => .pure rfl

theorem safe_clauseExpression :
    Safe l Eq (Grammar.clauseExpression l.source) (clauseExpression largest l) :=
  safe_captureExpression hl _

theorem safe_tableClause (table : TableDecl) (kind : TokenKind) :
    Safe l Eq (Grammar.tableClause l.source table kind) (tableClause largest l table kind) := by
  have hadvance : Safe l Eq advance (plain l advance) := safe_plain inStep_advance
  have hword (k : Keyword) : Safe l Eq (expectKeyword k) (plain l (expectKeyword k)) :=
    safe_plain (inStep_expectKeyword k)
  have hequals : Safe l Eq (discard (eat .equals)) (discard (plain l (eat .equals))) :=
    (safe_plain (inStep_eat _)).discard
  have hexpr := safe_clauseExpression hl
  cases kind with
  | semicolon => exact hadvance.seq fun _ => .pure rfl
  | keyword k =>
    cases k with
    | engine =>
      exact hadvance.seq fun _ => hequals.seq fun _ => (safe_engine hl).seq fun _ => .pure rfl
    | partition | order | primary =>
      exact hadvance.seq fun _ => (hword _).seq fun _ => hexpr.seq fun _ => .pure rfl
    | sample =>
      exact hadvance.seq fun _ => (hword _).seq fun _ => hexpr.discard.seq fun _ => .pure rfl
    | ttl | settings => exact hadvance.seq fun _ => hexpr.discard.seq fun _ => .pure rfl
    | comment =>
      exact hadvance.seq fun _ => hequals.seq fun _ =>
        (safe_plain (inStep_expectString _)).seq fun _ => .pure rfl
    | populate => exact hadvance.seq fun _ => .pure rfl
    | as => exact hadvance.seq fun _ => (safe_asBody hl table).seq fun _ => .pure rfl
    | _ => exact safe_unexpected _
  | _ => exact safe_unexpected _

theorem safe_tableClauses (budget : Nat) (table : TableDecl) :
    Safe l Eq (Grammar.tableClauses l.source budget table)
      (tableClauses largest l budget table) := by
  unfold Grammar.tableClauses tableClauses
  refine (safe_plain inStep_peek?).seq fun t? => ?_
  cases t? with
  | none => cases budget <;> exact .pure rfl
  | some t =>
    cases budget with
    | zero => exact safe_exhausted _
    | succ budget =>
      refine (safe_tableClause hl table t.kind).seq fun progress => ?_
      cases progress with
      | more table => exact safe_tableClauses budget table
      | done table => exact .pure rfl

theorem safe_statement : Safe l Eq (Grammar.statement l.source) (statement largest l) := by
  refine (safe_plain inStep_tableHeader).seq fun header => ?_
  have hrest (columns : List ColumnDecl) :
      Safe l Eq
        (do
          let table ← Grammar.tableClauses l.source (Ceiling.steps .tableClauses).limit
            { header with columns }
          if table.columns.isEmpty then throw (.parse (.noColumns table.qualifiedName))
          return table)
        (do
          let table ← tableClauses largest l (Ceiling.steps .tableClauses).limit
            { header with columns }
          if table.columns.isEmpty then fail (.parse (.noColumns table.qualifiedName))
          return table) := by
    refine (safe_tableClauses hl _ _).seq fun table => ?_
    dsimp only
    split_ifs
    · exact Lockstep.seq (α := Unit) (safe_fail _) fun _ => .pure rfl
    · exact .pure rfl
  refine (safe_plain (inStep_isAt _)).seq fun opened => ?_
  cases opened with
  | true => exact (safe_columnList hl).seq hrest
  | false => exact hrest []

end Clauses

end TypedTables.Checked
