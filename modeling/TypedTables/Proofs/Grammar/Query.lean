import TypedTables.Proofs.Grammar.Repeats
import TypedTables.Proofs.Grammar.Table

/-!
The query of a view. It stands behind an `AS`, to which a statement is read the same whatever query
follows; and behind its `WITH` clause it is read the same as without one.
-/

namespace TypedTables

def ViewQuery.withoutSubquery (query : ViewQuery) : ViewQuery := { query with subquery := none }

@[simp] theorem ViewQuery.items_withoutSubquery (query : ViewQuery) :
    query.withoutSubquery.items = query.items := rfl

namespace Grammar

variable {source source' : String} {table view : TableDecl} {query : ViewQuery} {c c₁ : Cursor}

section Clauses

/-- Only a query behind `AS` leaves one. -/
theorem yields_query {kind : TokenKind} (h : kind ≠ .keyword .as) :
    Yields (tableClause source table kind) fun progress => progress.table.query = table.query := by
  unfold tableClause
  split
  · exact .seq fun _ => .pure rfl
  · exact .seq fun _ => .seq fun _ => .seq fun _ => .pure rfl
  · exact .seq fun _ => .seq fun _ => .seq fun _ => .pure rfl
  · exact .seq fun _ => .seq fun _ => .seq fun _ => .pure rfl
  · exact .seq fun _ => .seq fun _ => .seq fun _ => .pure rfl
  · exact .seq fun _ => .seq fun _ => .seq fun _ => .pure rfl
  · exact .seq fun _ => .seq fun _ => .pure rfl
  · exact .seq fun _ => .seq fun _ => .pure rfl
  · exact .seq fun _ => .seq fun _ => .seq fun _ => .pure rfl
  · exact .seq fun _ => .pure rfl
  · contradiction
  · exact .unexpected

/-- Tokens without an `AS` outside parentheses. -/
abbrev NoAs : List Token → Prop := Clear (·.isKeyword .as)

theorem noAs_of_clause {more : TableDecl} {taken : List Token} (h : Clause (.more more) taken) :
    NoAs taken := by
  generalize hprogress : Progress.more more = progress at h
  cases h with
  | plain h => exact h.of_imp fun t ht => by simp [isMark, ht]
  | @expr _ words expr hwords hexpr =>
    have hall : ∀ kinds ∈ exprWords, ∀ kind ∈ kinds,
        kind ≠ .openParen ∧ kind ≠ .closeParen ∧ kind ≠ .keyword .as := by decide
    have hclear : NoAs words := .of_forall fun t ht => by
      obtain ⟨hopen, hclose, has⟩ := hall _ hwords _ (List.mem_map_of_mem ht)
      exact ⟨hopen, hclose, by simpa [Token.isKeyword] using has⟩
    refine hclear.append (hexpr.of_imp fun t ht => ?_)
    have has : t.kind = .keyword .as := by simpa [Token.isKeyword] using ht
    simp [endsRun, startsTableClause, has]
  | semicolon => contradiction
  | query => contradiction

theorem tableClauses_cons (source : String) (budget : Nat) (table : TableDecl) (p : Nat) (t : Token)
    (rest : List Token) : tableClauses source (budget + 1) table ⟨p, t :: rest⟩ = (do
      match ← tableClause source table t.kind with
      | .more table => tableClauses source budget table
      | .done table => return table : Grammar TableDecl) ⟨p, t :: rest⟩ := by
  conv_lhs => unfold tableClauses
  rfl

theorem tableClauses_as {as : Token} (has : as.kind = .keyword .as) (budget p : Nat)
    (body : List Token) :
    tableClauses source (budget + 1) table ⟨p, as :: body⟩ = asBody source table ⟨p + 1, body⟩ := by
  have hclause : (do
      match ← tableClause source table as.kind with
      | .more table => tableClauses source budget table
      | .done table => return table) = (do advance; asBody source table) := by
    simp only [has, tableClause, bind_assoc, pure_bind, bind_pure]
  rw [tableClauses_cons, hclause]
  rfl

theorem forward_tableClause {kind : TokenKind} (h : kind ≠ .keyword .as) :
    Forward (tableClause source table kind) :=
  (show Repeats source source Eq _ _ from repeats_tableClause h).forward

/-- One clause is read the same in another text, and the clauses go on behind it. -/
theorem tableClauses_more {t : Token} {p : Nat} {rest taken : List Token} {more : TableDecl}
    (has : t.kind ≠ .keyword .as)
    (h : tableClause source table t.kind ⟨p, t :: rest⟩ = .ok (.more more) c)
    (hmoved : Cursor.Moved ⟨p, t :: rest⟩ taken c) {taken' tail : List Token}
    (htaken : Alike source source' taken taken') (hnext : SameNext c.rest tail) (budget p' : Nat) :
    tableClauses source' (budget + 1) table ⟨p', taken' ++ tail⟩ =
      tableClauses source' budget more ⟨p' + taken'.length, tail⟩ := by
  have hfirst : SameNext (t :: rest) (taken' ++ tail) := hnext.of_moved hmoved htaken
  obtain ⟨t', rest', heq, ht⟩ := hfirst.exists_cons
  obtain ⟨_, h', rfl⟩ := (repeats_tableClause has).of_moved h hmoved p' htaken hnext
  rw [heq] at h'
  rw [heq, tableClauses_cons, ← (Prod.mk.inj ht).1, bind_of_ok h']

/-- Up to the `AS` and with it, tokens that are alike go on alike. -/
theorem sameNext_of_moved {front front' : List Token} {as as' : Token}
    (hmoved : c.Moved (front ++ [as]) c₁) (halike : Alike source source' front front')
    (has : as.content = as'.content) (body : List Token) :
    SameNext c.rest (front' ++ as' :: body) := by
  have hlast : SameNext (as :: c₁.rest) (as' :: body) := congrArg some has
  rw [hmoved.rest, List.append_assoc]
  exact hlast.append halike

/-- The clauses before the query are read the same wherever they stand and whatever the query. -/
theorem exists_query_of_tableClauses {budget : Nat}
    (h : tableClauses source budget table c = .ok view c₁) (hnone : table.query = none)
    (hquery : view.query = some query) : ∃ front as c₂ before, c.Moved (front ++ [as]) c₂ ∧
      NoAs front ∧ as.kind = .keyword .as ∧ before.query = none ∧
      asBody source before c₂ = .ok view c₁ ∧
      ∀ source' p front' as' body, Alike source source' front front' → as.content = as'.content →
        tableClauses source' budget table ⟨p, front' ++ as' :: body⟩ =
          asBody source' before ⟨p + front'.length + 1, body⟩ := by
  induction budget generalizing table c with
  | zero =>
    unfold tableClauses at h
    obtain ⟨_, _, ⟨⟩, h⟩ := bind_eq_ok.1 h
    cases hpeek : c.peek? with
    | none =>
      rw [hpeek] at h
      cases h
      exact absurd (hquery.symm.trans hnone) (Option.some_ne_none _)
    | some t =>
      rw [hpeek] at h
      contradiction
  | succ budget ih =>
    obtain ⟨position, rest⟩ := c
    cases rest with
    | nil =>
      unfold tableClauses at h
      cases h
      exact absurd (hquery.symm.trans hnone) (Option.some_ne_none _)
    | cons t rest =>
      by_cases has : t.kind = .keyword .as
      · rw [tableClauses_as has] at h
        refine ⟨[], t, ⟨position + 1, rest⟩, table, ⟨rfl, rfl⟩, .nil, has, hnone, h, ?_⟩
        intro source' p front' as' body halike hcontent
        have has' : as'.kind = .keyword .as := by rw [← has, (Prod.mk.inj hcontent).1]
        rw [halike.eq_nil]
        exact tableClauses_as has' budget p body
      · rw [tableClauses_cons] at h
        obtain ⟨progress, c₂, hclause, h⟩ := bind_eq_ok.1 h
        have hsame : progress.table.query = table.query := yields_query has _ _ _ hclause
        cases progress with
        | done done =>
          cases h
          exact absurd (hquery.symm.trans (hsame.trans hnone)) (Option.some_ne_none _)
        | more more =>
          obtain ⟨taken, htaken⟩ := forward_tableClause has _ _ _ hclause
          obtain ⟨front, as, c₃, before, hmoved, hclear, has', hbefore, hbody, hreads⟩ :=
            ih h (hsame.trans hnone)
          have htaken₀ : NoAs taken := by
            obtain ⟨taken₀, hmoved₀, hclause₀⟩ := (moves_tableClause rfl).of_ok hclause
            obtain rfl := hmoved₀.eq htaken
            exact noAs_of_clause hclause₀
          refine ⟨taken ++ front, as, c₃, before, ?_, htaken₀.append hclear, has', hbefore, hbody,
            ?_⟩
          · rw [List.append_assoc]
            exact htaken.trans hmoved
          · intro source' p taken₁ as' body halike hcontent
            obtain ⟨taken', front', rfl, htaken', hfront'⟩ := halike.exists_append
            have hnext := sameNext_of_moved hmoved hfront' hcontent body
            rw [List.append_assoc, tableClauses_more has hclause htaken htaken' hnext,
              List.length_append, ← Nat.add_assoc]
            exact hreads source' _ front' as' body hfront' hcontent

end Clauses

section Query

variable {before : TableDecl}

/-- The main query of a view, behind its sub-query. -/
def mainQuery (source : String) (sub : Option Subquery) : Grammar ViewQuery := do
  let (items, from_) ← selectFrom source
  modify Cursor.finish
  return ⟨from_, items, sub⟩

theorem repeats_mainQuery (sub : Option Subquery) : Repeats source source'
    (fun query query' => query' = query.withoutSubquery)
    (mainQuery source sub) (mainQuery source' none) :=
  repeats_selectFrom.seq fun _ => repeats_finish.seq fun _ => .pure rfl

/-- The main query begins with `SELECT` and goes to the end of the tokens. -/
theorem exists_select_of_mainQuery {sub : Option Subquery}
    (h : mainQuery source sub c = .ok query c₁) : c₁.rest = [] ∧
      ∃ select body, c.rest = select :: body ∧ select.kind = .keyword .select := by
  obtain ⟨_, c₂, hselect, h⟩ := bind_eq_ok.1 h
  obtain ⟨_, _, ⟨⟩, h⟩ := bind_eq_ok.1 h
  cases h
  obtain ⟨_, c₃, hkeyword, -⟩ := bind_eq_ok.1 hselect
  obtain ⟨_, hmoved, select, rfl, hkind⟩ := (moves_expectKeyword .select).of_ok hkeyword
  exact ⟨rfl, select, c₃.rest, hmoved.rest, hkind⟩

/-- What may stand between `AS` and the main `SELECT`: nothing, or a `WITH` clause. -/
def WithClause (ts : List Token) : Prop :=
  ts = [] ∨ ∃ first rest, ts = first :: rest ∧ first.kind = .keyword .with ∧ NoSelect rest

theorem viewQuery_eq (source : String) : viewQuery source = (do
    let sub ← if ← eatKeyword .with then withClause source else pure none
    mainQuery source sub) := rfl

theorem exists_clause_of_viewQuery (h : viewQuery source c = .ok query c₁) :
    ∃ clause c₂ sub, c.Moved clause c₂ ∧ WithClause clause ∧
      mainQuery source sub c₂ = .ok query c₁ := by
  rw [viewQuery_eq] at h
  obtain ⟨found, c₂, hfound, h⟩ := bind_eq_ok.1 h
  obtain ⟨_, hmoved, ⟨rfl, first, rfl, hfirst⟩ | ⟨rfl, rfl⟩⟩ := (moves_eat _).of_ok hfound
  · obtain ⟨sub, c₃, hsub, h⟩ := bind_eq_ok.1 h
    obtain ⟨rest, hrest, hclear⟩ := (takes_withClause c₂).of_ok hsub
    exact ⟨first :: rest, c₃, sub, hmoved.trans hrest, .inr ⟨first, rest, rfl, hfirst, hclear⟩, h⟩
  · exact ⟨[], c₂, none, hmoved, .inl rfl, h⟩

theorem viewQuery_select {select : Token} (h : select.kind = .keyword .select) (p : Nat)
    (body : List Token) :
    viewQuery source ⟨p, select :: body⟩ = mainQuery source none ⟨p, select :: body⟩ := by
  have hnone : accept? (·.kind == .keyword .with) ⟨p, select :: body⟩ =
      .ok none ⟨p, select :: body⟩ := by
    rw [accept?]
    dsimp only
    rw [if_neg (by simp [h])]
  have hwith : eatKeyword .with ⟨p, select :: body⟩ = .ok false ⟨p, select :: body⟩ := by
    rw [eatKeyword, eat, ← bind_pure_comp, bind_of_ok hnone]
    rfl
  rw [viewQuery_eq, bind_of_ok hwith]
  rfl

/-- Behind `AS` the query of a view is read the same without its `WITH` clause. -/
theorem exists_clause_of_asBody (h : asBody source before c = .ok view c₁)
    (hnone : before.query = none) (hquery : view.query = some query) :
    ∃ clause c₂ select body, c.Moved clause c₂ ∧ WithClause clause ∧ c₂.rest = select :: body ∧
      select.kind = .keyword .select ∧ ∀ source' p main', Alike source source' c₂.rest main' →
        ∃ c₃, c₃.rest = [] ∧ asBody source' before ⟨p, main'⟩ =
          .ok { view with query := some query.withoutSubquery } c₃ := by
  unfold asBody at h
  split_ifs at h with hview
  · obtain ⟨query', c₂, hread, h⟩ := bind_eq_ok.1 h
    obtain ⟨_, c₃, hcheck, h⟩ := bind_eq_ok.1 h
    cases h
    obtain rfl : query' = query := Option.some.inj hquery
    obtain ⟨clause, c₄, sub, hmoved, hclause, hmain⟩ := exists_clause_of_viewQuery hread
    obtain ⟨hend, select, body, hrest, hselect⟩ := exists_select_of_mainQuery hmain
    refine ⟨clause, c₄, select, body, hmoved, hclause, hrest, hselect, ?_⟩
    intro source' p main' halike
    obtain ⟨taken, htaken, hrepeats⟩ := repeats_mainQuery sub _ _ _ hmain
    obtain rfl : c₄.rest = taken := by rw [htaken.rest, hend, List.append_nil]
    obtain ⟨_, hmain', rfl⟩ := hrepeats p main' [] halike (by rw [hend]; rfl)
    rw [List.append_nil] at hmain'
    obtain ⟨select', body', rfl, hcontent, -⟩ := (hrest ▸ halike).exists_cons
    rw [← viewQuery_select (by rw [← hselect, (Prod.mk.inj hcontent).1])] at hmain'
    have hcount : query'.items.length ≤ Ceiling.columnCount.limit := Yields.check _ _ _ hcheck
    have hcheck' (c : Cursor) : check .columnCount query'.items.length c = .ok () c := by
      rw [check, Ceiling.check_eq_ok.2 hcount]
    refine ⟨⟨p + (select' :: body').length, []⟩, rfl, ?_⟩
    rw [asBody, if_pos hview, bind_of_ok hmain', ViewQuery.items_withoutSubquery,
      bind_of_ok (hcheck' _)]
    rfl
  · obtain ⟨_, c₂, ⟨⟩, h⟩ := bind_eq_ok.1 h
    cases h
    exact absurd (hquery.symm.trans hnone) (Option.some_ne_none _)

end Query

section Statement

/-- What a statement says before its clauses. -/
def tableHead (source : String) : Grammar TableDecl := do
  let table ← tableHeader
  let columns ← if ← isAt .openParen then columnList source else pure []
  return { table with columns }

/-- The clauses of a statement, which has to come to columns. -/
def tableTail (source : String) (head : TableDecl) : Grammar TableDecl := do
  let table ← tableClauses source (Ceiling.steps .tableClauses).limit head
  if table.columns.isEmpty then throw (.parse (.noColumns table.qualifiedName))
  return table

theorem statement_eq (source : String) :
    statement source = tableHead source >>= tableTail source := by
  rw [statement, tableHead, bind_assoc]
  congr 1
  funext header
  rw [bind_assoc]
  congr 1
  funext paren
  cases paren with
  | true =>
    simp only [if_true, bind_assoc, pure_bind]
    rfl
  | false => rfl

theorem repeats_tableHead : Repeats source source' Eq (tableHead source) (tableHead source') := by
  refine repeats_tableHeader.seq fun header => ?_
  refine .looksAt (ofContent_kind (· == .openParen)) fun paren => ?_
  cases paren with
  | true => exact repeats_columnList.seq fun _ => .pure rfl
  | false => exact .pure rfl

theorem noAs_of_header {kind : TableKind} {first : Token} {ts : List Token}
    (h : Header kind first ts) : NoAs ts := by
  obtain @⟨create, replace, more, hcreate, hreplace, hfirst, hmore⟩ := h
  have hall : ∀ kinds ∈ [[], [TokenKind.keyword .or, .keyword .replace]], ∀ kind ∈ kinds,
      kind ∉ markOrParen := by decide
  have hclear : Clear isMark replace :=
    clear_of_kinds fun t ht => hall _ hreplace _ (List.mem_map_of_mem ht)
  have htokens : Clear isMark ([create] ++ (replace ++ ([first] ++ more))) :=
    (clear_of_kind create hcreate (by decide)).append
      (hclear.append ((clear_of_tells hfirst).append hmore))
  exact htokens.of_imp fun t ht => by simp [isMark, ht]

theorem takes_tableHead : Takes NoAs (tableHead source) := by
  refine .bind (fun c => (moves_tableHeader c).mono fun _ _ ⟨_, h⟩ => noAs_of_header h) fun _ => ?_
  refine .looksAt fun paren => ?_
  dsimp only
  split
  · refine .bind (fun c => (moves_columnList c).mono fun _ _ h => ?_) fun _ => .pure
    exact h.clear fun o ho => by simp [Token.isKeyword, ho]
  · exact .bind .pure fun _ => .pure

theorem yields_tableHead : Yields (tableHead source) (·.query = none) := by
  refine yields_tableHeader.bind fun header hheader => .seq fun paren => ?_
  dsimp only
  split_ifs
  · exact .seq fun _ => .pure hheader
  · exact .seq fun _ => .pure hheader

/-- The tokens of a statement that declares a view with a query. Without the `WITH` clause it
declares the same view without a sub-query. -/
theorem exists_clause_of_statement (h : statement source c = .ok view c₁)
    (hquery : view.query = some query) :
    ∃ front as clause select body, c.rest = front ++ as :: (clause ++ select :: body) ∧
      NoAs front ∧ as.kind = .keyword .as ∧ WithClause clause ∧ select.kind = .keyword .select ∧
      ∀ source' p front' main', Alike source source' (front ++ [as]) front' →
        Alike source source' (select :: body) main' →
        ∃ c₂, statement source' ⟨p, front' ++ main'⟩ =
          .ok { view with query := some query.withoutSubquery } c₂ := by
  rw [statement_eq] at h
  obtain ⟨table, c₂, hhead, h⟩ := bind_eq_ok.1 h
  obtain ⟨view', c₃, hclauses, h⟩ := bind_eq_ok.1 h
  dsimp only at h
  split_ifs at h with hcolumns
  · contradiction
  cases h
  obtain ⟨front, as, c₄, before, hfront, hclear, has, hbefore, hbody, hreads⟩ :=
    exists_query_of_tableClauses hclauses (yields_tableHead _ _ _ hhead) hquery
  obtain ⟨clause, c₅, select, body, hclause, hwith, hrest, hselect, hmain⟩ :=
    exists_clause_of_asBody hbody hbefore hquery
  obtain ⟨head, hmoved, hhead₀⟩ := (takes_tableHead c).of_ok hhead
  refine ⟨head ++ front, as, clause, select, body, ?_, hhead₀.append hclear, has, hwith, hselect,
    ?_⟩
  · rw [hmoved.rest, hfront.rest, hclause.rest, hrest]
    simp
  intro source' p front₁ main' halike hmain'
  obtain ⟨_, _, rfl, hbefore', hlast⟩ := halike.exists_append
  obtain ⟨as', rfl, has'⟩ := hlast.exists_single
  obtain ⟨head', front', rfl, hhead', hfront'⟩ := hbefore'.exists_append
  have hnext := sameNext_of_moved hfront hfront' has' main'
  obtain ⟨_, hhead', rfl⟩ := repeats_tableHead.of_moved hhead hmoved p hhead' hnext
  obtain ⟨c₆, -, hview⟩ :=
    hmain source' (p + head'.length + front'.length + 1) main' (hrest ▸ hmain')
  rw [← hreads source' _ front' as' main' hfront' has'] at hview
  refine ⟨c₆, ?_⟩
  rw [List.append_assoc, List.append_assoc, List.singleton_append, statement_eq,
    bind_of_ok hhead', tableTail, bind_of_ok hview]
  dsimp only
  rw [if_neg hcolumns]
  rfl

end Statement

end Grammar

end TypedTables
