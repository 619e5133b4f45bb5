import TypedTables.Proofs.Grammar.Extent

/-!
What a statement is made of: a header, perhaps a column list, and clauses. Only the expressions of
clauses can hold a `TO` or, as the query does, a semicolon outside parentheses.
-/

namespace TypedTables

/-- `TO` and `AS`, which tell a route from a query. -/
def isMark (t : Token) : Bool := t.isKeyword .to || t.isKeyword .as

section Single

variable {ts : List Token}

/-- The kinds of marks and of parentheses. -/
def markOrParen : List TokenKind := [.openParen, .closeParen, .keyword .to, .keyword .as]

theorem clear_of_kinds (h : ∀ t ∈ ts, t.kind ∉ markOrParen) : Clear isMark ts := by
  refine .of_forall fun t ht => ?_
  have hk := h t ht
  simp only [markOrParen, List.mem_cons, not_or] at hk
  exact ⟨hk.1, hk.2.1, by simp [isMark, Token.isKeyword, hk]⟩

theorem clear_of_kind {kind : TokenKind} (t : Token) (h : t.kind = kind) (hk : kind ∉ markOrParen) :
    Clear isMark [t] := clear_of_kinds (List.forall_mem_singleton.2 (h ▸ hk))

theorem kind_of_isName {t : Token} (h : t.isName = true) : t.kind ∉ markOrParen := by
  intro hk
  simp only [markOrParen, List.mem_cons, List.not_mem_nil, or_false] at hk
  obtain hk | hk | hk | hk := hk <;> simp [Token.isName, hk, Keyword.isReserved] at h

theorem clear_of_isName (t : Token) (h : t.isName = true) : Clear isMark [t] :=
  clear_of_kind t rfl (kind_of_isName h)

theorem clear_of_dotted (h : Grammar.Dotted ts) : Clear isMark ts := by
  refine clear_of_kinds fun t ht => ?_
  obtain ht | ht := h t ht
  · exact kind_of_isName ht
  · rw [ht]
    decide

end Single

namespace Grammar

section Gives

variable {α β : Type} {R : β → Prop} {f : α → Grammar β}

/-- What holds of the result of a step, among whose tokens there is no mark. -/
def Gives (R : β → Prop) (g : Grammar β) : Prop :=
  ∀ c, Moves c g fun b taken => R b ∧ Clear isMark taken

theorem Gives.pure {b : β} (h : R b) : Gives R (Pure.pure b : Grammar β) :=
  fun _ => .pure ⟨h, .nil⟩

theorem Gives.behind {g : Grammar α} (hg : Takes (Clear isMark) g) (hf : ∀ a, Gives R (f a)) :
    Gives R (g >>= f) :=
  fun c => (hg c).bind fun a _ c₁ _ hts => (hf a c₁).mono fun _ _ h => ⟨h.1, hts.append h.2⟩

end Gives

section Header

variable {kind : TableKind} {first : Token} {ts us : List Token}

/-- The word before the name that tells what is declared, or a `TEMPORARY` before it. -/
def Tells (kind : TableKind) (first : Token) : Prop :=
  first.kind = .keyword .temporary ∨
    first.kind = .keyword (match kind with | .table => .table | .materializedView => .materialized)

theorem clear_of_tells (h : Tells kind first) : Clear isMark [first] := by
  obtain h | h := h
  · exact clear_of_kind first h (by decide)
  · refine clear_of_kind first h ?_
    cases kind <;> decide

/-- What stands before the clauses, and its first word behind `CREATE` or `CREATE OR REPLACE`. -/
inductive Header (kind : TableKind) (first : Token) : List Token → Prop
  | mk {create replace more} : create.kind = .keyword .create →
      replace.map Token.kind ∈ [[], [.keyword .or, .keyword .replace]] → Tells kind first →
      Clear isMark more → Header kind first (create :: (replace ++ first :: more))

theorem Header.append (h : Header kind first ts) (hus : Clear isMark us) :
    Header kind first (ts ++ us) := by
  obtain ⟨hc, hr, hf, hmore⟩ := h
  have := Header.mk hc hr hf (hmore.append hus)
  simpa using this

theorem takes_qualifiedName (what : Expected) : Takes (Clear isMark) (qualifiedName what) :=
  fun _ => (moves_qualifiedName what).mono fun _ _ h => clear_of_dotted h

theorem takes_ifNotExists : Takes (Clear isMark) ifNotExists := by
  refine .bind (.eat .nil fun t h => clear_of_kind t h (by decide)) fun found => ?_
  split
  · refine .bind (.expectKeyword fun t h => clear_of_kind t h (by decide)) fun _ => ?_
    exact .expectKeyword fun t h => clear_of_kind t h (by decide)
  · exact .pure

theorem takes_onCluster : Takes (Clear isMark) onCluster := by
  refine .bind (.eat .nil fun t h => clear_of_kind t h (by decide)) fun found => ?_
  split
  · refine .bind (.expectKeyword fun t h => clear_of_kind t h (by decide)) fun _ c => .looksAt ?_
    split
    · next hstring =>
      obtain ⟨t, hpeek, ht⟩ := c.exists_peek? hstring
      have hclear : Clear isMark [t] := clear_of_kind t (by simpa using ht) (by decide)
      exact (moves_advance hpeek).mono fun _ _ h => h ▸ hclear
    · exact (Takes.map (.expectName clear_of_isName)) c
  · exact .pure

theorem moves_tableKind (c : Cursor) : Moves c tableKind fun kind taken =>
    ∃ first more, taken = first :: more ∧ Tells kind first ∧ Clear isMark more := by
  refine (moves_eat _).bind fun materialized taken c₁ _ h => ?_
  obtain ⟨rfl, t, rfl, ht⟩ | ⟨rfl, rfl⟩ := h
  · refine (moves_expectKeyword _).bind fun _ taken c₂ _ h => .pure ?_
    obtain ⟨u, rfl, hu⟩ := h
    exact ⟨t, _, rfl, .inr ht, clear_of_kind u hu (by decide)⟩
  · refine (moves_eat _).bind fun table taken c₂ _ h => ?_
    obtain ⟨rfl, t, rfl, ht⟩ | ⟨rfl, rfl⟩ := h
    · exact .pure ⟨t, _, rfl, .inr ht, .nil⟩
    · refine .looksAt ?_
      split <;> exact .unexpected

theorem moves_orReplace (c : Cursor) : Moves c orReplace fun _ taken =>
    taken.map Token.kind ∈ [[], [.keyword .or, .keyword .replace]] := by
  refine (moves_eat _).bind fun or taken c₁ _ h => ?_
  obtain ⟨rfl, t, rfl, ht⟩ | ⟨rfl, rfl⟩ := h
  · refine (moves_expectKeyword _).mono fun _ _ h => ?_
    obtain ⟨u, rfl, hu⟩ := h
    simp [ht, hu]
  · exact .pure (by simp)

theorem gives_headerBehindKind (kind : TableKind) :
    Gives (fun table : TableDecl => table.kind = kind) (do
    ifNotExists
    let (database, name) ← qualifiedName .tableName
    onCluster
    if ← isAtKeyword .to then unexpected .routedView
    return { name, database, kind }) := by
  refine .behind takes_ifNotExists fun _ => ?_
  refine .behind (takes_qualifiedName _) fun (database, name) => ?_
  refine .behind takes_onCluster fun _ c => .looksAt ?_
  dsimp only
  split
  · exact .bind (P := fun _ _ => False) .unexpected nofun
  · exact Gives.pure rfl c

theorem moves_tableHeader (c : Cursor) : Moves c tableHeader fun table taken =>
    ∃ first, Header table.kind first taken := by
  refine (moves_expectKeyword _).bind fun _ taken c₁ _ h => ?_
  obtain ⟨create, rfl, hcreate⟩ := h
  refine (moves_orReplace c₁).bind fun _ replace c₂ _ hreplace => ?_
  have htemporary : Moves c₂ (discard (eatKeyword .temporary)) fun _ taken =>
      taken = [] ∨ ∃ t, taken = [t] ∧ t.kind = .keyword .temporary :=
    ((moves_eat _).mono fun _ _ h => (h.imp And.right And.right).symm).map
  refine htemporary.bind fun _ temporary c₃ _ htemporary => ?_
  refine (moves_tableKind c₃).bind fun kind taken c₄ _ h => ?_
  obtain ⟨first, more, rfl, hfirst, hmore⟩ := h
  refine (gives_headerBehindKind kind c₄).mono fun table taken h => ?_
  obtain ⟨rfl, htaken⟩ := h
  have hrest : Clear isMark (more ++ taken) := hmore.append htaken
  obtain rfl | ⟨t, rfl, ht⟩ := htemporary
  · exact ⟨first, by simpa using Header.mk hcreate hreplace hfirst hrest⟩
  · have hwords : Clear isMark ([first] ++ (more ++ taken)) := (clear_of_tells hfirst).append hrest
    exact ⟨t, by simpa using Header.mk hcreate hreplace (.inl ht) hwords⟩

end Header

section Clauses

variable {source : String} {table : TableDecl} {t : Token} {c : Cursor}

/-- The words before the expressions of clauses. -/
def exprWords : List (List TokenKind) :=
  [[.keyword .partition, .keyword .by], [.keyword .order, .keyword .by],
   [.keyword .primary, .keyword .key], [.keyword .sample, .keyword .by],
   [.keyword .ttl], [.keyword .settings]]

/-- What a clause takes: some of them have an expression, no other one holds a mark, and a semicolon
or a query ends the clauses. -/
inductive Clause : Progress → List Token → Prop
  | plain {table : TableDecl} {ts} : Clear isMark ts → Clause (.more table) ts
  | expr {table : TableDecl} {words expr : List Token} : words.map Token.kind ∈ exprWords →
      Clear (endsRun startsTableClause) expr → Clause (.more table) (words ++ expr)
  | semicolon {table : TableDecl} {t : Token} : t.kind = .semicolon → Clause (.done table) [t]
  | query {table : TableDecl} {t more} : t.kind = .keyword .as → Clause (.done table) (t :: more)

theorem takes_asBody : Takes Anything (asBody source table) := by
  unfold asBody
  split_ifs
  · exact takes_viewQuery.bind fun query => Takes.check.bind fun _ => .pure
  · exact .bind (fun c => moves_finish) fun _ => .pure

theorem takes_engine : Takes (Clear isMark) (engine source) := by
  have hend (mark : Cursor) : Takes (Clear isMark) (do
      return sourceText source ((← get).since mark)) := .get fun c => .pure
  refine .get fun mark => .bind (.map (.expectName clear_of_isName)) fun _ => ?_
  refine .looksAt fun paren => ?_
  have hgroup : Takes (Clear isMark) skipBalanced := fun _ =>
    moves_skipBalanced.mono fun _ _ h => h.clear fun o ho => by simp [isMark, Token.isKeyword, ho]
  dsimp only
  split
  · exact hgroup.bind fun _ => hend mark
  · exact hend mark

section Words

variable {α : Type} {g : Grammar α} {f : α → Progress}

theorem moves_wordThen (hpeek : c.peek? = some t) (hword : [t.kind] ∈ exprWords)
    (hg : Takes (Clear (endsRun startsTableClause)) g) (hf : ∀ a, ∃ table, f a = .more table) :
    Moves c (do
      advance
      let a ← g
      return f a) Clause := by
  refine (moves_advance hpeek).bind fun _ taken c₁ _ h => ?_
  obtain rfl := h
  refine (hg c₁).bind fun a expr c₂ _ hexpr => .pure ?_
  obtain ⟨table, hfa⟩ := hf a
  rw [hfa, List.append_nil]
  exact .expr hword hexpr

theorem moves_wordsThen {k : Keyword} (hpeek : c.peek? = some t)
    (hwords : [t.kind, .keyword k] ∈ exprWords)
    (hg : Takes (Clear (endsRun startsTableClause)) g) (hf : ∀ a, ∃ table, f a = .more table) :
    Moves c (do
      advance
      expectKeyword k
      let a ← g
      return f a) Clause := by
  refine (moves_advance hpeek).bind fun _ taken c₁ _ h => ?_
  obtain rfl := h
  refine (moves_expectKeyword k).bind fun _ taken c₂ _ h => ?_
  obtain ⟨u, rfl, hu⟩ := h
  refine (hg c₂).bind fun a expr c₃ _ hexpr => .pure ?_
  obtain ⟨table, hfa⟩ := hf a
  have hmap : [t, u].map Token.kind ∈ exprWords := by simpa [hu] using hwords
  rw [hfa, List.append_nil, ← List.append_assoc]
  exact .expr hmap hexpr

end Words

theorem moves_plainClause {f : Unit → Grammar Progress} (hpeek : c.peek? = some t)
    (hmark : t.kind ∉ markOrParen)
    (hf : Gives (fun progress => ∃ table, progress = .more table) (f ())) :
    Moves c (advance >>= f) Clause := by
  refine (moves_advance hpeek).bind fun _ taken c₁ _ h => ?_
  obtain rfl := h
  refine (hf c₁).mono fun progress more h => ?_
  obtain ⟨⟨table, rfl⟩, hmore⟩ := h
  exact .plain ((clear_of_kind t rfl hmark).append hmore)

theorem moves_tableClause (hpeek : c.peek? = some t) :
    Moves c (tableClause source table t.kind) Clause := by
  have hexpr : Takes (Clear (endsRun startsTableClause)) (clauseExpression source) :=
    fun _ => moves_captureExpression source startsTableClause
  have hequals : Takes (Clear isMark) (discard (eat .equals)) :=
    .map (.eat .nil fun t h => clear_of_kind t h (by decide))
  unfold tableClause
  split
  · next hkind =>
    refine (moves_advance hpeek).bind fun _ taken c₁ _ h => .pure ?_
    obtain rfl := h
    exact .semicolon hkind
  · next hkind =>
    refine moves_plainClause hpeek (by rw [hkind]; decide) ?_
    exact .behind hequals fun _ => .behind takes_engine fun _ => .pure ⟨_, rfl⟩
  · next hkind => exact moves_wordsThen hpeek (by rw [hkind]; decide) hexpr fun _ => ⟨_, rfl⟩
  · next hkind => exact moves_wordsThen hpeek (by rw [hkind]; decide) hexpr fun _ => ⟨_, rfl⟩
  · next hkind => exact moves_wordsThen hpeek (by rw [hkind]; decide) hexpr fun _ => ⟨_, rfl⟩
  · next hkind => exact moves_wordsThen hpeek (by rw [hkind]; decide) hexpr.map fun _ => ⟨_, rfl⟩
  · next hkind => exact moves_wordThen hpeek (by rw [hkind]; decide) hexpr.map fun _ => ⟨_, rfl⟩
  · next hkind => exact moves_wordThen hpeek (by rw [hkind]; decide) hexpr.map fun _ => ⟨_, rfl⟩
  · next hkind =>
    refine moves_plainClause hpeek (by rw [hkind]; decide) (.behind hequals fun _ => ?_)
    exact .behind (.map (.expect fun t h => clear_of_kind t h (by decide))) fun _ => .pure ⟨_, rfl⟩
  · next hkind => exact moves_plainClause hpeek (by rw [hkind]; decide) (.pure ⟨_, rfl⟩)
  · next hkind =>
    refine (moves_advance hpeek).bind fun _ taken c₁ _ h => ?_
    obtain rfl := h
    exact (takes_asBody c₁).bind fun table more c₂ _ _ => .pure (.query hkind)
  · exact .unexpected

theorem takes_tableClauses (budget : Nat) (table : TableDecl) :
    Takes Anything (tableClauses source budget table) := by
  induction budget generalizing table with
  | zero =>
    unfold tableClauses
    refine fun c => .peek? ?_
    cases c.peek? with
    | none => exact .pure trivial
    | some t => exact .exhausted
  | succ budget ih =>
    unfold tableClauses
    refine fun c => .peek? ?_
    cases hpeek : c.peek? with
    | none => exact .pure trivial
    | some t =>
      refine (moves_tableClause hpeek).bind fun progress taken c₁ _ _ => ?_
      cases progress with
      | more table => exact (ih table c₁).mono fun _ _ _ => trivial
      | done table => exact .pure trivial

/-- A statement takes its `CREATE` and what lies behind it, or blames a token ahead or none. -/
theorem moves_statement (c : Cursor) : Moves c (statement source) fun _ taken =>
    ∃ create more, taken = create :: more ∧ create.kind = .keyword .create := by
  have hclauses (table : TableDecl) (columns : List ColumnDecl) : Takes Anything (do
      let table ← tableClauses source (Ceiling.steps .tableClauses).limit { table with columns }
      if table.columns.isEmpty then throw (.parse (.noColumns table.qualifiedName))
      return table) := by
    refine (takes_tableClauses _ _).bind fun table => ?_
    dsimp only
    split
    · exact .bind (fun c => .error fun cause hcause => by cases hcause; nofun) fun _ => .pure
    · exact .pure
  refine (moves_tableHeader c).bind fun table taken c₁ _ h => ?_
  obtain ⟨first, hcreate, -⟩ := h
  have hbehind : Takes Anything (do
      let columns ← if ← isAt .openParen then columnList source else pure []
      let table ← tableClauses source (Ceiling.steps .tableClauses).limit { table with columns }
      if table.columns.isEmpty then throw (.parse (.noColumns table.qualifiedName))
      return table) := by
    refine .looksAt fun paren => ?_
    dsimp only
    split
    · refine .bind (fun c => (moves_columnList c).mono fun _ _ _ => trivial) fun columns => ?_
      exact hclauses table columns
    · exact hclauses table []
  exact (hbehind c₁).mono fun _ more _ => ⟨_, _, rfl, hcreate⟩

theorem takes_statement : Takes Anything (statement source) := fun c =>
  (moves_statement c).mono fun _ _ _ => trivial

end Clauses

end Grammar

end TypedTables
