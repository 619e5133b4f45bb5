import TypedTables.Proofs.Grammar.Clauses
import TypedTables.Proofs.Grammar.Table
import TypedTables.Proofs.Script
import TypedTables.Statement

/-!
The filter and the grammar. The filter looks for a `TO` before the query of a view; the grammar
reads one only as a part of the expression of a clause, so that the filter drops a declaration that
has such an expression.
-/

namespace TypedTables

open Grammar

section Outside

variable {p q : Token → Bool} {ts us : List Token} {depth : Nat}

/-- Tokens among which there is no `AS` outside parentheses are gone through to their end, unless
there is a `TO`. -/
theorem Statement.isRouted_append (h : Closes depth ts)
    (has : hasOutside (·.isKeyword .as) depth ts = false) :
    isRouted depth (ts ++ us) = (hasOutside (·.isKeyword .to) depth ts || isRouted 0 us) := by
  induction ts generalizing depth with
  | nil =>
    obtain rfl : depth = 0 := h
    rfl
  | cons t ts ih =>
    obtain ⟨ht, hts⟩ := Bool.or_eq_false_iff.1 has
    rw [List.cons_append, isRouted, if_neg (by simpa using ht), hasOutside]
    cases hto : depth == 0 && t.isKeyword .to with
    | true => rw [if_pos rfl, Bool.true_or, Bool.true_or]
    | false => rw [if_neg Bool.false_ne_true, ih h.2 hts, Bool.false_or]

theorem Statement.isRouted_clear (h : Clear isMark ts) (us : List Token) :
    isRouted 0 (ts ++ us) = isRouted 0 us := by
  have has : hasOutside (·.isKeyword .as) 0 ts = false :=
    hasOutside_of_imp (fun t ht => by simp [isMark, ht]) h.outside
  have hto : hasOutside (·.isKeyword .to) 0 ts = false :=
    hasOutside_of_imp (fun t ht => by simp [isMark, ht]) h.outside
  rw [isRouted_append h.closes has, hto, Bool.false_or]

end Outside

namespace Grammar

/-- Clauses: the expressions among them, and what is left behind a semicolon that ends them. -/
inductive Clauses : (exprs : List (List Token)) → (behind : List Token) → List Token → Prop
  | nil : Clauses [] [] []
  | plain {exprs behind ts us} : Clear isMark ts → Clauses exprs behind us →
      Clauses exprs behind (ts ++ us)
  | expr {exprs behind words expr us} : words.map Token.kind ∈ exprWords →
      Clear (endsRun startsTableClause) expr → Clauses exprs behind us →
      Clauses (expr :: exprs) behind (words ++ expr ++ us)
  | semicolon {t behind} : t.kind = .semicolon → Clauses [] behind (t :: behind)
  | query {t us} : t.kind = .keyword .as → Clauses [] [] (t :: us)

/-- The parts of a statement that the grammar accepts: what stands before the clauses, and in it the
word behind `CREATE` or `CREATE OR REPLACE`; and the clauses. -/
structure Layout (kind : TableKind) (tokens : List Token) where
  header : List Token
  first : Token
  clauses : List Token
  exprs : List (List Token)
  behind : List Token
  eq_append : tokens = header ++ clauses
  isHeader : Header kind first header
  isClauses : Clauses exprs behind clauses

section Accepted

variable {source : String}

theorem clauses_of_tableClauses {budget : Nat} {table table' : TableDecl} {c c₁ : Cursor}
    (h : tableClauses source budget table c = .ok table' c₁) :
    ∃ exprs behind, Clauses exprs behind c.rest := by
  induction budget generalizing table c with
  | zero =>
    unfold tableClauses at h
    obtain ⟨_, _, ⟨⟩, h⟩ := bind_eq_ok.1 h
    cases hpeek : c.peek? with
    | none => exact ⟨[], [], (List.head?_eq_none_iff.1 hpeek).symm ▸ .nil⟩
    | some t =>
      rw [hpeek] at h
      contradiction
  | succ budget ih =>
    unfold tableClauses at h
    obtain ⟨_, _, ⟨⟩, h⟩ := bind_eq_ok.1 h
    cases hpeek : c.peek? with
    | none => exact ⟨[], [], (List.head?_eq_none_iff.1 hpeek).symm ▸ .nil⟩
    | some t =>
      rw [hpeek] at h
      obtain ⟨progress, c₂, hclause, h⟩ := bind_eq_ok.1 h
      obtain ⟨taken, hmoved, htaken⟩ := (moves_tableClause hpeek).of_ok hclause
      rw [hmoved.rest]
      cases htaken with
      | plain hclear =>
        obtain ⟨exprs, behind, hrest⟩ := ih h
        exact ⟨exprs, behind, .plain hclear hrest⟩
      | expr hwords hclear =>
        obtain ⟨exprs, behind, hrest⟩ := ih h
        exact ⟨_, behind, .expr hwords hclear hrest⟩
      | semicolon ht => exact ⟨[], c₂.rest, .semicolon ht⟩
      | query ht => exact ⟨[], [], .query ht⟩

theorem clauses_behind {header table : TableDecl} {columns : List ColumnDecl} {c c₁ : Cursor}
    (h : (do
      let table ← tableClauses source (Ceiling.steps .tableClauses).limit { header with columns }
      if table.columns.isEmpty then throw (.parse (.noColumns table.qualifiedName))
      return table : Grammar TableDecl) c = .ok table c₁) :
    table.kind = header.kind ∧ ∃ exprs behind, Clauses exprs behind c.rest := by
  obtain ⟨table', c₂, hclauses, h⟩ := bind_eq_ok.1 h
  have hkind : table'.kind = header.kind :=
    (yields_tableClauses _ { header with columns } _ _ _ hclauses).kind
  dsimp only at h
  split at h
  · contradiction
  · cases h
    exact ⟨hkind, clauses_of_tableClauses hclauses⟩

/-- What the grammar accepts is made of a header and clauses. -/
theorem exists_layout {tokens : List Token} {table : TableDecl} {c : Cursor}
    (h : statement source (.ofTokens tokens) = .ok table c) :
    Nonempty (Layout table.kind tokens) := by
  obtain ⟨header, c₁, hheader, h⟩ := bind_eq_ok.1 h
  obtain ⟨taken, hmoved, first, hfirst⟩ := (moves_tableHeader _).of_ok hheader
  obtain ⟨_, _, ⟨⟩, h⟩ := bind_eq_ok.1 h
  dsimp only at h
  split at h
  · obtain ⟨columns, c₂, hcolumns, h⟩ := bind_eq_ok.1 h
    obtain ⟨group, hmoved', hgroup⟩ := (moves_columnList _).of_ok hcolumns
    obtain ⟨hkind, exprs, behind, hclauses⟩ := clauses_behind h
    have hclear : Clear isMark group :=
      hgroup.clear fun o ho => by simp [isMark, Token.isKeyword, ho]
    exact ⟨_, first, _, exprs, behind, (hmoved.trans hmoved').rest, hkind ▸ hfirst.append hclear,
      hclauses⟩
  · obtain ⟨hkind, exprs, behind, hclauses⟩ := clauses_behind h
    exact ⟨_, first, _, exprs, behind, hmoved.rest, hkind ▸ hfirst, hclauses⟩

end Accepted

end Grammar

namespace Statement

section Classes

variable {exprs : List (List Token)} {behind ts us : List Token} {kind : TableKind} {first : Token}

theorem clear_of_exprWords (h : ts.map Token.kind ∈ exprWords) : Clear isMark ts := by
  have hall : ∀ kinds ∈ exprWords, ∀ k ∈ kinds, k ∉ markOrParen := by decide
  exact clear_of_kinds fun t ht => hall _ h t.kind (List.mem_map_of_mem ht)

theorem isRouted_clauses (h : Clauses exprs behind ts) :
    isRouted 0 ts = (exprs.any (hasOutside (·.isKeyword .to) 0) || isRouted 0 behind) := by
  induction h with
  | nil => rfl
  | plain hclear hrest ih => rw [isRouted_clear hclear, ih]
  | @expr exprs behind words expr us hwords hclear hrest ih =>
    have hwords : Clear isMark words := clear_of_exprWords hwords
    have has : hasOutside (·.isKeyword .as) 0 expr = false :=
      hasOutside_of_imp (fun t ht => by simp_all [endsRun, startsTableClause, Token.isKeyword])
        hclear.outside
    rw [List.append_assoc, isRouted_clear hwords, isRouted_append hclear.closes has, ih,
      List.any_cons, Bool.or_assoc]
  | semicolon ht => simp [isRouted, Token.isKeyword, Token.nest, ht]
  | query ht => simp [isRouted, Token.isKeyword, ht]

theorem skipOrReplace_header {replace : List Token}
    (h : replace.map Token.kind ∈ [[], [.keyword .or, .keyword .replace]]) (hf : Tells kind first)
    (us : List Token) : skipOrReplace (replace ++ first :: us) = first :: us := by
  have hor : first.kind ≠ .keyword .or := by
    obtain hf | hf := hf
    · simp [hf]
    · cases kind <;> simp [hf]
  simp only [List.mem_cons, List.not_mem_nil, or_false, List.map_eq_nil_iff] at h
  obtain rfl | h := h
  · simp [skipOrReplace, Token.isKeyword, hor]
  · obtain ⟨o, rest, rfl, ho, h⟩ := List.map_eq_cons_iff.1 h
    obtain ⟨r, rest, rfl, hr, h⟩ := List.map_eq_cons_iff.1 h
    obtain rfl := List.map_eq_nil_iff.1 h
    simp [skipOrReplace, Token.isKeyword, ho, hr]

/-- A header decides what becomes of a statement, unless it is that of a view. -/
theorem classify_header (h : Header kind first ts) (us : List Token) :
    classify (ts ++ us) =
      if kind = .materializedView ∧ first.kind ≠ .keyword .temporary ∧ isRouted 0 us = true then
        .routedView
      else .keep := by
  obtain ⟨hcreate, hreplace, hfirst, hmore⟩ := h
  rw [List.cons_append, List.append_assoc, List.cons_append]
  simp only [classify]
  rw [skipOrReplace_header hreplace hfirst]
  dsimp only
  rw [isRouted_clear hmore]
  obtain hfirst | hfirst := hfirst
  · simp [Token.isKeyword, hcreate, hfirst]
  · cases kind <;> simp [Token.isKeyword, hcreate, hfirst]

/-- The filter drops a statement that the grammar accepts exactly if a `TO` stands outside
parentheses in an expression of its clauses, or routes what is behind a semicolon. -/
theorem classify_eq_keep_iff {source : String} {tokens : List Token} {table : TableDecl} {c : Cursor}
    (h : Grammar.statement source (.ofTokens tokens) = .ok table c) :
    ∃ layout : Layout table.kind tokens, classify tokens ≠ .plainView ∧
      (classify tokens = .keep ↔
        table.kind = .table ∨ layout.first.kind = .keyword .temporary ∨
        (∀ expr ∈ layout.exprs, hasOutside (·.isKeyword .to) 0 expr = false) ∧
          isRouted 0 layout.behind = false) := by
  obtain ⟨layout⟩ := exists_layout h
  refine ⟨layout, ?_⟩
  have hclassify := classify_header layout.isHeader layout.clauses
  rw [← layout.eq_append, isRouted_clauses layout.isClauses] at hclassify
  rw [hclassify]
  refine ⟨by split_ifs <;> simp, ?_⟩
  obtain hk | hk : table.kind = .table ∨ table.kind = .materializedView := by
    cases table.kind <;> simp
  · simp [hk]
  · by_cases hf : layout.first.kind = .keyword .temporary <;> simp [hk, hf]

/-- A view that moves its old rows to another disk. -/
def coldStorageView : String :=
  "CREATE MATERIALIZED VIEW v (d Date) ENGINE = MergeTree ORDER BY d " ++
    "TTL d + INTERVAL 1 DAY TO DISK 'cold' AS SELECT d FROM t"

theorem exists_table_coldStorageView : ∃ table c,
    Grammar.statement coldStorageView (.ofTokens (tokenize coldStorageView)) = .ok table c := by
  have hsome : (declaration? coldStorageView 0).isSome = true := by decide +kernel
  obtain ⟨table, h⟩ := Option.isSome_iff_exists.1 hsome
  obtain ⟨c, h⟩ := declaration?_eq_some.1 h
  exact ⟨table, c, h⟩

/-- The filter drops a view that the grammar accepts, though no `TO` routes it. -/
theorem classify_coldStorageView :
    (∃ table c, Grammar.statement coldStorageView (.ofTokens (tokenize coldStorageView)) =
      .ok table c) ∧ classify (tokenize coldStorageView) = .routedView :=
  ⟨exists_table_coldStorageView, by decide +kernel⟩

theorem classify_eq_keep_iff_coldStorageView : ∃ table c,
    Grammar.statement coldStorageView (.ofTokens (tokenize coldStorageView)) = .ok table c ∧
    ∃ layout : Layout table.kind (tokenize coldStorageView), ¬
      (table.kind = .table ∨ layout.first.kind = .keyword .temporary ∨
        (∀ expr ∈ layout.exprs, hasOutside (·.isKeyword .to) 0 expr = false) ∧
          isRouted 0 layout.behind = false) := by
  obtain ⟨table, c, h⟩ := exists_table_coldStorageView
  obtain ⟨layout, -, hkeep⟩ := classify_eq_keep_iff h
  have hdropped : classify (tokenize coldStorageView) ≠ .keep := by decide +kernel
  exact ⟨table, c, h, layout, fun hunrouted => hdropped (hkeep.2 hunrouted)⟩

end Classes

end Statement

end TypedTables
