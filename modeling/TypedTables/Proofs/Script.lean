import TypedTables.Proofs.Grammar.Table
import TypedTables.Script

/-!
What a script declares: not too many tables, each as it has been read at a token of a statement.
-/

namespace TypedTables

/-- What the tables of a script may be once it has been read. -/
structure ReadTables (tables : List TableDecl) : Prop where
  count : tables.length ≤ Ceiling.tableCount.limit
  columns : ∀ table ∈ tables, ReadColumns table.columns
  derived : ∀ table ∈ tables, table.Derived

namespace Report

variable {report report' : Report} {statement : Statement}

theorem readTables_addTokens (tokens : List Token) (h : ReadTables report.tables.toList)
    (hok : addTokens statement report tokens = .ok report') : ReadTables report'.tables.toList := by
  fun_induction addTokens statement report tokens with
  | case1 report =>
    cases hok
    exact h
  | case2 report t rest _ table c hs report₁ ih =>
    obtain ⟨hcount, hok⟩ := Ceiling.check_bind_eq_ok.1 hok
    have hread (table' : TableDecl) (hmem : table' ∈ report₁.tables.toList) : table'.IsRead := by
      obtain hmem | rfl := Array.mem_push.1 (Array.mem_toList_iff.1 hmem)
      · have hmem := Array.mem_toList_iff.2 hmem
        exact ⟨h.columns table' hmem, h.derived table' hmem⟩
      · exact Grammar.yields_statement _ _ _ hs
    exact ih ⟨hcount, fun _ hmem => (hread _ hmem).columns, fun _ hmem => (hread _ hmem).derived⟩ hok
  | case3 report t rest _ cause c hs ih => exact ih h hok
  | case4 => contradiction
  | case5 report t rest _ ih => exact ih h hok

theorem readTables_addStatement (h : ReadTables report.tables.toList)
    (hok : addStatement report statement = .ok report') : ReadTables report'.tables.toList := by
  obtain ⟨-, hok⟩ := Ceiling.check_bind_eq_ok.1 hok
  dsimp only at hok
  split at hok
  · exact readTables_addTokens _ h hok
  · cases hok
    exact h
  · cases hok
    exact h

theorem readTables_foldlM (statements : List Statement) (h : ReadTables report.tables.toList)
    (hok : statements.foldlM addStatement report = .ok report') :
    ReadTables report'.tables.toList := by
  induction statements generalizing report with
  | nil =>
    cases hok
    exact h
  | cons statement statements ih =>
    rw [List.foldlM_cons] at hok
    obtain ⟨report₁, h₁, hok⟩ := bind_eq_ok.1 hok
    exact ih (readTables_addStatement h h₁) hok

end Report

theorem readTables_readScript {source : String} {report : Report}
    (h : readScript source = .ok report) : ReadTables report.tables.toList := by
  obtain ⟨-, h⟩ := Ceiling.check_bind_eq_ok.1 h
  obtain ⟨-, h⟩ := Ceiling.check_bind_eq_ok.1 h
  exact Report.readTables_foldlM _ ⟨Nat.zero_le _, by simp, by simp⟩ h

section Declared

variable {text : String} {n : Nat} {table : TableDecl}

/-- What is declared at the token at `n`. -/
def declaration? (text : String) (n : Nat) : Option TableDecl :=
  match Grammar.statement text (.ofTokens ((tokenize text).drop n)) with
  | .ok table _ => some table
  | .error _ _ => none

theorem declaration?_eq_some : declaration? text n = some table ↔
    ∃ c, Grammar.statement text (.ofTokens ((tokenize text).drop n)) = .ok table c := by
  unfold declaration?
  cases Grammar.statement text (.ofTokens ((tokenize text).drop n)) with
  | ok table c => simp
  | error e c => simp

namespace Report

variable {report report' : Report} {statement : Statement} {P : TableDecl → Prop}

theorem declared_addTokens (tokens : List Token)
    (hP : ∀ n table, declaration? statement.text n = some table → P table)
    (htokens : ∃ n, tokens = (tokenize statement.text).drop n)
    (h : ∀ table ∈ report.tables, P table)
    (hok : addTokens statement report tokens = .ok report') :
    ∀ table ∈ report'.tables, P table := by
  have hrest {t : Token} {rest : List Token} (k : Nat)
      (h : ∃ n, t :: rest = (tokenize statement.text).drop n) :
      ∃ n, rest.drop k = (tokenize statement.text).drop n := by
    obtain ⟨n, h⟩ := h
    exact ⟨n + (k + 1), by rw [← List.drop_drop, ← h, List.drop_succ_cons]⟩
  fun_induction addTokens statement report tokens with
  | case1 report =>
    cases hok
    exact h
  | case2 report t rest _ table c hs report₁ ih =>
    obtain ⟨-, hok⟩ := Ceiling.check_bind_eq_ok.1 hok
    refine ih (hrest _ htokens) (fun table' hmem => ?_) hok
    obtain hmem | rfl := Array.mem_push.1 hmem
    · exact h table' hmem
    · obtain ⟨n, htokens⟩ := htokens
      exact hP n table' (declaration?_eq_some.2 ⟨c, htokens ▸ hs⟩)
  | case3 report t rest _ cause c hs ih => exact ih (hrest 0 htokens) h hok
  | case4 => contradiction
  | case5 report t rest _ ih => exact ih (hrest 0 htokens) h hok

theorem declared_foldlM (statements : List Statement)
    (hP : ∀ s ∈ statements, ∀ n table, declaration? s.text n = some table → P table)
    (h : ∀ table ∈ report.tables, P table)
    (hok : statements.foldlM addStatement report = .ok report') :
    ∀ table ∈ report'.tables, P table := by
  induction statements generalizing report with
  | nil =>
    cases hok
    exact h
  | cons statement statements ih =>
    obtain ⟨hstatement, hstatements⟩ := List.forall_mem_cons.1 hP
    rw [List.foldlM_cons] at hok
    obtain ⟨report₁, h₁, hok⟩ := bind_eq_ok.1 hok
    refine ih hstatements ?_ hok
    obtain ⟨-, h₁⟩ := Ceiling.check_bind_eq_ok.1 h₁
    dsimp only at h₁
    split at h₁
    · exact declared_addTokens _ hstatement ⟨0, rfl⟩ h h₁
    · cases h₁
      exact h
    · cases h₁
      exact h

end Report

/-- Every table of a script is declared at a token of one of its statements. -/
theorem exists_declaration {script : String} {report : Report}
    (hread : readScript script = .ok report) (htable : table ∈ report.tables) :
    ∃ s ∈ Statement.split script, ∃ n, declaration? s.text n = some table := by
  obtain ⟨-, h⟩ := Ceiling.check_bind_eq_ok.1 hread
  obtain ⟨-, h⟩ := Ceiling.check_bind_eq_ok.1 h
  have hall : ∀ s ∈ Statement.split script, ∀ n table, declaration? s.text n = some table →
      ∃ s ∈ Statement.split script, ∃ n, declaration? s.text n = some table :=
    fun s hs n table h => ⟨s, hs, n, h⟩
  exact Report.declared_foldlM _ hall (by simp) h table htable

end Declared

end TypedTables
