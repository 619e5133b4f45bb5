import TypedTables.Grammar.Table
import TypedTables.Proofs.Grammar.Type

/-!
Tables that have been read: their columns are not too many, the type of a column keeps to the
ceilings unless `NULL` has put one level too many around it, and a query goes with columns that are
still to be inferred.
-/

namespace TypedTables

/-- A type that took all levels before `NULL` put one more around it. -/
def TypeExpr.Overfull (ty : TypeExpr) : Prop :=
  ∃ inner, ty = .nullable inner ∧ inner.name ≠ nullableName ∧ inner.Within maxTypeDepth ∧
    ¬ inner.Within (maxTypeDepth - 1)

/-- What the type of a column may be once the column has been read. -/
def TypeExpr.Readable (ty : TypeExpr) : Prop := ty.Within maxTypeDepth ∨ ty.Overfull

theorem TypeExpr.not_within_of_overfull {ty : TypeExpr} (h : ty.Overfull) :
    ¬ ty.Within maxTypeDepth := by
  obtain ⟨inner, rfl, -, -, hdeep⟩ := h
  exact fun h => hdeep (within_nullable.1 h)

theorem TypeExpr.within_of_readable {ty : TypeExpr} (h : ty.Readable) :
    ty.Within (maxTypeDepth + 1) := by
  obtain h | ⟨inner, rfl, -, h, -⟩ := h
  · exact h.mono (Nat.le_succ maxTypeDepth)
  · exact within_nullable.2 h

theorem ColumnDecl.readable_admitNull {column : ColumnDecl} (h : column.type.Readable) :
    column.admitNull.type.Readable := by
  unfold admitNull
  split_ifs with hname
  · exact h
  · have hname : column.type.name ≠ TypeExpr.nullableName := by simpa using hname
    obtain h | ⟨inner, heq, -⟩ := h
    · by_cases hdeep : column.type.Within (maxTypeDepth - 1)
      · exact .inl hdeep
      · exact .inr ⟨_, rfl, hname, h, hdeep⟩
    · rw [heq] at hname
      contradiction

/-- What columns may be once they have been read. -/
structure ReadColumns (columns : List ColumnDecl) : Prop where
  count : columns.length ≤ Ceiling.columnCount.limit
  types : ∀ column ∈ columns, column.type.Readable

/-- A query goes with the columns that its items leave to infer. -/
def TableDecl.Derived (table : TableDecl) : Prop :=
  ∀ query ∈ table.query, table.columns = query.items.map fun item => .pending item.outputName

/-- What a table may be once it has been read. -/
structure TableDecl.IsRead (table : TableDecl) : Prop where
  columns : ReadColumns table.columns
  derived : table.Derived

namespace Grammar

variable {source : String} {column : ColumnDecl}

theorem yields_columnOption? (h : column.type.Readable) :
    Yields (columnOption? source column) fun column? => ∀ c ∈ column?, c.type.Readable := by
  have same : ∀ c ∈ some column, c.type.Readable := fun c heq => by cases heq; exact h
  refine .seq fun token? => ?_
  split
  · refine .seq fun _ => .pure fun c heq => ?_
    cases heq
    exact column.readable_admitNull h
  · exact .seq fun _ => .seq fun _ => .pure same
  · exact .seq fun _ => .seq fun _ => .pure fun c heq => by cases heq; exact h
  · exact .seq fun _ => .seq fun _ => .pure same
  · exact .seq fun _ => .seq fun _ => .pure same
  · exact .seq fun _ => .seq fun _ => .pure same
  · split
    · exact .seq fun _ => .seq fun _ => .pure fun c heq => by cases heq; exact h
    · exact .pure nofun
  · exact .pure nofun

theorem yields_columnOptions (budget : Nat) (h : column.type.Readable) :
    Yields (columnOptions source budget column) (·.type.Readable) := by
  induction budget generalizing column with
  | zero => exact .error
  | succ budget ih =>
    refine (yields_columnOption? h).bind fun column? hc => ?_
    cases column? with
    | some column => exact ih (hc column rfl)
    | none => exact .pure h

theorem yields_columnDef : Yields (columnDef source) (·.type.Readable) := by
  refine .seq fun name => .seq fun mark => ?_
  refine (yields_typeExpr maxTypeDepth).bind fun type htype => .seq fun c => ?_
  exact yields_columnOptions _ (.inl htype)

theorem yields_columnListEntry {columns : Array ColumnDecl} (h : ReadColumns columns.toList) :
    Yields (columnListEntry source columns) fun columns => ReadColumns columns.toList := by
  refine .seq fun c => ?_
  split_ifs
  · exact .seq fun _ => .pure h
  · refine yields_columnDef.bind fun column hc => Yields.check.bind fun _ hcount => .pure ?_
    refine ⟨hcount, fun c hmem => ?_⟩
    obtain hmem | rfl := Array.mem_push.1 (Array.mem_toList_iff.1 hmem)
    exacts [h.types c (Array.mem_toList_iff.2 hmem), hc]

theorem yields_columnEntries (budget : Nat) {columns : Array ColumnDecl}
    (h : ReadColumns columns.toList) :
    Yields (columnEntries source budget columns) fun columns => ReadColumns columns.toList := by
  induction budget generalizing columns with
  | zero => exact .error
  | succ budget ih =>
    refine .seq fun closed => ?_
    split
    · exact .pure h
    · refine (yields_columnListEntry h).bind fun columns hc => .seq fun comma => ?_
      split
      · exact ih hc
      · exact .seq fun _ => .pure hc

theorem readColumns_nil : ReadColumns [] := ⟨Nat.zero_le _, nofun⟩

theorem yields_columnList : Yields (columnList source) ReadColumns :=
  .seq fun _ => (yields_columnEntries _ readColumns_nil).bind fun _ hc => .pure hc

/-- The table that a clause leaves. -/
def Progress.table : Progress → TableDecl
  | .more table | .done table => table

section Clauses

variable {table : TableDecl}

theorem readColumns_pending {items : List SelectItem}
    (h : items.length ≤ Ceiling.columnCount.limit) :
    ReadColumns (items.map fun item => .pending item.outputName) := by
  refine ⟨by simpa using h, fun column hmem => ?_⟩
  obtain ⟨item, -, rfl⟩ := List.mem_map.1 hmem
  exact .inl (TypeExpr.within_plain _ _)

/-- What reading goes on with: a table of the same kind, with columns as they may be. Columns that
are there stay. -/
structure Continues (table table' : TableDecl) : Prop where
  kind : table'.kind = table.kind
  columns : ReadColumns table.columns → ReadColumns table'.columns
  derived : table.Derived → table'.Derived
  stay : table.columns ≠ [] → table'.columns = table.columns

theorem Continues.same {table' : TableDecl} (hkind : table'.kind = table.kind)
    (hcolumns : table'.columns = table.columns) (hquery : table'.query = table.query) :
    Continues table table' where
  kind := hkind
  columns h := by rwa [hcolumns]
  derived h query hq := by
    rw [hcolumns]
    exact h query (hquery ▸ hq)
  stay _ := hcolumns

theorem yields_asBody : Yields (asBody source table) (Continues table) := by
  unfold asBody
  split_ifs with hview
  · have hnone : table.columns = [] := List.isEmpty_iff.1 (Bool.and_elim_right hview)
    refine .seq fun query => Yields.check.bind fun _ hcount => .pure
      ⟨rfl, fun _ => readColumns_pending hcount, fun _ => ?_, fun hne => absurd hnone hne⟩
    rintro _ ⟨⟩
    rfl
  · exact .seq fun _ => .pure (.same rfl rfl rfl)

theorem yields_tableClause (kind : TokenKind) :
    Yields (tableClause source table kind) fun progress => Continues table progress.table := by
  unfold tableClause
  split
  · exact .seq fun _ => .pure (.same rfl rfl rfl)
  · exact .seq fun _ => .seq fun _ => .seq fun _ => .pure (.same rfl rfl rfl)
  · exact .seq fun _ => .seq fun _ => .seq fun _ => .pure (.same rfl rfl rfl)
  · exact .seq fun _ => .seq fun _ => .seq fun _ => .pure (.same rfl rfl rfl)
  · exact .seq fun _ => .seq fun _ => .seq fun _ => .pure (.same rfl rfl rfl)
  · exact .seq fun _ => .seq fun _ => .seq fun _ => .pure (.same rfl rfl rfl)
  · exact .seq fun _ => .seq fun _ => .pure (.same rfl rfl rfl)
  · exact .seq fun _ => .seq fun _ => .pure (.same rfl rfl rfl)
  · exact .seq fun _ => .seq fun _ => .seq fun _ => .pure (.same rfl rfl rfl)
  · exact .seq fun _ => .pure (.same rfl rfl rfl)
  · exact .seq fun _ => yields_asBody.bind fun _ hbody => .pure hbody
  · exact .unexpected

theorem yields_tableClauses (budget : Nat) (table : TableDecl) :
    Yields (tableClauses source budget table) (Continues table) := by
  induction budget generalizing table with
  | zero =>
    unfold tableClauses
    refine .seq fun token? => ?_
    split
    · exact .pure (.same rfl rfl rfl)
    · exact .error
  | succ budget ih =>
    unfold tableClauses
    refine .seq fun token? => ?_
    split
    · exact .pure (.same rfl rfl rfl)
    · refine (yields_tableClause _).bind fun progress h => ?_
      cases progress with
      | more table' =>
        refine (ih table').mono fun _ h' => ⟨h'.kind.trans h.kind, h'.columns ∘ h.columns,
          h'.derived ∘ h.derived, fun hne => ?_⟩
        have heq : table'.columns = table.columns := h.stay hne
        rw [h'.stay (by rwa [heq]), heq]
      | done table' => exact .pure h

theorem yields_tableHeader : Yields tableHeader (·.query = none) := by
  refine .seq fun _ => .seq fun _ => .seq fun _ => .seq fun kind => .seq fun _ => .seq fun name => ?_
  refine .seq fun _ => .seq fun routed => ?_
  dsimp only
  split_ifs
  · exact .seq fun _ => .pure rfl
  · exact .pure rfl

theorem yields_clausesBehind {header : TableDecl} (hquery : header.query = none)
    {columns : List ColumnDecl} (hc : ReadColumns columns) :
    Yields (do
      let table ← tableClauses source (Ceiling.steps .tableClauses).limit { header with columns }
      if table.columns.isEmpty then throw (.parse (.noColumns table.qualifiedName))
      return table) TableDecl.IsRead := by
  have hderived : { header with columns }.Derived := by
    intro query h
    rw [hquery] at h
    contradiction
  refine (yields_tableClauses _ { header with columns }).bind fun table ht => ?_
  have hread : table.IsRead := ⟨ht.columns hc, ht.derived hderived⟩
  dsimp only
  split_ifs
  · exact .seq fun _ => .pure hread
  · exact .pure hread

theorem yields_statement : Yields (statement source) TableDecl.IsRead := by
  refine yields_tableHeader.bind fun header hquery => .seq fun opened => ?_
  dsimp only
  split_ifs
  · refine yields_columnList.bind fun columns hc => ?_
    exact yields_clausesBehind hquery hc
  · refine (Yields.pure readColumns_nil).bind fun columns hc => ?_
    exact yields_clausesBehind hquery hc

end Clauses

end Grammar

end TypedTables
