import TypedTables.Proofs.Resolve.Qualifier
import TypedTables.Proofs.Statement.Clause

/-!
Sub-queries that are not read. Where the main `FROM` of a view names another table, its `WITH` clause
makes no difference to anything that is resolved. Where the main `FROM` is a sub-select, the view has
its types from the clause all the same, and without the clause all of its columns are texts.
-/

namespace TypedTables

open Text

section Bare

variable {tables tables' before before' : List TableDecl} {options : ResolveOptions}

/-- A table without its query, of which nothing is left once the table has been settled. -/
def TableDecl.bare (table : TableDecl) : TableDecl := { table with query := none }

theorem find?_map_bare (p : TableDecl → Bool) (hp : ∀ table, p table.bare = p table)
    (tables : List TableDecl) : (tables.map TableDecl.bare).find? p =
      (tables.find? p).map TableDecl.bare := by
  rw [List.find?_map]
  congr 1
  exact congrArg (List.find? · tables) (funext hp)

namespace Catalog

/-- What is found under a name, its query apart, does not depend on queries. -/
theorem source?_map_bare (tables : List TableDecl) (name : String) :
    ((ofTables tables).source? name).map (·.table.bare) =
      ((ofTables (tables.map TableDecl.bare)).source? name).map (·.table) := by
  have hget (name : String) : ((ofTables tables).sources.get? name).map (·.table.bare) =
      ((ofTables (tables.map TableDecl.bare)).sources.get? name).map (·.table) := by
    rw [get?_ofTables, get?_ofTables, ← List.map_reverse, find?_map_bare _ fun _ => rfl,
      Option.map_map, Option.map_map, Option.map_map]
    rfl
  have hfirst (folded : String) : (ofTables tables).firstNames.get? folded =
      (ofTables (tables.map TableDecl.bare)).firstNames.get? folded := by
    rw [firstName_ofTables, firstName_ofTables, find?_map_bare _ fun _ => rfl, Option.map_map]
    rfl
  rw [source?, source?, Option.map_or, Option.map_or, hget, hfirst, Option.map_bind, Option.map_bind]
  congr 2
  exact funext hget

end Catalog

namespace View

variable {query query' : ViewQuery}

theorem sourceType?_congr {view : View query} {view' : View query'}
    (h : view.source.map (·.table.bare) = view'.source.map (·.table.bare)) (column : String) :
    view.sourceType? column = view'.sourceType? column := by
  have htype (source : Option Source) : (source >>= (·.columnType? column)) =
      (source.map (·.table.bare)).bind (·.knownType? column) := by
    cases source with
    | none => rfl
    | some source => exact source.columnType?_eq column
  rw [sourceType?, sourceType?, htype, htype, h]

theorem columnType?_congr {view view' : View query}
    (h : view.source.map (·.table.bare) = view'.source.map (·.table.bare)) :
    view.columnType? = view'.columnType? := by
  have hsource : view.sourceType? = view'.sourceType? := funext (sourceType?_congr h)
  have hinner : view.innerType? = view'.innerType? := by
    funext column
    simp only [innerType?, Named.find?_eq, hsource]
  funext column
  simp only [columnType?, typeThrough?, directType?, Named.find?_eq, hsource, hinner]

/-- Of a query whose sub-query is not read only the items and the source count. -/
theorem columnType?_of_unread {view : View query} {view' : View query'}
    (hitems : query'.items = query.items) (hread : query.selected? = none)
    (hread' : query'.selected? = none) (hsource : view'.source = view.source) :
    view'.columnType? = view.columnType? := by
  have hsource : view'.sourceType? = view.sourceType? :=
    funext (sourceType?_congr (by rw [hsource]))
  funext column
  simp only [columnType?, hread, hread', Option.isSome_none, Bool.false_eq_true, if_false,
    directType?, Named.find?_eq, hsource, hitems]

end View

theorem ColumnDecl.infer_congr {query query' : ViewQuery} {view : View query} {view' : View query'}
    (h : view.columnType? = view'.columnType?) : infer view = infer view' := by
  funext column
  rw [infer, infer, h]

namespace Catalog

/-- A table that reads the same in two catalogs is settled alike in both. -/
theorem bare_inferTable_congr {catalog catalog' : Catalog}
    (h : ∀ name, (catalog.source? name).map (·.table.bare) =
      (catalog'.source? name).map (·.table.bare)) (table : TableDecl) :
    (catalog.inferTable table).bare = (catalog'.inferTable table).bare := by
  unfold inferTable
  cases table.query with
  | none => rfl
  | some query =>
    have hsource : (query.sourceName?.bind catalog.source?).map (·.table.bare) =
        (query.sourceName?.bind catalog'.source?).map (·.table.bare) := by
      rw [Option.map_bind, Option.map_bind]
      exact congrArg _ (funext h)
    have hinfer : ColumnDecl.infer
          ({ source := query.sourceName?.bind catalog.source? } : View query) =
        ColumnDecl.infer ({ source := query.sourceName?.bind catalog'.source? } : View query) :=
      ColumnDecl.infer_congr (View.columnType?_congr hsource)
    dsimp only
    rw [hinfer]

end Catalog

/-- A view that reads from no sub-query. -/
def TableDecl.Unread (view : TableDecl) : Prop := ∀ query ∈ view.query, query.selected? = none

theorem Catalog.bare_inferTable_withoutSubquery (catalog : Catalog) {view : TableDecl}
    (h : view.Unread) :
    (catalog.inferTable view.withoutSubquery).bare = (catalog.inferTable view).bare := by
  unfold inferTable TableDecl.withoutSubquery
  cases hquery : view.query with
  | none => rfl
  | some query =>
    have hread : query.selected? = none := h query hquery
    have hread' : query.withoutSubquery.selected? = none := rfl
    have hname : query.withoutSubquery.sourceName? = query.sourceName? := by
      rw [ViewQuery.sourceName?, ViewQuery.sourceName?, hread, hread']
      rfl
    have hinfer : ColumnDecl.infer
          ({ source := query.withoutSubquery.sourceName?.bind catalog.source? } :
            View query.withoutSubquery) =
        ColumnDecl.infer ({ source := query.sourceName?.bind catalog.source? } : View query) :=
      ColumnDecl.infer_congr (View.columnType?_of_unread rfl hread hread' (by rw [hname]))
    dsimp only [Option.map_some]
    rw [hinfer]
    rfl

/-- Tables of which those that read from no sub-query may be without one. -/
abbrev WithoutUnread : List TableDecl → List TableDecl → Prop :=
  List.Forall₂ fun table table' => table' = table ∨ table.Unread ∧ table' = table.withoutSubquery

theorem WithoutUnread.map_bare (h : WithoutUnread tables tables') :
    tables'.map TableDecl.bare = tables.map TableDecl.bare := by
  induction h with
  | nil => rfl
  | cons htable _ ih =>
    rw [List.map_cons, List.map_cons, ih]
    obtain rfl | ⟨-, rfl⟩ := htable <;> rfl

theorem settle_withoutUnread (hbefore : before'.map TableDecl.bare = before.map TableDecl.bare)
    (h : WithoutUnread tables tables') :
    (settle (Catalog.ofTables before') tables').map TableDecl.bare =
      (settle (Catalog.ofTables before) tables).map TableDecl.bare := by
  induction h generalizing before before' with
  | nil => rfl
  | @cons table table' tables tables' htable _ ih =>
    have hcatalog (name : String) :
        ((Catalog.ofTables before').source? name).map (·.table.bare) =
          ((Catalog.ofTables before).source? name).map (·.table.bare) := by
      rw [Catalog.source?_map_bare, Catalog.source?_map_bare, hbefore]
    have hdone : ((Catalog.ofTables before').inferTable table').bare =
        ((Catalog.ofTables before).inferTable table).bare := by
      rw [Catalog.bare_inferTable_congr hcatalog]
      obtain rfl | ⟨hunread, rfl⟩ := htable
      · rfl
      · exact Catalog.bare_inferTable_withoutSubquery _ hunread
    rw [settle, settle, List.map_cons, List.map_cons, hdone, ← Catalog.ofTables_concat,
      ← Catalog.ofTables_concat]
    congr 1
    exact ih (by rw [List.map_append, List.map_append, hbefore, List.map_singleton,
      List.map_singleton, hdone])

/-- A sub-query that is not read makes no difference, whatever becomes of the tables. -/
theorem resolve_withoutUnread (options : ResolveOptions) (h : WithoutUnread tables tables') :
    resolve options tables' = resolve options tables := by
  have hmapM (tables : List TableDecl) : tables.mapM (TableDecl.resolve options) =
      (tables.map TableDecl.bare).mapM (TableDecl.resolve options) := by
    rw [List.mapM_map]
    rfl
  have hforM (tables : List TableDecl) : tables.forM TableDecl.validate =
      (tables.map TableDecl.bare).forM TableDecl.validate := by
    induction tables with
    | nil => rfl
    | cons table tables ih => exact congrArg (table.validate >>= fun _ => ·) ih
  rw [resolve, resolve, resolveFrom_eq, resolveFrom_eq, h.length_eq, hforM tables, hforM tables',
    h.map_bare, hmapM, settle_withoutUnread h.map_bare h, ← hmapM]

end Bare

section Resolved

variable {tables : List TableDecl} {mapped : List MappedTable} {options : ResolveOptions} {k : Nat}
  {view : TableDecl} {query : ViewQuery}

theorem withoutUnread_set (hview : tables[k]? = some view) (h : view.Unread) :
    WithoutUnread tables (tables.set k view.withoutSubquery) := by
  induction tables generalizing k with
  | nil => exact .nil
  | cons table tables ih =>
    cases k with
    | zero =>
      obtain rfl : table = view := Option.some.inj hview
      exact .cons (.inr ⟨h, rfl⟩) (List.forall₂_same.2 fun _ _ => .inl rfl)
    | succ k => exact .cons (.inl rfl) (ih hview)

/-- The columns of a table are resolved with the types that they are settled with. -/
theorem exists_types_of_resolve (hresolve : resolve options tables = .ok mapped) {done : TableDecl}
    (hdone : (settled tables)[k]? = some done) : ∃ m, mapped[k]? = some m ∧
      m.columns.map (·.type) = done.columns.map (·.concrete.type) := by
  obtain ⟨m, hm, hfrom⟩ := from_of_resolve hresolve hdone
  refine ⟨m, hm, ?_⟩
  rw [← List.forall₂_eq_eq_eq, List.forall₂_map_left_iff, List.forall₂_map_right_iff]
  exact (hfrom.columns.imp fun _ _ hcolumn => hcolumn.type).flip

/-- A view that lists no columns has those of its items, with the types found in what it reads. -/
theorem exists_types_of_derived (hresolve : resolve options tables = .ok mapped)
    (hview : tables[k]? = some view) (hquery : view.query = some query) (hderived : view.Derived) :
    ∃ m, mapped[k]? = some m ∧ m.columns.map (·.type) = query.items.map fun item =>
      (ColumnDecl.typed item.outputName
        ((({ source := query.sourceName?.bind (catalogAt tables k).source? } : View query).columnType?
          item.outputName).getD .text)).concrete.type := by
  have hdone : (settled tables)[k]? = some ((catalogAt tables k).inferTable view) := by
    rw [getElem?_settled, hview, Option.map_some]
  obtain ⟨m, hm, htypes⟩ := exists_types_of_resolve hresolve hdone
  refine ⟨m, hm, ?_⟩
  rw [htypes, Catalog.columns_inferTable _ hquery hderived, List.map_map]
  rfl

/-- A view that reads from no table and no sub-query has texts only. -/
theorem exists_texts_of_resolve (hresolve : resolve options tables = .ok mapped)
    (hview : tables[k]? = some view) (hquery : view.query = some query) (hderived : view.Derived)
    (hunread : query.selected? = none) (hsource : query.source = none) :
    ∃ m, mapped[k]? = some m ∧ m.columns.map (·.type) = query.items.map fun _ => .text := by
  obtain ⟨m, hm, htypes⟩ := exists_types_of_derived hresolve hview hquery hderived
  refine ⟨m, hm, htypes.trans (List.map_congr_left fun item _ => ?_)⟩
  have hname : query.sourceName? = none := by rw [ViewQuery.sourceName?, hunread, hsource]
  rw [hname, Option.bind_none, View.columnType?, hunread]
  rfl

end Resolved

section Scripts

variable {script : String} {report : Report} {k : Nat} {view : TableDecl} {query : ViewQuery}

theorem selected?_eq_none {name : String} (hsource : query.source = some name)
    (h : ∀ sub ∈ query.subquery, sameIgnoringCase name sub.name = false) :
    query.selected? = none := by
  rw [ViewQuery.selected?, hsource]
  refine Option.filter_eq_none_iff.2 fun sub hsub => ?_
  rw [Option.all_some, h sub hsub]
  exact Bool.false_ne_true

/-- A view whose main `FROM` does not name its sub-query is declared without its `WITH` clause as the
same view without a sub-query. If the `FROM` names a table, that makes no difference to what is
resolved. If it is a sub-select, the types of the view stay only if all of them are texts. -/
theorem resolve_withoutClause (hread : readScript script = .ok report)
    (hview : report.tables.toList[k]? = some view) (hquery : view.query = some query)
    (hunread : ∀ sub ∈ query.subquery, ∀ name ∈ query.source,
      sameIgnoringCase name sub.name = false) :
    (∃ s ∈ Statement.split script, ∃ n front clause back, declaration? s.text n = some view ∧
      s.text = front ++ clause ++ back ∧ SetsOff n front clause back ∧
      declaration? (front ++ back) n = some view.withoutSubquery) ∧
    ∀ options,
      let without := report.tables.toList.set k view.withoutSubquery
      (query.source.isSome = true →
        resolve options without = resolve options report.tables.toList) ∧
      (query.source = none → ∀ mapped mapped', resolve options report.tables.toList = .ok mapped →
        resolve options without = .ok mapped' → ∃ m m', mapped[k]? = some m ∧
          mapped'[k]? = some m' ∧ (m.columns.map (·.type) = m'.columns.map (·.type) ↔
            ∀ column ∈ m.columns, column.type = .text)) := by
  have hmem : view ∈ report.tables.toList := List.mem_of_getElem? hview
  refine ⟨?_, fun options => ⟨fun hsome => ?_, fun hnone mapped mapped' hmapped hmapped' => ?_⟩⟩
  · obtain ⟨s, hs, n, hdeclared⟩ := exists_declaration hread (Array.mem_toList_iff.1 hmem)
    obtain ⟨front, clause, back, htext, hsets, hwithout⟩ := exists_setsOff hdeclared hquery
    exact ⟨s, hs, n, front, clause, back, hdeclared, htext, hsets, hwithout⟩
  · obtain ⟨name, hname⟩ := Option.isSome_iff_exists.1 hsome
    refine resolve_withoutUnread options (withoutUnread_set hview fun query' hquery' => ?_)
    obtain rfl : query = query' := Option.some.inj (hquery.symm.trans hquery')
    exact selected?_eq_none hname fun sub hsub => hunread sub hsub name hname
  · have hderived : view.Derived := (readTables_readScript hread).derived view hmem
    have hquery' : view.withoutSubquery.query = some query.withoutSubquery := by
      rw [TableDecl.withoutSubquery, hquery, Option.map_some]
    have hderived' : view.withoutSubquery.Derived := fun query' h => by
      obtain rfl : query.withoutSubquery = query' := Option.some.inj (hquery'.symm.trans h)
      exact hderived query hquery
    have hview' : (report.tables.toList.set k view.withoutSubquery)[k]? =
        some view.withoutSubquery :=
      List.getElem?_set_self (List.getElem?_eq_some_iff.1 hview).1
    obtain ⟨m, hm, htypes⟩ := exists_types_of_derived hmapped hview hquery hderived
    obtain ⟨m', hm', htexts⟩ :=
      exists_texts_of_resolve hmapped' hview' hquery' hderived' rfl hnone
    have hlength : m.columns.length = query.items.length := by
      have hlength := congrArg List.length htypes
      rwa [List.length_map, List.length_map] at hlength
    refine ⟨m, m', hm, hm', ?_⟩
    rw [htexts, ViewQuery.items_withoutSubquery, List.map_const', List.eq_replicate_iff,
      List.length_map, List.forall_mem_map]
    exact and_iff_right hlength

end Scripts

def unreadScript : String :=
  "CREATE TABLE t (a UInt8, b Date); CREATE MATERIALIZED VIEW v AS " ++
    "WITH s AS (SELECT b AS a FROM t) SELECT a FROM T"

theorem resolve_withoutClause_otherTable : ∃ report view, readScript unreadScript = .ok report ∧
    report.tables.toList[1]? = some view ∧
    resolve {} (report.tables.toList.set 1 view.withoutSubquery) =
      resolve {} report.tables.toList := by
  have h : (readScript unreadScript).toOption.any (fun report =>
      report.tables.toList[1]?.any fun view => view.query.any fun query =>
        query.source.isSome && query.subquery.all fun sub => query.source.all fun name =>
          !sameIgnoringCase name sub.name) = true := by decide +kernel
  obtain ⟨report, hread, h⟩ := exists_of_any h
  obtain ⟨view, hview, h⟩ := (Option.any_eq_true _ _).1 h
  obtain ⟨query, hquery, h⟩ := (Option.any_eq_true _ _).1 h
  obtain ⟨hsome, hunread⟩ := Bool.and_eq_true_iff.1 h
  obtain ⟨-, h⟩ := resolve_withoutClause hread hview hquery fun sub hsub name hname => by
    simpa using (Option.all_eq_true _ _).1 ((Option.all_eq_true _ _).1 hunread sub hsub) name hname
  exact ⟨report, view, hread, hview, (h {}).1 hsome⟩

/-- A view of a sub-select has the types of the clause before it, which are not those without it. -/
theorem scriptTypes_of_subselect :
    scriptTypes "CREATE TABLE t (a UInt8); CREATE MATERIALIZED VIEW v AS
        WITH s AS (SELECT a FROM t) SELECT max(a) AS m FROM (SELECT 1)" =
      some [⟨none, "t", ["UInt8"], ["UInt8"]⟩, ⟨none, "v", ["Unknown"], ["UInt8"]⟩] ∧
    scriptTypes "CREATE TABLE t (a UInt8); CREATE MATERIALIZED VIEW v AS
        SELECT max(a) AS m FROM (SELECT 1)" =
      some [⟨none, "t", ["UInt8"], ["UInt8"]⟩, ⟨none, "v", ["Unknown"], ["String"]⟩] := by
  refine ⟨?_, ?_⟩ <;> decide +kernel

end TypedTables
