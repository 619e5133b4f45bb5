import TypedTables.Proofs.Grammar.Reads
import TypedTables.Proofs.Resolve.Direct

/-!
Qualified sources. A view keeps only the name of the table that it reads, so of all tables with that
name, in whatever databases, it reads the last one that stands before it, or the last one of all if
none does.
-/

namespace TypedTables

open Text

/-- The last table with exactly the given name. -/
def lastNamed? (tables : List TableDecl) (name : String) : Option TableDecl :=
  tables.reverse.find? (·.name == name)

/-- The table that a name stands for in the table at `k`. -/
def declaredFor? (tables : List TableDecl) (k : Nat) (name : String) : Option TableDecl :=
  (lastNamed? (tables.take k) name).or (lastNamed? tables name)

section Settled

/-- A table that has been settled keeps its name, and all of it if it is no view. -/
structure TableDecl.SettlesTo (table done : TableDecl) : Prop where
  name : done.name = table.name
  same : table.query = none → done = table

theorem settlesTo_settle (catalog : Catalog) (tables : List TableDecl) :
    List.Forall₂ TableDecl.SettlesTo tables (settle catalog tables) := by
  induction tables generalizing catalog with
  | nil => exact .nil
  | cons table tables ih =>
    exact .cons ⟨catalog.name_inferTable table, Catalog.inferTable_of_query⟩ (ih _)

theorem exists_find?_of_forall₂ {α β : Type} {R : α → β → Prop} {p : α → Bool} {q : β → Bool}
    {xs : List α} {ys : List β} (h : List.Forall₂ R xs ys) (hpq : ∀ x y, R x y → p x = q y) :
    (xs.find? p = none ∧ ys.find? q = none) ∨
      ∃ x y, xs.find? p = some x ∧ ys.find? q = some y ∧ R x y := by
  induction h with
  | nil => exact .inl ⟨rfl, rfl⟩
  | @cons x y xs ys hxy h ih =>
    rw [List.find?_cons, List.find?_cons, ← hpq x y hxy]
    cases p x with
    | true => exact .inr ⟨x, y, rfl, rfl, hxy⟩
    | false => exact ih

variable {tables : List TableDecl} {k : Nat} {name : String} {table : TableDecl}

/-- A table that lists its columns is read as it is declared. -/
theorem source?_of_declaredFor? (h : declaredFor? tables k name = some table)
    (hquery : table.query = none) :
    (catalogAt tables k).source? name = some { table } := by
  have hsame (t done : TableDecl) (hs : t.SettlesTo done) :
      (t.name == name) = (done.name == name) := by rw [hs.name]
  have hsettled : List.Forall₂ TableDecl.SettlesTo (tables.take k).reverse
      ((settled tables).take k).reverse :=
    List.forall₂_reverse_iff.2 (List.forall₂_take k (settlesTo_settle _ tables))
  have hfound : (((settled tables).take k).reverse.find? (·.name == name)).or
      (tables.reverse.find? (·.name == name)) = some table := by
    unfold declaredFor? lastNamed? at h
    obtain ⟨hnone, hnone'⟩ | ⟨t, done, ht, hdone, hs⟩ := exists_find?_of_forall₂ hsettled hsame
    · rwa [hnone', ← hnone]
    · rw [ht, Option.some_or, Option.some.injEq] at h
      subst h
      rw [hdone, hs.same hquery, Option.some_or]
  have hget : (catalogAt tables k).sources.get? name = some { table } := by
    rw [catalogAt, Catalog.get?_ofTables, List.reverse_append, List.find?_append, hfound]
    rfl
  rw [Catalog.source?, hget, Option.some_or]

end Settled

section Scripts

variable {script : String} {report : Report} {options : ResolveOptions} {mapped : List MappedTable}

/-- Behind `FROM` the qualifier is dropped; and a column that a view only refers to has the type that
it has in the table that the name alone stands for. -/
theorem type_of_reference (hread : readScript script = .ok report)
    (hresolve : resolve options report.tables.toList = .ok mapped) {k j : Nat}
    {view table : TableDecl} {query : ViewQuery} {name : String} {item : SelectItem}
    {column : ColumnDecl} (hview : report.tables.toList[k]? = some view)
    (hquery : view.query = some query) (hsource : query.source = some name)
    (hdirect : query.selected? = none)
    (htable : declaredFor? report.tables.toList k name = some table) (hcolumns : table.query = none)
    (hitem : query.items[j]? = some item) (href : item.IsReference)
    (hfirst : ∀ other ∈ query.items.take j, other.outputName ≠ item.outputName)
    (hcolumn : table.findColumn? item.name = some column) :
    (∀ first dot last : Token, first.isName = true → dot.kind = .dot → last.isName = true →
      ∀ (rest : List Token) (p : Nat), rest.head?.any (·.kind == .dot) = false →
        ∃ c, Grammar.fromSource ⟨p, first :: dot :: last :: rest⟩ = .ok (some last.text) c ∧
          c.rest = rest) ∧
    ∃ m resolved, mapped[k]? = some m ∧ m.columns[j]? = some resolved ∧
      resolved.type = column.concrete.type := by
  refine ⟨fun first dot last hfirst hdot hlast rest p h => ?_, ?_⟩
  · obtain ⟨_, c, hok, hrest, rfl⟩ :=
      (Grammar.reads_fromSource_pair hfirst hdot hlast h).exists_ok p
    exact ⟨c, hok, hrest⟩
  have hderived : view.Derived :=
    (readTables_readScript hread).derived view (List.mem_of_getElem? hview)
  have hread : query.source.bind (catalogAt report.tables.toList k).source? = some { table } := by
    rw [hsource, Option.bind_some, source?_of_declaredFor? htable hcolumns]
  obtain ⟨done, hdone⟩ : ∃ done, (settled report.tables.toList)[k]? = some done :=
    ⟨_, by rw [getElem?_settled, hview, Option.map_some]⟩
  have htyped := getElem?_settled_reference hview hdone hquery hderived hdirect hread hitem href
    (findNamed?_of_first hitem hfirst)
  rw [TableDecl.getD_knownType? hcolumn] at htyped
  obtain ⟨m, hm, hfrom⟩ := from_of_resolve hresolve hdone
  obtain ⟨resolved, hresolved, hcolumn⟩ := exists_getElem?_of_forall₂ hfrom.columns htyped
  refine ⟨m, resolved, hm, hresolved, ?_⟩
  rw [hcolumn.type, ColumnDecl.concrete_of_known]
  · rfl
  · exact ColumnDecl.isPlaceholder_concrete column

end Scripts

/-- A view of the second of two tables with one name. -/
def secondOfTwoScript : String :=
  "CREATE TABLE db1.t (a UInt8); CREATE TABLE db2.t (a String); " ++
    "CREATE MATERIALIZED VIEW v AS SELECT a FROM db2.t"

theorem type_of_reference_secondOfTwo : ∃ report mapped,
    readScript secondOfTwoScript = .ok report ∧ resolve {} report.tables.toList = .ok mapped ∧
      ∃ m resolved, mapped[2]? = some m ∧ m.columns[0]? = some resolved ∧
        resolved.type.display = "String" := by
  have h : (readScript secondOfTwoScript).toOption.any (fun report =>
      (resolve {} report.tables.toList).toOption.any fun _ =>
        report.tables.toList[2]?.any fun view => view.query.any fun query =>
          query.items[0]?.any fun item =>
            (declaredFor? report.tables.toList 2 "t").any fun table =>
              (table.findColumn? item.name).any fun column =>
                query.source = some "t" ∧ query.selected? = none ∧ table.query = none ∧
                item.sourceColumn = some item.name ∧ item.function = none ∧
                column.concrete.type.display = "String") = true := by decide +kernel
  obtain ⟨report, hread, h⟩ := exists_of_any h
  obtain ⟨mapped, hresolve, h⟩ := exists_of_any h
  obtain ⟨view, hview, h⟩ := (Option.any_eq_true _ _).1 h
  obtain ⟨query, hquery, h⟩ := (Option.any_eq_true _ _).1 h
  obtain ⟨item, hitem, h⟩ := (Option.any_eq_true _ _).1 h
  obtain ⟨table, htable, h⟩ := (Option.any_eq_true _ _).1 h
  obtain ⟨column, hcolumn, h⟩ := (Option.any_eq_true _ _).1 h
  obtain ⟨hsource, hdirect, hcolumns, hname, hfunction, hdisplay⟩ := of_decide_eq_true h
  obtain ⟨-, m, resolved, hm, hresolved, htype⟩ := type_of_reference hread hresolve hview hquery
    hsource hdirect htable hcolumns hitem ⟨hname, hfunction⟩ (by simp) hcolumn
  exact ⟨report, mapped, hread, hresolve, m, resolved, hm, hresolved, by rw [htype, hdisplay]⟩

/-- A table of a script, with the types of its columns as they are declared and once they are
resolved. -/
structure TableTypes where
  database : Option String
  name : String
  declared : List String
  resolved : List String
  deriving DecidableEq

def scriptTypes (script : String) : Option (List TableTypes) := do
  let report ← (readScript script).toOption
  let mapped ← (resolve {} report.tables.toList).toOption
  return report.tables.toList.zipWith (fun table m =>
    ⟨table.database, table.name, table.columns.map (·.type.display),
      m.columns.map (·.type.display)⟩) mapped

/-- A view of a table has the types of the table with the same name in another database. Of two
items with one output name the first one counts, and a sub-query goes before a table. -/
theorem scriptTypes_of_qualified :
    scriptTypes "CREATE TABLE db1.t (a UInt8); CREATE TABLE db2.t (a String);
        CREATE MATERIALIZED VIEW v AS SELECT a FROM db1.t" =
      some [⟨some "db1", "t", ["UInt8"], ["UInt8"]⟩, ⟨some "db2", "t", ["String"], ["String"]⟩,
        ⟨none, "v", ["Unknown"], ["String"]⟩] ∧
    scriptTypes "CREATE TABLE db.t (a UInt8, b Date);
        CREATE MATERIALIZED VIEW v AS SELECT a AS x, b AS x FROM db.t" =
      some [⟨some "db", "t", ["UInt8", "Date"], ["UInt8", "Date"]⟩,
        ⟨none, "v", ["Unknown", "Unknown"], ["UInt8", "UInt8"]⟩] ∧
    scriptTypes "CREATE TABLE db.t (a UInt8);
        CREATE MATERIALIZED VIEW v AS WITH t AS (SELECT a FROM db.t) SELECT a FROM db.t" =
      some [⟨some "db", "t", ["UInt8"], ["UInt8"]⟩, ⟨none, "v", ["Unknown"], ["String"]⟩] := by
  refine ⟨?_, ?_, ?_⟩ <;> decide +kernel

end TypedTables
