import TypedTables.Proofs.Resolve.Ceilings
import TypedTables.Proofs.Script

/-!
Resolving what a script declares. All ceilings have been checked when the script was read, so that
nothing can fail but a column whose type was nested to the last level before `NULL` wrapped it.
-/

namespace TypedTables

variable {options : ResolveOptions} {tables : List TableDecl}

/-- The table and its columns have names. -/
structure TableDecl.HasNames (table : TableDecl) : Prop where
  own : Text.allBlank table.name = false
  ofColumns : ∀ column ∈ table.columns, Text.allBlank column.name = false

instance (table : TableDecl) : Decidable table.HasNames :=
  decidable_of_iff (Text.allBlank table.name = false ∧
      ∀ column ∈ table.columns, Text.allBlank column.name = false)
    ⟨fun ⟨h, h'⟩ => ⟨h, h'⟩, fun ⟨h, h'⟩ => ⟨h, h'⟩⟩

theorem TableDecl.validate_eq_ok {table : TableDecl} :
    table.validate = .ok () ↔
      table.HasNames ∧ table.columns.length ≤ Ceiling.columnCount.limit := by
  have hcolumns : (table.columns.findIdx? fun column => Text.allBlank column.name) = none ↔
      ∀ column ∈ table.columns, Text.allBlank column.name = false := List.findIdx?_eq_none_iff
  rw [validate]
  cases hname : Text.allBlank table.name with
  | true => exact ⟨nofun, fun h => by rw [h.1.own] at hname; contradiction⟩
  | false =>
    change (Ceiling.columnCount.check table.columns.length >>= _) = _ ↔ _
    rw [Ceiling.check_bind_eq_ok]
    constructor
    · rintro ⟨hcount, h⟩
      cases hfind : table.columns.findIdx? fun column => Text.allBlank column.name with
      | none => exact ⟨⟨hname, hcolumns.1 hfind⟩, hcount⟩
      | some i =>
        rw [hfind] at h
        contradiction
    · rintro ⟨h, hcount⟩
      refine ⟨hcount, ?_⟩
      rw [hcolumns.2 h.ofColumns]
      rfl

theorem resolve_eq (hcount : tables.length ≤ Ceiling.tableCount.limit)
    (hvalid : ∀ table ∈ tables, table.validate = .ok ()) :
    resolve options tables = resolveFrom options (Catalog.ofTables tables) tables := by
  rw [resolve, Ceiling.check_eq_ok.2 hcount, forM_eq_ok.2 hvalid]
  rfl

theorem of_resolve {mapped : List MappedTable} (h : resolve options tables = .ok mapped) :
    tables.length ≤ Ceiling.tableCount.limit ∧ (∀ table ∈ tables, table.validate = .ok ()) ∧
      resolveFrom options (Catalog.ofTables tables) tables = .ok mapped := by
  obtain ⟨hcount, h⟩ := Ceiling.check_bind_eq_ok.1 h
  obtain ⟨_, hvalid, h⟩ := bind_eq_ok.1 h
  exact ⟨hcount, forM_eq_ok.1 hvalid, h⟩

theorem Catalog.mem_inferTable {table : TableDecl} {column : ColumnDecl}
    (hc : column ∈ table.columns) (h : column.type.isPlaceholder = false) (catalog : Catalog) :
    column ∈ (catalog.inferTable table).columns := by
  unfold inferTable
  split
  · exact hc
  · refine List.mem_map.2 ⟨column, hc, ?_⟩
    rw [ColumnDecl.infer, h]
    rfl

theorem not_overfull_of_resolveFrom (hp : options.plugins = []) {catalog : Catalog}
    {mapped : List MappedTable} (h : resolveFrom options catalog tables = .ok mapped) :
    ∀ table ∈ tables, ∀ column ∈ table.columns, ¬ column.type.Overfull := by
  intro table ht column hc hover
  have hpending : column.type.isPlaceholder = false := by
    obtain ⟨inner, heq, -⟩ := hover
    rw [heq]
    rfl
  obtain ⟨m, -, catalog, hm⟩ := exists_of_forall₂ (from_of_resolveFrom h) ht
  obtain ⟨resolved, -, hr⟩ := exists_of_forall₂ hm.columns (catalog.mem_inferTable hc hpending)
  refine TypeExpr.not_within_of_overfull hover ?_
  have htype : column.concrete.type = column.type := by
    rw [ColumnDecl.concrete, hpending]
    rfl
  rw [← htype, ← hr.type]
  exact within_of_mapType hp hr.mapped

/-- What has been read is resolved unless `NULL` made a type too deep. -/
theorem resolve_readScript {source : String} {report : Report}
    (hread : readScript source = .ok report) (hnames : ∀ table ∈ report.tables, table.HasNames)
    (hp : options.plugins = []) (hu : options.failOnUnknownLeaf = false) :
    (∀ table ∈ report.tables, ∀ column ∈ table.columns,
      column.type.Within maxTypeDepth ∨ column.type.Overfull) ∧
    ((∃ mapped, resolve options report.tables.toList = .ok mapped) ↔
      ∀ table ∈ report.tables, ∀ column ∈ table.columns, ¬ column.type.Overfull) ∧
    ((∃ table ∈ report.tables, ∃ column ∈ table.columns, column.type.Overfull) →
      resolve options report.tables.toList = .error .tooDeep) := by
  have htables := readTables_readScript hread
  have htypes (table : TableDecl) (ht : table ∈ report.tables) :=
    (htables.columns table (Array.mem_toList_iff.2 ht)).types
  have hvalid (table : TableDecl) (ht : table ∈ report.tables.toList) : table.validate = .ok () :=
    TableDecl.validate_eq_ok.2
      ⟨hnames table (Array.mem_toList_iff.1 ht), (htables.columns table ht).count⟩
  rw [resolve_eq htables.count hvalid]
  -- an error means that some type is too deep, and all types are read with one level to spare
  have hdeep {depth : Nat} {e : Error}
      (hall : ∀ table ∈ report.tables.toList, TypesOf (·.Within (depth + 1)) table.columns)
      (h : resolveFrom options (Catalog.ofTables report.tables.toList) report.tables.toList =
        .error e) : maxTypeDepth < depth + 1 ∧ e = .tooDeep :=
    tooDeep_of_resolveFrom hp hu (Catalog.holds_ofTables hall) hall h
  have hok {mapped : List MappedTable}
      (h : resolveFrom options (Catalog.ofTables report.tables.toList) report.tables.toList =
        .ok mapped) : ∀ table ∈ report.tables, ∀ column ∈ table.columns, ¬ column.type.Overfull :=
    fun table ht => not_overfull_of_resolveFrom hp h table (Array.mem_toList_iff.2 ht)
  refine ⟨htypes, ⟨fun ⟨_, h⟩ => hok h, fun hnone => ?_⟩, fun ⟨table, ht, column, hc, hover⟩ => ?_⟩
  · cases h : resolveFrom options (Catalog.ofTables report.tables.toList) report.tables.toList with
    | ok mapped => exact ⟨mapped, rfl⟩
    | error e =>
      have hall : ∀ table ∈ report.tables.toList, TypesOf (·.Within maxTypeDepth) table.columns :=
        fun table ht column hc =>
          have ht := Array.mem_toList_iff.1 ht
          (htypes table ht column hc).resolve_right (hnone table ht column hc)
      exact absurd (hdeep hall h).1 (Nat.lt_irrefl maxTypeDepth)
  · cases h : resolveFrom options (Catalog.ofTables report.tables.toList) report.tables.toList with
    | ok mapped => exact absurd hover (hok h table ht column hc)
    | error e =>
      have hall : ∀ table ∈ report.tables.toList,
          TypesOf (·.Within (maxTypeDepth + 1)) table.columns :=
        fun table ht column hc =>
          TypeExpr.within_of_readable (htypes table (Array.mem_toList_iff.1 ht) column hc)
      rw [(hdeep hall h).2]

theorem resolve_readScript_integer : ∃ report,
    readScript "CREATE TABLE t (c Int8)" = .ok report ∧
      ∃ mapped, resolve {} report.tables.toList = .ok mapped := by
  have h : (readScript "CREATE TABLE t (c Int8)").toOption.any (fun report =>
      (∀ table ∈ report.tables, table.HasNames) ∧
      ∀ table ∈ report.tables, ∀ column ∈ table.columns,
        column.type.name ≠ TypeExpr.nullableName) = true := by decide +kernel
  obtain ⟨report, hread, h⟩ := exists_of_any h
  obtain ⟨hnames, htypes⟩ := of_decide_eq_true h
  refine ⟨report, hread, (resolve_readScript hread hnames rfl rfl).2.1.2 ?_⟩
  rintro table ht column hc ⟨inner, heq, -⟩
  exact htypes table ht column hc (by rw [heq]; rfl)

/-- A column whose type takes all levels, with `NULL` behind it. -/
def overfullScript : String :=
  "CREATE TABLE t (c " ++ String.join (List.replicate 19 "Array(") ++ "String" ++
    String.join (List.replicate 19 ")") ++ " NULL)"

theorem resolve_overfullScript : ∃ report,
    readScript overfullScript = .ok report ∧ (∀ table ∈ report.tables, table.HasNames) ∧
      resolve {} report.tables.toList = .error .tooDeep := by
  have h : (readScript overfullScript).toOption.any (fun report =>
      (∀ table ∈ report.tables, table.HasNames) ∧
      resolve {} report.tables.toList = .error .tooDeep) = true := by decide +kernel
  obtain ⟨report, hread, h⟩ := exists_of_any h
  exact ⟨report, hread, of_decide_eq_true h⟩

end TypedTables
