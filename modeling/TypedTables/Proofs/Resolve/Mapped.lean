import TypedTables.Proofs.Resolve.Scripts
import TypedTables.Proofs.Text.Words

/-!
What resolution hands on, with no plugins to answer for types: types that are known and keep to the
ceilings, mapped to texts that are not blank, and names that only the checks of a renderer may turn
down.
-/

namespace TypedTables

open Text

section Text

variable {s t : String}

theorem not_allBlank_left (h : allBlank s = false) (t : String) : allBlank (s ++ t) = false := by
  rw [allBlank, String.toList_append, List.all_append, ← allBlank, h, Bool.false_and]

theorem not_allBlank_right (h : allBlank t = false) (s : String) : allBlank (s ++ t) = false := by
  rw [allBlank, String.toList_append, List.all_append, ← allBlank, ← allBlank, h, Bool.and_false]

theorem not_allBlank_quoted (value : String) : allBlank (quoted value) = false := by
  have hq : isBlank '\x27' = false := by decide +kernel
  simp [allBlank, quoted, hq]

theorem not_allBlank_intercalate (sep : String) (hs : allBlank s = false) (rest : List String) :
    allBlank (sep.intercalate (s :: rest)) = false := by
  cases rest with
  | nil => rwa [String.intercalate_singleton]
  | cons t rest =>
    rw [String.intercalate_cons_cons, String.append_assoc]
    exact not_allBlank_left hs _

end Text

section Map

variable (options : MappingOptions)

theorem TsType.not_allBlank_array (item : TsType) : allBlank (array item).text = false := by
  unfold array
  split_ifs
  · exact not_allBlank_right (by decide +kernel) _
  · exact not_allBlank_right (by decide +kernel) _

theorem TsType.not_allBlank_tuple (items : List TsType) : allBlank (tuple items).text = false := by
  unfold tuple
  split
  · decide +kernel
  · exact not_allBlank_right (by decide +kernel) _

theorem TsType.not_allBlank_enumeration {keys : List String} (h : keys ≠ []) :
    allBlank (enumeration keys).text = false := by
  obtain ⟨key, keys, rfl⟩ := List.exists_cons_of_ne_nil h
  exact not_allBlank_intercalate _ (not_allBlank_quoted key) _

/-- The texts that leaves are mapped to. -/
def TsType.leafTexts : List String :=
  ["number", "bigint", "string", "boolean", "Decimal", "IPv4", "IPv6", "Date"]

theorem TsType.leaf_mem (l : Leaf) : (leaf options l).text ∈ leafTexts := by
  cases l with
  | wideInteger => cases h : options.int64 <;> simp [leaf, h, single, leafTexts]
  | decimal => cases h : options.decimal <;> simp [leaf, h, single, leafTexts]
  | date | dateTime => cases h : options.datetime <;> simp [leaf, h, single, leafTexts]
  | address family => cases family <;> simp [leaf, single, leafTexts, AddressFamily.name]
  | integer | float | boolean | text => simp [leaf, single, leafTexts]

theorem TsType.union_leaf (l : Leaf) : (leaf options l).union = false := by
  unfold leaf
  repeat' split
  all_goals rfl

theorem TsType.not_allBlank_leaf (l : Leaf) : allBlank (leaf options l).text = false := by
  have all : leafTexts.all (!allBlank ·) = true := by decide +kernel
  simpa using List.all_eq_true.1 all _ (leaf_mem options l)

theorem TsType.keeps_plainFold :
    (plainFold options).Keeps fun mapped => allBlank mapped.text = false where
  nullable mapped _ := not_allBlank_right (by decide +kernel) mapped.text
  array item _ := not_allBlank_array item
  tuple items _ := not_allBlank_tuple items
  map value _ := not_allBlank_right (by decide +kernel) _
  enumeration _ h := not_allBlank_enumeration h
  leaf := not_allBlank_leaf options
  unknown name mapped h := by
    simp only [plainFold, fold, unknown] at h
    split_ifs at h
    cases h
    decide +kernel

end Map

/-- A column that may be rendered as far as its type goes. -/
structure ResolvedColumn.Typed (column : ResolvedColumn) : Prop where
  known : column.type.isPlaceholder = false
  within : column.type.Within maxTypeDepth
  mapped : allBlank column.mappedType = false

/-- A table that may be rendered as far as everything but names in the output goes. -/
structure MappedTable.Typed (table : MappedTable) : Prop where
  sourceName : allBlank table.sourceName = false
  declaredName : allBlank table.declaredName = true → table.declaredName = ""
  count : table.columns.length ≤ Ceiling.columnCount.limit
  columns : ∀ column ∈ table.columns, column.Typed

section Resolve

variable {options : ResolveOptions}

theorem ColumnDecl.isPlaceholder_concrete (column : ColumnDecl) :
    column.concrete.type.isPlaceholder = false := by
  unfold concrete
  split_ifs with h
  · rfl
  · simpa using h

theorem ResolvedColumn.typed_of_from (hp : options.plugins = []) {table : String}
    {column : ColumnDecl} {resolved : ResolvedColumn} (h : resolved.From options table column) :
    resolved.Typed where
  known := by rw [h.type]; exact column.isPlaceholder_concrete
  within := within_of_mapType hp h.mapped
  mapped := by
    have hm := h.mapped
    rw [mapType_eq hp] at hm
    obtain ⟨mapped, hm, heq⟩ := map_eq_ok.1 hm
    rw [← heq]
    exact (TsType.keeps_plainFold _).of_runWithin (TsType.plainFold_plain _) hm

@[simp] theorem Catalog.name_inferTable (catalog : Catalog) (table : TableDecl) :
    (catalog.inferTable table).name = table.name := by
  unfold inferTable
  split <;> rfl

@[simp] theorem Catalog.length_inferTable (catalog : Catalog) (table : TableDecl) :
    (catalog.inferTable table).columns.length = table.columns.length := by
  unfold inferTable
  split <;> simp

theorem typed_of_resolve (hp : options.plugins = []) {tables : List TableDecl}
    {mapped : List MappedTable} (h : resolve options tables = .ok mapped) :
    mapped.length ≤ Ceiling.tableCount.limit ∧ ∀ table ∈ mapped, table.Typed := by
  obtain ⟨hcount, hvalid, h⟩ := of_resolve h
  have hfrom := from_of_resolveFrom h
  refine ⟨hfrom.length_eq ▸ hcount, fun m hm => ?_⟩
  obtain ⟨table, ht, catalog, hm⟩ := exists_of_forall₂ hfrom.flip hm
  obtain ⟨hnames, hcolumns⟩ := TableDecl.validate_eq_ok.1 (hvalid table ht)
  have hlength := hm.columns.length_eq
  rw [catalog.length_inferTable] at hlength
  exact {
    sourceName := by rw [hm.sourceName, catalog.name_inferTable]; exact hnames.own
    declaredName := by rw [hm.declaredName]; exact allBlank_pascalCase
    count := hlength ▸ hcolumns
    columns := fun column hc => by
      obtain ⟨decl, -, hd⟩ := exists_of_forall₂ hm.columns.flip hc
      exact ResolvedColumn.typed_of_from hp hd }

end Resolve

end TypedTables
