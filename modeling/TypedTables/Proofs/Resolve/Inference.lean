import TypedTables.Proofs.Result
import TypedTables.Resolve

/-!
Inference makes no types of its own but plain ones: what holds of those and of the types of all
tables in the catalog holds of every type that is inferred.
-/

namespace TypedTables

variable {P : TypeExpr → Prop}

/-- Every type of the columns has the property. -/
def TypesOf (P : TypeExpr → Prop) (columns : List ColumnDecl) : Prop :=
  ∀ column ∈ columns, P column.type

theorem mem_of_findNamed? {α : Type} {nameOf : α → String} {name : String} {xs : List α} {x : α}
    (h : findNamed? nameOf name xs = some x) : x ∈ xs := by
  obtain h | ⟨-, h⟩ := Option.or_eq_some_iff.1 h
  · exact List.mem_of_find?_eq_some h
  · exact List.mem_of_find?_eq_some h

namespace Source

theorem of_columnType? {source : Source} (h : TypesOf P source.table.columns) {name : String}
    {ty : TypeExpr} (hty : source.columnType? name = some ty) : P ty := by
  obtain ⟨column, hc, hty⟩ := Option.bind_eq_some_iff.1 hty
  rw [Named.find?_eq] at hc
  split at hty
  · contradiction
  · cases hty
    exact h column (mem_of_findNamed? hc)

end Source

namespace Catalog

/-- Every type of the tables has the property. -/
def Holds (P : TypeExpr → Prop) (catalog : Catalog) : Prop :=
  ∀ name source, catalog.sources.get? name = some source → TypesOf P source.table.columns

variable {catalog : Catalog} {table : TableDecl}

theorem holds_register (h : catalog.Holds P) (ht : TypesOf P table.columns) :
    (catalog.register table).Holds P := by
  intro name source hs
  rw [register, Index.get?_insert] at hs
  split_ifs at hs
  · cases hs
    exact ht
  · exact h name source hs

theorem holds_foldl (tables : List TableDecl) (h : catalog.Holds P)
    (ht : ∀ table ∈ tables, TypesOf P table.columns) : (tables.foldl register catalog).Holds P := by
  induction tables generalizing catalog with
  | nil => exact h
  | cons table tables ih =>
    obtain ⟨hhead, htail⟩ := List.forall_mem_cons.1 ht
    exact ih (holds_register h hhead) htail

theorem holds_ofTables {tables : List TableDecl} (ht : ∀ table ∈ tables, TypesOf P table.columns) :
    (ofTables tables).Holds P :=
  holds_foldl tables (fun _ _ h => by rw [Index.get?_empty] at h; contradiction) ht

theorem typesOf_source? (h : catalog.Holds P) {name : String} {source : Source}
    (hs : catalog.source? name = some source) : TypesOf P source.table.columns := by
  obtain hs | ⟨-, hs⟩ := Option.or_eq_some_iff.1 hs
  · exact h name source hs
  · obtain ⟨first, -, hs⟩ := Option.bind_eq_some_iff.1 hs
    exact h first source hs

end Catalog

section Infer

variable (hplain : ∀ name, P (.plain name)) {query : ViewQuery} {view : View query} {name : String}
  {ty : TypeExpr}

include hplain

theorem of_conversionType? {function : String} (h : conversionType? function = some ty) : P ty := by
  obtain ⟨_, -, rfl⟩ := Option.map_eq_some_iff.1 h
  exact hplain _

theorem of_returnType? {function : String} {base : Option TypeExpr} (hbase : ∀ t ∈ base, P t)
    (h : returnType? function base = some ty) : P ty := by
  unfold returnType? at h
  dsimp only at h
  split_ifs at h
  · cases h
    exact hplain _
  · cases h
    exact hplain _
  · exact hbase ty h

variable (hview : ∀ source ∈ view.source, TypesOf P source.table.columns)

include hview

omit hplain in
theorem View.of_sourceType? (h : view.sourceType? name = some ty) : P ty := by
  obtain ⟨source, hs, h⟩ := Option.bind_eq_some_iff.1 h
  exact Source.of_columnType? (hview source hs) h

theorem View.of_innerType? (h : view.innerType? name = some ty) : P ty := by
  unfold innerType? at h
  split at h
  · exact of_sourceType? hview h
  · obtain h | ⟨-, h⟩ := Option.or_eq_some_iff.1 h
    · obtain ⟨function, -, h⟩ := Option.bind_eq_some_iff.1 h
      exact of_conversionType? hplain h
    · exact of_sourceType? hview h

theorem View.of_typeThrough? (h : view.typeThrough? name = some ty) : P ty := by
  obtain ⟨item, -, h⟩ := Option.bind_eq_some_iff.1 h
  split at h
  · cases h
    exact hplain _
  · refine of_returnType? hplain (fun t ht => ?_) h
    obtain ⟨column, -, ht⟩ := Option.bind_eq_some_iff.1 ht
    exact of_innerType? hplain hview ht

theorem View.of_columnType? (h : view.columnType? name = some ty) : P ty := by
  unfold columnType? at h
  split_ifs at h
  · exact of_typeThrough? hplain hview h
  · exact of_sourceType? hview h

theorem ColumnDecl.of_infer {column : ColumnDecl} (h : P column.type) :
    P (column.infer view).type := by
  unfold infer
  split_ifs
  · cases hty : view.columnType? column.name with
    | none => exact hplain _
    | some ty => exact View.of_columnType? hplain hview hty
  · exact h

end Infer

theorem Catalog.typesOf_inferTable (hplain : ∀ name, P (.plain name)) {catalog : Catalog}
    (h : catalog.Holds P) {table : TableDecl} (ht : TypesOf P table.columns) :
    TypesOf P (catalog.inferTable table).columns := by
  unfold inferTable
  split
  · exact ht
  · intro column hmem
    obtain ⟨column, hcolumn, rfl⟩ := List.mem_map.1 hmem
    refine ColumnDecl.of_infer hplain (fun source hs => ?_) (ht column hcolumn)
    obtain ⟨name, -, hs⟩ := Option.bind_eq_some_iff.1 hs
    exact typesOf_source? h hs

end TypedTables
