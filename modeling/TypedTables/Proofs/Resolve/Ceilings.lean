import TypedTables.Proofs.Resolve.Inference
import TypedTables.Proofs.TypeExpr.Within

/-!
Resolution and the ceilings, with no plugins to answer for types: what has been resolved keeps to
them, and for types that keep to all ceilings but the depth resolution has no way to fail but that.
-/

namespace TypedTables

variable {options : ResolveOptions}

section Map

variable {table column : String} {ty : TypeExpr}

def TsType.plainFold (options : MappingOptions) : TypeFold TsType :=
  TsType.fold options fun _ _ => none

theorem TsType.plainFold_plain (options : MappingOptions) : (plainFold options).Plain :=
  fun _ _ => rfl

theorem TsType.plainFold_total {options : MappingOptions} (hu : options.failOnUnknownLeaf = false) :
    (plainFold options).Total :=
  fun name => ⟨single "unknown", by simp [plainFold, fold, unknown, hu]⟩

theorem mapType_eq (hp : options.plugins = []) :
    mapType options table column ty =
      TsType.text <$> (TsType.plainFold options.toMappingOptions).run ty := by
  rw [mapType, hp]
  rfl

theorem within_of_mapType (hp : options.plugins = []) {text : String}
    (h : mapType options table column ty = .ok text) : ty.Within maxTypeDepth := by
  rw [mapType_eq hp] at h
  obtain ⟨mapped, h, -⟩ := map_eq_ok.1 h
  exact TypeFold.within_of_runWithin (TsType.plainFold_plain _) h

theorem tooDeep_of_mapType (hp : options.plugins = []) (hu : options.failOnUnknownLeaf = false)
    {depth : Nat} (hty : ty.Within depth) {e : Error}
    (h : mapType options table column ty = .error e) : maxTypeDepth < depth ∧ e = .tooDeep := by
  rw [mapType_eq hp] at h
  exact TypeFold.tooDeep_of_runWithin (TsType.plainFold_plain _) (TsType.plainFold_total hu) hty
    (map_eq_error.1 h)

end Map

section Resolve

variable {table : TableDecl} {column : ColumnDecl} {depth : Nat} {e : Error}

theorem ColumnDecl.within_concrete (h : column.type.Within (depth + 1)) :
    column.concrete.type.Within (depth + 1) := by
  unfold concrete
  split_ifs
  · exact TypeExpr.within_plain _ _
  · exact h

/-- What a resolved column is made of. -/
structure ResolvedColumn.From (options : ResolveOptions) (table : String) (column : ColumnDecl)
    (resolved : ResolvedColumn) : Prop where
  name : resolved.name = options.casing.apply column.name
  sourceName : resolved.sourceName = column.name
  type : resolved.type = column.concrete.type
  rawType : resolved.rawType = column.concrete.rawType
  mapped : mapType options table column.concrete.name resolved.type = .ok resolved.mappedType

theorem ColumnDecl.from_of_resolve {name : String} {resolved : ResolvedColumn}
    (h : column.resolve options name = .ok resolved) : resolved.From options name column := by
  obtain ⟨mapped, hm, h⟩ := bind_eq_ok.1 h
  cases h
  have hname : column.concrete.name = column.name := by
    unfold concrete
    split_ifs <;> rfl
  exact ⟨congrArg options.casing.apply hname, hname, rfl, rfl, hm⟩

theorem TableDecl.tooDeep_of_resolve (hp : options.plugins = [])
    (hu : options.failOnUnknownLeaf = false)
    (ht : TypesOf (·.Within (depth + 1)) table.columns)
    (h : table.resolve options = .error e) : maxTypeDepth < depth + 1 ∧ e = .tooDeep := by
  obtain h | ⟨columns, -, h⟩ := bind_eq_error.1 h
  · obtain ⟨column, hc, h⟩ := exists_of_mapM_eq_error h
    obtain h | ⟨mapped, -, h⟩ := bind_eq_error.1 h
    · exact tooDeep_of_mapType hp hu (column.within_concrete (ht column hc)) h
    · contradiction
  · contradiction

/-- What a mapped table is made of. -/
structure MappedTable.From (options : ResolveOptions) (table : TableDecl) (mapped : MappedTable) :
    Prop where
  declaredName : mapped.declaredName = Text.pascalCase table.name
  sourceName : mapped.sourceName = table.name
  columns : List.Forall₂ (ResolvedColumn.From options table.name) table.columns mapped.columns

theorem TableDecl.from_of_resolve {mapped : MappedTable}
    (h : table.resolve options = .ok mapped) : mapped.From options table := by
  obtain ⟨columns, hc, h⟩ := bind_eq_ok.1 h
  cases h
  exact ⟨rfl, rfl, (mapM_eq_ok.1 hc).imp fun _ _ => ColumnDecl.from_of_resolve⟩

theorem tooDeep_of_resolveFrom (hp : options.plugins = [])
    (hu : options.failOnUnknownLeaf = false) {catalog : Catalog} {tables : List TableDecl}
    (hc : catalog.Holds (·.Within (depth + 1)))
    (ht : ∀ table ∈ tables, TypesOf (·.Within (depth + 1)) table.columns)
    (h : resolveFrom options catalog tables = .error e) :
    maxTypeDepth < depth + 1 ∧ e = .tooDeep := by
  induction tables generalizing catalog with
  | nil => contradiction
  | cons table tables ih =>
    obtain ⟨hhead, htail⟩ := List.forall_mem_cons.1 ht
    have hinferred : TypesOf (·.Within (depth + 1)) (catalog.inferTable table).columns :=
      catalog.typesOf_inferTable (fun name => TypeExpr.within_plain name depth) hc hhead
    obtain h | ⟨mapped, -, h⟩ := bind_eq_error.1 h
    · exact TableDecl.tooDeep_of_resolve hp hu hinferred h
    · obtain h | ⟨rest, -, h⟩ := bind_eq_error.1 h
      · exact ih (Catalog.holds_register hc hinferred) htail h
      · contradiction

/-- Each table as it is after inference, beside what it has become. -/
theorem from_of_resolveFrom {catalog : Catalog} {tables : List TableDecl}
    {mapped : List MappedTable} (h : resolveFrom options catalog tables = .ok mapped) :
    List.Forall₂ (fun table m => ∃ catalog : Catalog, m.From options (catalog.inferTable table))
      tables mapped := by
  induction tables generalizing catalog mapped with
  | nil =>
    cases h
    exact .nil
  | cons table tables ih =>
    obtain ⟨m, hm, h⟩ := bind_eq_ok.1 h
    obtain ⟨rest, hrest, h⟩ := bind_eq_ok.1 h
    cases h
    exact .cons ⟨catalog, TableDecl.from_of_resolve hm⟩ (ih hrest)

end Resolve

end TypedTables
