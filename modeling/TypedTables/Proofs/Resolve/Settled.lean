import TypedTables.Proofs.Resolve.Mapped
import TypedTables.Proofs.TypeExpr.Related

/-!
Tables as inference settles them. Resolution settles all tables in their order and then maps each of
them by itself. What a view reads under a name is the table last registered under it: one that has
been settled before, or else one as it is declared.
-/

namespace TypedTables

open Text

/-- The tables with all types inferred, each from the catalog that those before it leave. -/
def settle : Catalog → List TableDecl → List TableDecl
  | _, [] => []
  | catalog, table :: rest =>
    catalog.inferTable table :: settle (catalog.register (catalog.inferTable table)) rest

/-- The tables with all types inferred from one another. -/
def settled (tables : List TableDecl) : List TableDecl := settle (Catalog.ofTables tables) tables

theorem resolveFrom_eq (options : ResolveOptions) (catalog : Catalog) (tables : List TableDecl) :
    resolveFrom options catalog tables =
      (settle catalog tables).mapM (TableDecl.resolve options) := by
  induction tables generalizing catalog with
  | nil => rfl
  | cons table tables ih =>
    rw [settle, List.mapM_cons, ← ih]
    rfl

variable {options : ResolveOptions} {tables : List TableDecl}

theorem resolve_eq_ok_iff {mapped : List MappedTable} :
    resolve options tables = .ok mapped ↔
      tables.length ≤ Ceiling.tableCount.limit ∧ (∀ table ∈ tables, table.validate = .ok ()) ∧
      List.Forall₂ (fun table m => table.resolve options = .ok m) (settled tables) mapped := by
  rw [settled, ← mapM_eq_ok, ← resolveFrom_eq]
  constructor
  · exact of_resolve
  · rintro ⟨hcount, hvalid, h⟩
    rw [resolve_eq hcount hvalid, h]

theorem exists_resolve_iff : (∃ mapped, resolve options tables = .ok mapped) ↔
    tables.length ≤ Ceiling.tableCount.limit ∧ (∀ table ∈ tables, table.validate = .ok ()) ∧
      ∀ table ∈ settled tables, ∃ m, table.resolve options = .ok m := by
  simp only [resolve_eq_ok_iff, ← mapM_eq_ok, exists_and_left, exists_mapM_iff]

/-- Each mapped table is made of a table as it has been settled. -/
theorem from_of_resolve {mapped : List MappedTable} (h : resolve options tables = .ok mapped)
    {k : Nat} {done : TableDecl} (hdone : (settled tables)[k]? = some done) :
    ∃ m, mapped[k]? = some m ∧ m.From options done := by
  obtain ⟨-, -, h⟩ := resolve_eq_ok_iff.1 h
  obtain ⟨m, hm, h⟩ := exists_getElem?_of_forall₂ h hdone
  exact ⟨m, hm, TableDecl.from_of_resolve h⟩

namespace Catalog

theorem inferTable_of_query {catalog : Catalog} {table : TableDecl} (h : table.query = none) :
    catalog.inferTable table = table := by
  unfold inferTable
  rw [h]

@[simp] theorem names_inferTable (catalog : Catalog) (table : TableDecl) :
    (catalog.inferTable table).columns.map ColumnDecl.name = table.columns.map ColumnDecl.name := by
  unfold inferTable
  split
  · rfl
  · rw [List.map_map]
    refine List.map_congr_left fun column _ => ?_
    rw [Function.comp_apply, ColumnDecl.infer]
    split_ifs <;> rfl

theorem ofTables_concat (tables : List TableDecl) (table : TableDecl) :
    ofTables (tables ++ [table]) = (ofTables tables).register table := by
  rw [ofTables, List.foldl_concat, ← ofTables]

/-- Under a name stands the table registered last. -/
theorem get?_ofTables (tables : List TableDecl) (name : String) :
    (ofTables tables).sources.get? name =
      (tables.reverse.find? (·.name == name)).map fun table => { table } := by
  induction tables using List.reverseRecOn with
  | nil => rfl
  | append_singleton tables table ih =>
    rw [ofTables_concat, register, Index.get?_insert, ih, List.reverse_concat, List.find?_cons]
    by_cases h : name = table.name
    · simp [h]
    · simp [h, beq_eq_false_iff_ne.2 (Ne.symm h)]

/-- Of the names that differ in letter case only, the first one is kept. -/
theorem firstName_ofTables (tables : List TableDecl) (folded : String) :
    (ofTables tables).firstNames.get? folded =
      (tables.find? (lower ·.name == folded)).map TableDecl.name := by
  induction tables using List.reverseRecOn with
  | nil => rfl
  | append_singleton tables table ih =>
    rw [ofTables_concat, register, List.find?_append, Option.map_or, ← ih]
    dsimp only
    cases h : (ofTables tables).firstNames.get? (lower table.name) with
    | some first =>
      by_cases hf : lower table.name = folded
      · rw [← hf, h, Option.some_or]
      · simp [hf]
    | none =>
      dsimp only
      rw [Index.get?_insert]
      by_cases hf : folded = lower table.name
      · simp [hf, h]
      · simp [hf, Ne.symm hf]

/-- Where no two names differ in letter case only, a name finds the last table that has it in any
letter case. -/
theorem source?_ofTables
    (hnames : ∀ t ∈ tables, ∀ u ∈ tables, lower t.name = lower u.name → t.name = u.name)
    (name : String) :
    (ofTables tables).source? name =
      (tables.reverse.find? (lower ·.name == lower name)).map fun table => { table } := by
  rw [source?, firstName_ofTables]
  cases hfirst : tables.find? (lower ·.name == lower name) with
  | none =>
    have hnone : ∀ t ∈ tables, lower t.name ≠ lower name := by simpa using hfirst
    have hexact : tables.reverse.find? (·.name == name) = none := by
      simpa using fun t ht heq => hnone t ht (congrArg lower heq)
    have hfolded : tables.reverse.find? (lower ·.name == lower name) = none := by simpa using hnone
    rw [get?_ofTables, hexact, hfolded]
    rfl
  | some first =>
    have hmem : first ∈ tables := List.mem_of_find?_eq_some hfirst
    have hname : lower first.name = lower name := by simpa using List.find?_some hfirst
    have hsame : tables.reverse.find? (lower ·.name == lower name) =
        tables.reverse.find? (·.name == first.name) := by
      refine List.find?_congr fun t ht => ?_
      rw [Bool.eq_iff_iff, beq_iff_eq, beq_iff_eq, ← hname]
      exact ⟨hnames t (List.mem_reverse.1 ht) first hmem, congrArg lower⟩
    rw [hsame, ← get?_ofTables]
    by_cases heq : name = first.name
    · simp [heq]
    · have hexact : tables.reverse.find? (·.name == name) = none := by
        simpa using fun t ht h => heq (h.symm.trans (hnames t ht first hmem (by rw [h, hname])))
      simp [get?_ofTables tables name, hexact]

end Catalog

section Settled

theorem getElem?_settle (before rest : List TableDecl) (k : Nat) :
    (settle (Catalog.ofTables before) rest)[k]? =
      rest[k]?.map (Catalog.ofTables
        (before ++ (settle (Catalog.ofTables before) rest).take k)).inferTable := by
  induction rest generalizing before k with
  | nil => rfl
  | cons table rest ih =>
    rw [settle, ← Catalog.ofTables_concat]
    cases k with
    | zero => simp
    | succ k =>
      rw [List.getElem?_cons_succ, ih, List.getElem?_cons_succ, List.take_succ_cons,
        List.append_assoc, List.singleton_append]

/-- What can be read while the table at `k` is settled. -/
def catalogAt (tables : List TableDecl) (k : Nat) : Catalog :=
  Catalog.ofTables (tables ++ (settled tables).take k)

theorem getElem?_settled (tables : List TableDecl) (k : Nat) :
    (settled tables)[k]? = tables[k]?.map (catalogAt tables k).inferTable :=
  getElem?_settle tables tables k

@[simp] theorem length_settle (catalog : Catalog) (tables : List TableDecl) :
    (settle catalog tables).length = tables.length := by
  induction tables generalizing catalog with
  | nil => rfl
  | cons table tables ih => rw [settle, List.length_cons, ih, List.length_cons]

@[simp] theorem length_settled (tables : List TableDecl) :
    (settled tables).length = tables.length := length_settle _ tables

theorem of_getElem?_settled {k : Nat} {table : TableDecl} (h : (settled tables)[k]? = some table) :
    ∃ declared, tables[k]? = some declared ∧ table.name = declared.name := by
  rw [getElem?_settled] at h
  obtain ⟨declared, hd, rfl⟩ := Option.map_eq_some_iff.1 h
  exact ⟨declared, hd, Catalog.name_inferTable _ declared⟩

theorem names_settled (tables : List TableDecl) :
    (settled tables).map (·.columns.map ColumnDecl.name) =
      tables.map (·.columns.map ColumnDecl.name) := by
  refine List.ext_getElem? fun k => ?_
  rw [List.getElem?_map, getElem?_settled, Option.map_map, List.getElem?_map]
  exact congrArg (Option.map · tables[k]?) (funext fun table => Catalog.names_inferTable _ table)

/-- The columns of resolved tables are spelled after the declared ones. -/
theorem names_of_resolve {mapped : List MappedTable} (h : resolve options tables = .ok mapped) :
    mapped.map (·.columns.map ResolvedColumn.name) =
      tables.map (·.columns.map fun column => options.casing.apply column.name) := by
  obtain ⟨-, -, h⟩ := resolve_eq_ok_iff.1 h
  have hdone : mapped.map (·.columns.map ResolvedColumn.name) =
      ((settled tables).map (·.columns.map ColumnDecl.name)).map (List.map options.casing.apply) := by
    rw [List.map_map]
    refine (map_eq_map_of_forall₂ (h.imp fun table m hm => ?_)).symm
    rw [Function.comp_apply, List.map_map]
    exact map_eq_map_of_forall₂ ((TableDecl.from_of_resolve hm).columns.imp
      fun _ _ hcolumn => hcolumn.name.symm)
  rw [hdone, names_settled, List.map_map]
  simp only [Function.comp_def, List.map_map]

/-- No two elements have one name, letter case apart. -/
def Apart {α : Type} (nameOf : α → String) (xs : List α) : Prop :=
  xs.Pairwise fun x y => sameIgnoringCase (nameOf x) (nameOf y) = false

theorem Apart.eq_of_getElem? {α : Type} {nameOf : α → String} {xs : List α} (h : Apart nameOf xs)
    {i j : Nat} {x y : α} (hi : xs[i]? = some x) (hj : xs[j]? = some y)
    (hname : lower (nameOf x) = lower (nameOf y)) : i = j := by
  obtain ⟨hlti, rfl⟩ := List.getElem?_eq_some_iff.1 hi
  obtain ⟨hltj, rfl⟩ := List.getElem?_eq_some_iff.1 hj
  have happart := List.pairwise_iff_getElem.1 h
  obtain hlt | heq | hlt := Nat.lt_trichotomy i j
  · simpa [sameIgnoringCase, hname] using happart i j hlti hltj hlt
  · exact heq
  · simpa [sameIgnoringCase, hname] using happart j i hltj hlti hlt

theorem find?_eq_some_of_unique {α : Type} {p : α → Bool} {x : α} {xs : List α} (hx : x ∈ xs)
    (hp : p x = true) (h : ∀ y ∈ xs, p y = true → y = x) : xs.find? p = some x := by
  cases hfind : xs.find? p with
  | none => exact absurd hp (List.find?_eq_none.1 hfind x hx)
  | some y => rw [h y (List.mem_of_find?_eq_some hfind) (List.find?_some hfind)]

/-- What stands in the catalog while the table at `k` is settled has been declared. -/
theorem exists_declared {k : Nat} {table : TableDecl}
    (h : table ∈ tables ++ (settled tables).take k) :
    ∃ (i : Nat) (declared : TableDecl), tables[i]? = some declared ∧ table.name = declared.name := by
  obtain h | h := List.mem_append.1 h
  · obtain ⟨i, hi⟩ := List.mem_iff_getElem?.1 h
    exact ⟨i, table, hi, rfl⟩
  · obtain ⟨i, hi⟩ := List.mem_iff_getElem?.1 (List.mem_of_mem_take h)
    exact ⟨i, of_getElem?_settled hi⟩

theorem source?_catalog (happart : Apart TableDecl.name tables) (k : Nat) (name : String) :
    (catalogAt tables k).source? name =
      ((((settled tables).take k).reverse.find? (lower ·.name == lower name)).or
        (tables.reverse.find? (lower ·.name == lower name))).map fun table => { table } := by
  rw [catalogAt, Catalog.source?_ofTables, List.reverse_append, List.find?_append]
  intro t ht u hu hname
  obtain ⟨i, declared, hi, ht⟩ := exists_declared ht
  obtain ⟨j, declared', hj, hu⟩ := exists_declared hu
  obtain rfl := happart.eq_of_getElem? hi hj (by rw [← ht, ← hu, hname])
  rw [ht, hu, Option.some.inj (hi.symm.trans hj)]

/-- Under the name of a table it is read as it has been settled if it stands before the table that
reads it, and as it is declared if not. -/
theorem source?_settled (happart : Apart TableDecl.name tables) {i : Nat} {table done : TableDecl}
    (hi : tables[i]? = some table) (hdone : (settled tables)[i]? = some done) {name : String}
    (hname : lower table.name = lower name) (k : Nat) :
    (catalogAt tables k).source? name =
      some { table := if i < k then done else table } := by
  have hdeclared (t : TableDecl) (ht : t ∈ tables) (hfound : lower t.name = lower name) :
      t = table := by
    obtain ⟨j, hj⟩ := List.mem_iff_getElem?.1 ht
    obtain rfl := happart.eq_of_getElem? hj hi (hfound.trans hname.symm)
    exact Option.some.inj (hj.symm.trans hi)
  have hsettled (t : TableDecl) (ht : t ∈ (settled tables).take k)
      (hfound : lower t.name = lower name) : i < k ∧ t = done := by
    obtain ⟨j, hj⟩ := List.mem_iff_getElem?.1 ht
    obtain ⟨hlt, hj⟩ := Option.ite_none_right_eq_some.1 (List.getElem?_take.symm.trans hj)
    obtain ⟨declared, hd, heq⟩ := of_getElem?_settled hj
    obtain rfl := happart.eq_of_getElem? hd hi (by rw [← heq, hfound, hname])
    exact ⟨hlt, Option.some.inj (hj.symm.trans hdone)⟩
  rw [source?_catalog happart]
  by_cases hlt : i < k
  · have hmem : done ∈ (settled tables).take k :=
      List.mem_iff_getElem?.2 ⟨i, by rw [List.getElem?_take, if_pos hlt, hdone]⟩
    have hdonename : lower done.name = lower name := by
      obtain ⟨declared, hd, heq⟩ := of_getElem?_settled hdone
      rw [heq, ← hname, Option.some.inj (hd.symm.trans hi)]
    rw [if_pos hlt, find?_eq_some_of_unique (List.mem_reverse.2 hmem) (by simpa using hdonename)]
    · rfl
    · exact fun t ht hfound => (hsettled t (List.mem_reverse.1 ht) (by simpa using hfound)).2
  · have hnone : ((settled tables).take k).reverse.find? (lower ·.name == lower name) = none :=
      List.find?_eq_none.2 fun t ht hfound =>
        hlt (hsettled t (List.mem_reverse.1 ht) (by simpa using hfound)).1
    rw [if_neg hlt, hnone, Option.none_or, find?_eq_some_of_unique
      (List.mem_reverse.2 (List.mem_of_getElem? hi)) (by simpa using hname)]
    · rfl
    · exact fun t ht hfound => hdeclared t (List.mem_reverse.1 ht) (by simpa using hfound)

/-- Under a name that no table has nothing is read. -/
theorem source?_of_undeclared (happart : Apart TableDecl.name tables) {name : String}
    (h : ∀ table ∈ tables, lower table.name ≠ lower name) (k : Nat) :
    (catalogAt tables k).source? name = none := by
  have hnone {t : TableDecl} (ht : t ∈ tables ++ (settled tables).take k) :
      lower t.name ≠ lower name := by
    obtain ⟨i, declared, hi, heq⟩ := exists_declared ht
    rw [heq]
    exact h declared (List.mem_of_getElem? hi)
  rw [source?_catalog happart, List.find?_eq_none.2, List.find?_eq_none.2]
  · rfl
  · intro t ht
    simpa using hnone (List.mem_append_left _ (List.mem_reverse.1 ht))
  · intro t ht
    simpa using hnone (List.mem_append_right _ (List.mem_reverse.1 ht))

end Settled

end TypedTables
