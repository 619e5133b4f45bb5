import TypedTables.Proofs.Resolve.Chain
import TypedTables.Proofs.Resolve.Unread
import TypedTables.Proofs.TypeExpr.Related

/-!
Letter case. Tables, sub-queries, items and columns are found in any letter case, and functions are
known in any letter case. So where names differ in more than letter case, all types are inferred as
they were, however a query spells what it refers to.
-/

namespace TypedTables

open Text

section Recased

/-- The same item, its names in another letter case. -/
structure SelectItem.Recased (item item' : SelectItem) : Prop where
  name : lower item'.name = lower item.name
  alias? : item'.alias?.map lower = item.alias?.map lower
  sourceColumn : item'.sourceColumn.map lower = item.sourceColumn.map lower
  function : item'.function.map lower = item.function.map lower

structure Subquery.Recased (sub sub' : Subquery) : Prop where
  name : lower sub'.name = lower sub.name
  source : sub'.source.map lower = sub.source.map lower
  items : List.Forall₂ SelectItem.Recased sub.items sub'.items

structure ViewQuery.Recased (query query' : ViewQuery) : Prop where
  source : query'.source.map lower = query.source.map lower
  items : List.Forall₂ SelectItem.Recased query.items query'.items
  subquery : Option.Rel Subquery.Recased query.subquery query'.subquery

structure ColumnDecl.Recased (column column' : ColumnDecl) : Prop where
  name : lower column'.name = lower column.name
  rest : column' = { column with name := column'.name }

/-- The same table, the names of its columns and those in its query in another letter case. -/
structure TableDecl.Recased (table table' : TableDecl) : Prop where
  columns : List.Forall₂ ColumnDecl.Recased table.columns table'.columns
  query : Option.Rel ViewQuery.Recased table.query table'.query
  rest : table' = { table with columns := table'.columns, query := table'.query }

/-- The names of the columns are apart, and so are those under which the items of the query and
those of its sub-query are visible. -/
structure TableDecl.NamesApart (table : TableDecl) : Prop where
  columns : Apart ColumnDecl.name table.columns
  items : ∀ query ∈ table.query, Apart SelectItem.outputName query.items
  innerItems : ∀ query ∈ table.query, ∀ sub ∈ query.subquery, Apart SelectItem.outputName sub.items

end Recased

section Lookup

variable {α : Type} {R : α → α → Prop} {nameOf : α → String} {xs ys : List α}

theorem find?_rel {p q : α → Bool} (h : List.Forall₂ R xs ys) (hpq : ∀ x y, R x y → p x = q y) :
    Option.Rel R (xs.find? p) (ys.find? q) := by
  obtain ⟨hx, hy⟩ | ⟨x, y, hx, hy, hxy⟩ := exists_find?_of_forall₂ h hpq
  · rw [hx, hy]
    exact .none
  · rw [hx, hy]
    exact .some hxy

theorem bind_eq_of_rel {β : Type} {f g : α → Option β} {o o' : Option α} (h : Option.Rel R o o')
    (hR : ∀ x y, R x y → g y = f x) : o'.bind g = o.bind f := by
  cases h with
  | none => rfl
  | some hxy => exact hR _ _ hxy

theorem apart_iff : Apart nameOf xs ↔ (xs.map fun x => lower (nameOf x)).Nodup := by
  simp only [Apart, List.Nodup, List.pairwise_map, sameIgnoringCase, beq_eq_false_iff_ne]

theorem Apart.singleton (x : α) : Apart nameOf [x] := List.pairwise_singleton _ x

/-- Names that are apart are found by what they are in lower case. -/
theorem findNamed?_eq_find? (h : Apart nameOf xs) (name : String) :
    findNamed? nameOf name xs = xs.find? fun x => lower (nameOf x) == lower name := by
  cases hfind : xs.find? fun x => lower (nameOf x) == lower name with
  | none =>
    refine findNamed?_eq_none (List.forall_mem_map.2 fun x hx => ?_)
    simpa [sameIgnoringCase] using List.find?_eq_none.1 hfind x hx
  | some x => exact h.findNamed? (List.mem_of_find?_eq_some hfind) (List.find?_some hfind :)

theorem Apart.of_forall₂ (hx : Apart nameOf xs) (h : List.Forall₂ R xs ys)
    (hR : ∀ x y, R x y → lower (nameOf y) = lower (nameOf x)) : Apart nameOf ys := by
  rw [apart_iff] at hx ⊢
  rwa [← map_eq_map_of_forall₂ (h.imp fun x y hxy => (hR x y hxy).symm)]

theorem findNamed?_rel (hx : Apart nameOf xs) (h : List.Forall₂ R xs ys) {name name' : String}
    (hname : lower name' = lower name) (hR : ∀ x y, R x y → lower (nameOf y) = lower (nameOf x)) :
    Option.Rel R (findNamed? nameOf name xs) (findNamed? nameOf name' ys) := by
  rw [findNamed?_eq_find? hx, findNamed?_eq_find? (hx.of_forall₂ h hR), hname]
  exact find?_rel h fun x y hxy => by rw [hR x y hxy]

end Lookup

section Items

variable {item item' : SelectItem} {query query' : ViewQuery}

theorem lower_getD {o o' : Option String} {s s' : String} (h : o'.map lower = o.map lower)
    (hs : lower s' = lower s) : lower (o'.getD s') = lower (o.getD s) := by
  cases o <;> cases o' <;> simp_all

theorem SelectItem.Recased.outputName (h : item.Recased item') :
    lower item'.outputName = lower item.outputName := lower_getD h.alias? h.name

theorem SelectItem.Recased.column (h : item.Recased item') :
    lower item'.column = lower item.column := lower_getD h.sourceColumn h.name

/-- What goes by a name in lower case is the same for a name in another letter case. -/
theorem bind_recased {α : Type} {f g : String → Option α}
    (hf : ∀ s s', lower s' = lower s → g s' = f s) {o o' : Option String}
    (h : o'.map lower = o.map lower) : o'.bind g = o.bind f :=
  match o, o', h with
  | none, none, _ => rfl
  | some s, some s', h => hf s s' (Option.some.inj h)

theorem conversionType?_recased (function function' : String)
    (h : lower function' = lower function) :
    conversionType? function' = conversionType? function := by
  rw [conversionType?, conversionType?, h]

theorem returnType?_recased {function function' : String} (h : lower function' = lower function)
    (base : Option TypeExpr) : returnType? function' base = returnType? function base := by
  rw [returnType?, returnType?, h]

/-- The sub-query that is read is the same one. -/
theorem ViewQuery.Recased.selected? (h : query.Recased query') :
    Option.Rel Subquery.Recased query.selected? query'.selected? := by
  obtain ⟨source, items, sub⟩ := query
  obtain ⟨source', items', sub'⟩ := query'
  obtain ⟨hsource, -, hsub⟩ := h
  cases hsub with
  | none => exact .none
  | @some sub sub' hsub =>
    have hnamed : source'.all (sameIgnoringCase · sub'.name) =
        source.all (sameIgnoringCase · sub.name) := by
      have hname := hsub.name
      cases source <;> cases source' <;> simp_all [sameIgnoringCase]
    rw [ViewQuery.selected?, ViewQuery.selected?, Option.filter_some, Option.filter_some]
    dsimp only
    rw [hnamed]
    split_ifs
    · exact .some hsub
    · exact .none

theorem ViewQuery.Recased.innerItems (h : query.Recased query') :
    List.Forall₂ SelectItem.Recased query.innerItems query'.innerItems := by
  have hselected := h.selected?
  unfold ViewQuery.innerItems
  generalize query.selected? = sub, query'.selected? = sub' at hselected
  cases hselected with
  | none => exact .nil
  | some hsub => exact hsub.items

theorem ViewQuery.Recased.sourceName? (h : query.Recased query') :
    query'.sourceName?.map lower = query.sourceName?.map lower := by
  have hselected := h.selected?
  unfold ViewQuery.sourceName?
  generalize query.selected? = sub, query'.selected? = sub' at hselected
  cases hselected with
  | none => exact h.source
  | some hsub => exact hsub.source

theorem TableDecl.NamesApart.innerItems_of {table : TableDecl} (h : table.NamesApart)
    (hquery : table.query = some query) : Apart SelectItem.outputName query.innerItems := by
  unfold ViewQuery.innerItems
  cases hsub : query.selected? with
  | none => exact .nil
  | some sub => exact h.innerItems query hquery sub (Option.filter_eq_some_iff.1 hsub).1

end Items

section View

variable {query query' : ViewQuery} {view : View query} {view' : View query'} {name name' : String}

/-- A table that is read, and the same one with its columns in another letter case. -/
structure Source.Recased (source source' : Source) : Prop where
  columns : List.Forall₂ ColumnDecl.Recased source.table.columns source'.table.columns
  apart : Apart ColumnDecl.name source.table.columns

theorem Source.Recased.columnType? {source source' : Source} (h : source.Recased source')
    (hname : lower name' = lower name) : source'.columnType? name' = source.columnType? name := by
  rw [Source.columnType?, Source.columnType?, Named.find?_eq, Named.find?_eq]
  have hcolumn := findNamed?_rel h.apart h.columns hname fun _ _ hcolumn => hcolumn.name
  refine bind_eq_of_rel hcolumn ?_
  exact fun column column' hcolumn => by rw [hcolumn.rest]

/-- A view as its query is and as it is in another letter case. -/
structure View.Recased (view : View query) (view' : View query') : Prop where
  spelled : query.Recased query'
  items : Apart SelectItem.outputName query.items
  innerItems : Apart SelectItem.outputName query.innerItems
  source : Option.Rel Source.Recased view.source view'.source

namespace View.Recased

variable (h : view.Recased view') (hname : lower name' = lower name)

include h hname

theorem sourceType? : view'.sourceType? name' = view.sourceType? name :=
  bind_eq_of_rel h.source fun _ _ hsource => hsource.columnType? hname

theorem innerType? : view'.innerType? name' = view.innerType? name := by
  have hitem := findNamed?_rel h.innerItems h.spelled.innerItems hname
    fun _ _ hitem => hitem.outputName
  rw [View.innerType?, View.innerType?, Named.find?_eq, Named.find?_eq]
  generalize findNamed? _ name _ = item, findNamed? _ name' _ = item' at hitem
  cases hitem with
  | none => exact h.sourceType? hname
  | some hitem =>
    dsimp only
    rw [bind_recased conversionType?_recased hitem.function, h.sourceType? hitem.column]

theorem directType? : view'.directType? name' = view.directType? name := by
  have hitem := findNamed?_rel h.items h.spelled.items hname fun _ _ hitem => hitem.outputName
  rw [View.directType?, View.directType?, Named.find?_eq, Named.find?_eq]
  generalize findNamed? _ name _ = item, findNamed? _ name' _ = item' at hitem
  cases hitem with
  | none => exact h.sourceType? hname
  | some hitem => exact h.sourceType? hitem.column

theorem typeThrough? : view'.typeThrough? name' = view.typeThrough? name := by
  have hitem := findNamed?_rel h.items h.spelled.items hname fun _ _ hitem => hitem.outputName
  rw [View.typeThrough?, View.typeThrough?, Named.find?_eq, Named.find?_eq]
  refine bind_eq_of_rel hitem fun item item' hitem => ?_
  have hbase := bind_recased (fun _ _ => h.innerType?) hitem.sourceColumn
  have hfunction := hitem.function
  rw [hbase]
  generalize item.function = function, item'.function = function' at hfunction
  cases function <;> cases function' <;>
    simp_all only [Option.map_none, Option.map_some, reduceCtorEq]
  exact returnType?_recased (Option.some.inj hfunction) _

/-- The type of a column is inferred as it was. -/
theorem columnType? : view'.columnType? name' = view.columnType? name := by
  have hselected : query'.selected?.isSome = query.selected?.isSome := by
    have hselected := h.spelled.selected?
    generalize query.selected? = sub, query'.selected? = sub' at hselected
    cases hselected <;> rfl
  rw [View.columnType?, View.columnType?, hselected, h.typeThrough? hname, h.directType? hname]

end View.Recased

theorem ColumnDecl.Recased.infer {column column' : ColumnDecl} (h : column.Recased column')
    (hview : view.Recased view') : (column.infer view).Recased (column'.infer view') := by
  have htype : column'.type = column.type := by rw [h.rest]
  have hcolumn := hview.columnType? h.name
  rw [ColumnDecl.infer, ColumnDecl.infer, htype, hcolumn]
  split_ifs
  · exact ⟨h.name, by rw [h.rest]⟩
  · exact h

end View

section Settled

variable {tables tables' : List TableDecl} {table table' : TableDecl}

/-- Two catalogs in which a name finds the same table in any letter case. -/
def Catalog.Recased (catalog catalog' : Catalog) : Prop :=
  ∀ name name', lower name' = lower name →
    Option.Rel Source.Recased (catalog.source? name) (catalog'.source? name')

theorem Catalog.Recased.bind_source? {catalog catalog' : Catalog} (h : catalog.Recased catalog')
    {name name' : Option String} (hname : name'.map lower = name.map lower) :
    Option.Rel Source.Recased (name.bind catalog.source?) (name'.bind catalog'.source?) :=
  match name, name', hname with
  | none, none, _ => .none
  | some name, some name', hname => h name name' (Option.some.inj hname)

theorem TableDecl.Recased.inferTable (h : table.Recased table') (happart : table.NamesApart)
    {catalog catalog' : Catalog} (hcatalog : catalog.Recased catalog') :
    (catalog.inferTable table).Recased (catalog'.inferTable table') := by
  obtain ⟨columns', query?', rfl⟩ : ∃ columns' query?',
      table' = { table with columns := columns', query := query?' } := ⟨_, _, h.rest⟩
  obtain ⟨hcolumns, hquery, -⟩ := h
  dsimp only at hcolumns hquery
  unfold Catalog.inferTable
  dsimp only
  cases hq : table.query with
  | none =>
    rw [hq] at hquery
    cases hquery
    exact ⟨hcolumns, by rw [hq]; exact .none, rfl⟩
  | some query =>
    rw [hq] at hquery
    cases hquery with | @some _ query' hquery =>
    have hview : View.Recased ({ source := query.sourceName?.bind catalog.source? } : View query)
        ({ source := query'.sourceName?.bind catalog'.source? } : View query') :=
      ⟨hquery, happart.items query hq, happart.innerItems_of hq,
        hcatalog.bind_source? hquery.sourceName?⟩
    refine ⟨?_, .some hquery, rfl⟩
    rw [List.forall₂_map_left_iff, List.forall₂_map_right_iff]
    exact hcolumns.imp fun _ _ hcolumn => hcolumn.infer hview

theorem TableDecl.Recased.name (h : table.Recased table') : table'.name = table.name := by
  rw [h.rest]

theorem TableDecl.NamesApart.settled (happart : ∀ table ∈ tables, table.NamesApart)
    {done : TableDecl} (hdone : done ∈ settled tables) : Apart ColumnDecl.name done.columns := by
  obtain ⟨k, hk⟩ := List.mem_iff_getElem?.1 hdone
  rw [getElem?_settled] at hk
  obtain ⟨table, htable, rfl⟩ := Option.map_eq_some_iff.1 hk
  have hcolumns := (happart table (List.mem_of_getElem? htable)).columns
  have hnames (columns : List ColumnDecl) : (columns.map fun column => lower column.name) =
      (columns.map ColumnDecl.name).map lower := by
    rw [List.map_map]
    rfl
  rwa [apart_iff, hnames, Catalog.names_inferTable, ← hnames, ← apart_iff]

variable (hnames : Apart TableDecl.name tables) (happart : ∀ table ∈ tables, table.NamesApart)
  (h : List.Forall₂ TableDecl.Recased tables tables')

include hnames happart h

/-- If the tables before a place are settled as they were, the same tables are found there. -/
theorem catalogAt_recased {k : Nat}
    (hbefore : List.Forall₂ TableDecl.Recased
      ((settled tables).take k) ((settled tables').take k)) :
    (catalogAt tables k).Recased (catalogAt tables' k) := by
  intro name name' hname
  have hnames' : Apart TableDecl.name tables' :=
    hnames.of_forall₂ h fun _ _ htable => by rw [htable.name]
  have hall : List.Forall₂ TableDecl.Recased (((settled tables).take k).reverse ++ tables.reverse)
      (((settled tables').take k).reverse ++ tables'.reverse) :=
    List.rel_append (List.rel_reverse hbefore) (List.rel_reverse h)
  have hcolumns : ∀ table ∈ ((settled tables).take k).reverse ++ tables.reverse,
      Apart ColumnDecl.name table.columns := by
    intro table hmem
    obtain hmem | hmem := List.mem_append.1 hmem
    · exact TableDecl.NamesApart.settled happart (List.mem_of_mem_take (List.mem_reverse.1 hmem))
    · exact (happart table (List.mem_reverse.1 hmem)).columns
  have hfound := find?_rel ((List.forall₂_and_left _ _).2 ⟨hcolumns, hall⟩)
    fun table table' htable => show (lower table.name == lower name) =
      (lower table'.name == lower name') by rw [htable.2.name, hname]
  rw [source?_catalog hnames, source?_catalog hnames', ← List.find?_append, ← List.find?_append]
  generalize List.find? _ _ = found, List.find? _ (_ ++ tables'.reverse) = found' at hfound
  cases hfound with
  | none => exact .none
  | some htable => exact .some ⟨htable.2.columns, htable.1⟩

theorem take_settled_recased (k : Nat) :
    List.Forall₂ TableDecl.Recased ((settled tables).take k) ((settled tables').take k) := by
  induction k with
  | zero => exact .nil
  | succ k ih =>
    rw [List.take_add_one, List.take_add_one, getElem?_settled, getElem?_settled]
    refine List.rel_append ih ?_
    cases htable : tables[k]? with
    | none =>
      have hlength : tables'.length ≤ k := h.length_eq ▸ List.getElem?_eq_none_iff.1 htable
      rw [List.getElem?_eq_none_iff.2 hlength]
      exact .nil
    | some table =>
      obtain ⟨table', htable', hrecased⟩ := exists_getElem?_of_forall₂ h htable
      rw [htable']
      have hcatalog := catalogAt_recased hnames happart h ih
      exact .cons (hrecased.inferTable (happart table (List.mem_of_getElem? htable)) hcatalog) .nil

/-- All tables are settled as they were, each name in its letter case. -/
theorem settled_recased : List.Forall₂ TableDecl.Recased (settled tables) (settled tables') := by
  have hall := take_settled_recased hnames happart h tables.length
  rwa [List.take_of_length_le (by simp), List.take_of_length_le (by simp [h.length_eq])] at hall

end Settled

section Resolve

variable {tables tables' : List TableDecl} {table table' : TableDecl} {options : ResolveOptions}

theorem isBlank_toLower (c : Char) : isBlank c.toLower = isBlank c := by
  by_cases hc : c.isUpper = true
  · have hletter (d : Char) (hd : d.isAlpha = true) : isBlank d = false := by
      have hall : blanks.all (fun d => !d.isAlpha) = true := by decide
      rw [isBlank_eq_false_iff]
      exact fun hb => by simpa [hd] using List.all_eq_true.1 hall d hb
    have hc : c.isAlpha = true := by simp [Char.isAlpha, hc]
    rw [hletter c hc, hletter c.toLower (by rwa [Char.isAlpha_toLower_eq_isAlpha])]
  · rw [Char.toLower_eq_of_not_isUpper hc]

theorem allBlank_lower (name : String) : allBlank (lower name) = allBlank name := by
  rw [allBlank, allBlank, lower, String.toList_ofList, List.all_map]
  exact congrArg name.toList.all (funext isBlank_toLower)

theorem TableDecl.Recased.validate (h : table.Recased table') :
    table'.validate = table.validate := by
  have hblank : table'.columns.findIdx? (fun column => allBlank column.name) =
      table.columns.findIdx? (fun column => allBlank column.name) := by
    have hmap : table.columns.map (fun column => allBlank column.name) =
        table'.columns.map fun column => allBlank column.name :=
      map_eq_map_of_forall₂ <| h.columns.imp fun column column' hcolumn => by
        rw [← allBlank_lower column.name, ← hcolumn.name, allBlank_lower]
    have hfind (columns : List ColumnDecl) : columns.findIdx? (fun column => allBlank column.name) =
        (columns.map fun column => allBlank column.name).findIdx? id := by
      rw [List.findIdx?_map]
      rfl
    rw [hfind, hfind, hmap]
  rw [TableDecl.validate, TableDecl.validate, hblank, h.name, h.columns.length_eq]

/-- The types of a table's columns, and what they are mapped to. -/
def MappedTable.types (table : MappedTable) : List (TypeExpr × String) :=
  table.columns.map fun column => (column.type, column.mappedType)

theorem TableDecl.types_resolve (table : TableDecl) :
    MappedTable.types <$> table.resolve options = table.columns.mapM fun column =>
      (fun resolved => (resolved.type, resolved.mappedType)) <$>
        column.resolve options table.name := by
  rw [mapM_map, TableDecl.resolve]
  cases table.columns.mapM (ColumnDecl.resolve options table.name) <;> rfl

theorem ColumnDecl.Recased.concrete {column column' : ColumnDecl} (h : column.Recased column') :
    column'.concrete = { column.concrete with name := column'.name } := by
  rw [h.rest, ColumnDecl.concrete, ColumnDecl.concrete]
  split_ifs <;> rfl

theorem TableDecl.Recased.types_resolve (h : table.Recased table') (hp : options.plugins = []) :
    MappedTable.types <$> table'.resolve options = MappedTable.types <$> table.resolve options := by
  rw [TableDecl.types_resolve, TableDecl.types_resolve, h.name]
  refine mapM_congr_forall₂ (h.columns.imp fun column column' hcolumn => ?_)
  rw [ColumnDecl.resolve, ColumnDecl.resolve, hcolumn.concrete, mapType_eq hp, mapType_eq hp]
  cases (TsType.plainFold options.toMappingOptions).run column.concrete.type <;> rfl

/-- Columns are resolved with the types that they are settled with. -/
theorem types_of_resolve {mapped : List MappedTable} (h : resolve options tables = .ok mapped) :
    mapped.map (·.columns.map (·.type)) =
      (settled tables).map (·.columns.map (·.concrete.type)) := by
  obtain ⟨-, -, h⟩ := resolve_eq_ok_iff.1 h
  refine (map_eq_map_of_forall₂ (h.imp fun table m hm => ?_)).symm
  refine map_eq_map_of_forall₂ ?_
  exact (TableDecl.from_of_resolve hm).columns.imp fun _ _ hcolumn => hcolumn.type.symm

end Resolve

/-- What the columns of all tables are typed as, and what those types are mapped to. -/
def resolvedTypes (options : ResolveOptions) (tables : List TableDecl) :
    Except Error (List (List (TypeExpr × String))) :=
  List.map MappedTable.types <$> resolve options tables

section Theorem

variable {tables tables' : List TableDecl}

theorem resolvedTypes_eq (options : ResolveOptions) (tables : List TableDecl) :
    resolvedTypes options tables = (do
      Ceiling.tableCount.check tables.length
      tables.forM TableDecl.validate
      (settled tables).mapM fun table => MappedTable.types <$> table.resolve options) := by
  rw [resolvedTypes, resolve, resolveFrom_eq, mapM_map]
  cases Ceiling.tableCount.check tables.length with
  | error e => rfl
  | ok =>
    cases tables.forM TableDecl.validate with
    | error e => rfl
    | ok => rfl

theorem forall₂_and_of_map_eq {α β γ : Type} {R : α → β → Prop} {f : α → γ} {g : β → γ}
    {xs : List α} {ys : List β} (h : List.Forall₂ R xs ys) (hmap : ys.map g = xs.map f) :
    List.Forall₂ (fun x y => R x y ∧ g y = f x) xs ys := by
  induction h with
  | nil => exact .nil
  | cons hxy _ ih =>
    obtain ⟨hhead, htail⟩ := List.cons_eq_cons.1 hmap
    exact .cons ⟨hxy, hhead⟩ (ih htail)

/-- A table whose columns keep their names is resolved alike. -/
theorem TableDecl.Recased.resolve_eq {table table' : TableDecl} (h : table.Recased table')
    (hnames : table'.columns.map ColumnDecl.name = table.columns.map ColumnDecl.name)
    (options : ResolveOptions) : table'.resolve options = table.resolve options := by
  have hcolumns : table'.columns = table.columns := by
    rw [← List.forall₂_eq_eq_eq]
    refine .flip ((forall₂_and_of_map_eq h.columns hnames).imp fun column column' hcolumn => ?_)
    change column' = column
    rw [hcolumn.1.rest, hcolumn.2]
  rw [TableDecl.resolve, TableDecl.resolve, h.rest, hcolumns]

/-- Where names differ in more than letter case, queries may spell what they refer to in any letter
case. All columns are typed as they were, and with no plugins to ask for names they are mapped as
they were, or fail with the same error; if no column is renamed by it, nothing at all changes. -/
theorem resolve_recased (hnames : Apart TableDecl.name tables)
    (happart : ∀ table ∈ tables, table.NamesApart)
    (h : List.Forall₂ TableDecl.Recased tables tables') (options : ResolveOptions) :
    (∀ mapped mapped', resolve options tables = .ok mapped →
      resolve options tables' = .ok mapped' →
      mapped'.map (·.columns.map (·.type)) = mapped.map (·.columns.map (·.type))) ∧
    (options.plugins = [] → resolvedTypes options tables' = resolvedTypes options tables) ∧
    (tables'.map (·.columns.map ColumnDecl.name) = tables.map (·.columns.map ColumnDecl.name) →
      resolve options tables' = resolve options tables) := by
  have hsettled := settled_recased hnames happart h
  have hvalidate : tables'.forM TableDecl.validate = tables.forM TableDecl.validate :=
    forM_congr_forall₂ (h.imp fun _ _ htable => htable.validate)
  refine ⟨fun mapped mapped' hmapped hmapped' => ?_, fun hp => ?_, fun hcolumns => ?_⟩
  · rw [types_of_resolve hmapped, types_of_resolve hmapped']
    refine (map_eq_map_of_forall₂ (hsettled.imp fun table table' htable => ?_)).symm
    refine map_eq_map_of_forall₂ (htable.columns.imp fun column column' hcolumn => ?_)
    rw [hcolumn.concrete]
  · rw [resolvedTypes_eq, resolvedTypes_eq, h.length_eq, hvalidate,
      mapM_congr_forall₂ (hsettled.imp fun _ _ htable => htable.types_resolve hp)]
  · rw [← names_settled tables, ← names_settled tables'] at hcolumns
    have hsame := (forall₂_and_of_map_eq hsettled hcolumns).imp
      fun _ _ htable => htable.1.resolve_eq htable.2 options
    rw [resolve, resolve, resolveFrom_eq, resolveFrom_eq, h.length_eq, hvalidate]
    exact congrArg (fun mapped => _ >>= fun _ => _ >>= fun _ => mapped) (mapM_congr_forall₂ hsame)

end Theorem

/-- A table and a view that reads it through a sub-query, with references spelled in some way. -/
def dailyTables (spell : String → String) : List TableDecl :=
  [{ name := "events", columns := [⟨"at", .plain "DateTime64", "DateTime64", none, none, none⟩] },
   { name := "daily", kind := .materializedView, columns := [.pending "latest"]
     query := some ⟨some (spell "Days"),
      [⟨spell "MAX(Day)", some "latest", some (spell "Day"), some (spell "MAX")⟩],
      some ⟨spell "days", some (spell "Events"),
        [⟨spell "toStartOfDay(At)", some "day", some (spell "At"),
          some (spell "toStartOfDay")⟩]⟩⟩ }]

theorem resolve_recased_dailyTables :
    Apart TableDecl.name (dailyTables id) ∧ (∀ table ∈ dailyTables id, table.NamesApart) ∧
      List.Forall₂ TableDecl.Recased (dailyTables id) (dailyTables lower) ∧
      resolve {} (dailyTables lower) = resolve {} (dailyTables id) := by
  have hnames : Apart TableDecl.name (dailyTables id) := by unfold Apart; decide +kernel
  have happart : ∀ table ∈ dailyTables id, table.NamesApart :=
    List.forall_mem_cons.2 ⟨⟨Apart.singleton _, nofun, nofun⟩, List.forall_mem_singleton.2
      ⟨Apart.singleton _, fun _ h => Option.some.inj h ▸ Apart.singleton _,
        fun _ h _ h' => by cases h; cases h'; exact Apart.singleton _⟩⟩
  have hrecased : List.Forall₂ TableDecl.Recased (dailyTables id) (dailyTables lower) :=
    .cons ⟨.cons ⟨rfl, rfl⟩ .nil, .none, rfl⟩ (.cons ⟨.cons ⟨rfl, rfl⟩ .nil,
      .some ⟨by decide +kernel,
        .cons ⟨by decide +kernel, rfl, by decide +kernel, by decide +kernel⟩ .nil,
        .some ⟨by decide +kernel, by decide +kernel,
          .cons ⟨by decide +kernel, rfl, by decide +kernel, by decide +kernel⟩ .nil⟩⟩, rfl⟩ .nil)
  exact ⟨hnames, happart, hrecased, (resolve_recased hnames happart hrecased {}).2.2 rfl⟩

end TypedTables
