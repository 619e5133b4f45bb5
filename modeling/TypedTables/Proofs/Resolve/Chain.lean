import TypedTables.Proofs.Resolve.Direct

/-!
Chains of views, each of which selects columns of the one before it. A column whose references lead
back to a column of the first table has the type of that column, and one whose references break on
the way is a text from there on.
-/

namespace TypedTables

open Text

theorem sameIgnoringCase_iff {a b : String} : sameIgnoringCase a b = true ↔ lower a = lower b :=
  beq_iff_eq

section Apart

variable {α : Type} {nameOf : α → String} {xs : List α} {x : α} {name : String}

theorem Apart.eq_of_mem (h : Apart nameOf xs) {y : α} (hx : x ∈ xs) (hy : y ∈ xs)
    (hname : lower (nameOf x) = lower (nameOf y)) : x = y := by
  obtain ⟨i, hi⟩ := List.mem_iff_getElem?.1 hx
  obtain ⟨j, hj⟩ := List.mem_iff_getElem?.1 hy
  rw [h.eq_of_getElem? hi hj hname] at hi
  exact Option.some.inj (hi.symm.trans hj)

/-- Names that are apart find their elements in any letter case. -/
theorem Apart.findNamed? (h : Apart nameOf xs) (hx : x ∈ xs)
    (hname : sameIgnoringCase (nameOf x) name = true) :
    findNamed? nameOf name xs = some x := by
  rw [sameIgnoringCase_iff] at hname
  have hfolded : xs.find? (fun y => sameIgnoringCase (nameOf y) name) = some x := by
    refine find?_eq_some_of_unique hx (sameIgnoringCase_iff.2 hname) fun y hy hfound => ?_
    exact h.eq_of_mem hy hx ((sameIgnoringCase_iff.1 hfound).trans hname.symm)
  rw [TypedTables.findNamed?, hfolded]
  cases hexact : xs.find? fun y => nameOf y == name with
  | none => rfl
  | some y =>
    have hy : nameOf y = name := by simpa using List.find?_some hexact
    rw [Option.some_or, h.eq_of_mem (List.mem_of_find?_eq_some hexact) hx (by rw [hy, hname])]

theorem findNamed?_eq_none (h : ∀ n ∈ xs.map nameOf, sameIgnoringCase n name = false) :
    findNamed? nameOf name xs = none := by
  have h := List.forall_mem_map.1 h
  have hexact : xs.find? (fun y => nameOf y == name) = none := by
    refine List.find?_eq_none.2 fun x hx heq => ?_
    have hname : nameOf x = name := by simpa using heq
    simpa [sameIgnoringCase, hname] using h x hx
  rw [findNamed?, hexact, Option.none_or, List.find?_eq_none]
  exact fun x hx => by simp [h x hx]

end Apart

/-- A view that selects columns of a table, and nothing else. -/
structure TableDecl.Selects (view table : TableDecl) (query : ViewQuery) : Prop where
  declared : view.query = some query
  columns : view.columns = query.items.map fun item => .pending item.outputName
  subquery : query.subquery = none
  source : ∃ name, query.source = some name ∧ sameIgnoringCase table.name name = true
  references : ∀ item ∈ query.items, item.IsReference

/-- A table that lists its columns, and views that each select columns of what stands before. -/
structure ViewChain (base : TableDecl) (views : List TableDecl) : Prop where
  names : Apart TableDecl.name (base :: views)
  listed : base.query = none
  known : ∀ column ∈ base.columns, column.type.isPlaceholder = false
  columns : ∀ table ∈ base :: views, Apart ColumnDecl.name table.columns
  selects : (base :: views).IsChain fun table view => ∃ query, view.Selects table query

/-- The references that start at a column of the table at a place lead back to a column of the first
table. -/
inductive LeadsTo (tables : List TableDecl) (column : ColumnDecl) : Nat → String → Prop
  | listed {table name} : tables[0]? = some table → column ∈ table.columns →
      sameIgnoringCase column.name name = true → LeadsTo tables column 0 name
  | selected {i view query item name} : tables[i + 1]? = some view → view.query = some query →
      item ∈ query.items → sameIgnoringCase item.outputName name = true →
      LeadsTo tables column i item.name → LeadsTo tables column (i + 1) name

theorem LeadsTo.mem {tables : List TableDecl} {column : ColumnDecl} {i : Nat} {name : String}
    (h : LeadsTo tables column i name) {first : TableDecl} (hfirst : tables[0]? = some first) :
    column ∈ first.columns := by
  induction h with
  | listed htable hmem _ => rwa [Option.some.inj (hfirst.symm.trans htable)]
  | selected _ _ _ _ _ ih => exact ih

/-- The references that start at a column of the table at a place come to a table that has no such
column. -/
inductive Breaks (tables : List TableDecl) : Nat → String → Prop
  | missing {i table name} : tables[i]? = some table →
      (∀ column ∈ table.columns, sameIgnoringCase column.name name = false) → Breaks tables i name
  | selected {i view query item name} : tables[i + 1]? = some view → view.query = some query →
      item ∈ query.items → sameIgnoringCase item.outputName name = true →
      Breaks tables i item.name → Breaks tables (i + 1) name

namespace ViewChain

variable {base view table done next : TableDecl} {views : List TableDecl} {query : ViewQuery}
  {item : SelectItem} {name : String} {i : Nat}

theorem exists_settled (tables : List TableDecl) (h : tables[i]? = some table) :
    ∃ done, (settled tables)[i]? = some done := ⟨_, by rw [getElem?_settled, h, Option.map_some]⟩

/-- Each view selects from the table before it, which is settled before the view is. -/
theorem exists_link (h : ViewChain base views) (hview : (base :: views)[i + 1]? = some view) :
    ∃ table before query, (base :: views)[i]? = some table ∧
      (settled (base :: views))[i]? = some before ∧ view.Selects table query := by
  obtain ⟨hi, rfl⟩ := List.getElem?_eq_some_iff.1 hview
  have htable := List.getElem?_eq_getElem (Nat.lt_of_succ_lt hi)
  obtain ⟨before, hbefore⟩ := exists_settled _ htable
  obtain ⟨query, hselects⟩ := List.isChain_iff_getElem.1 h.selects i hi
  exact ⟨_, before, query, htable, hbefore, hselects⟩

theorem apart_items (h : ViewChain base views) (hview : view ∈ base :: views)
    (hselects : view.Selects table query) : Apart SelectItem.outputName query.items := by
  have hcolumns := h.columns view hview
  rw [hselects.columns] at hcolumns
  exact List.pairwise_map.1 hcolumns

/-- What a view of the chain has for each of its items. -/
theorem columns_settled (h : ViewChain base views) (htable : (base :: views)[i]? = some table)
    (hdone : (settled (base :: views))[i]? = some done) (hview : (base :: views)[i + 1]? = some view)
    (hselects : view.Selects table query)
    (hnext : (settled (base :: views))[i + 1]? = some next) :
    next.columns = query.items.map fun item =>
      .typed item.outputName ((done.knownType? item.name).getD .text) := by
  obtain ⟨source, hsource, hname⟩ := hselects.source
  have hdirect : query.selected? = none := by rw [ViewQuery.selected?, hselects.subquery]; rfl
  have hread : (catalogAt (base :: views) (i + 1)).source? source = some { table := done } := by
    rw [source?_settled h.names htable hdone (sameIgnoringCase_iff.1 hname), if_pos i.lt_succ_self]
  have hderived : view.Derived := by
    intro other hother
    rw [← Option.some.inj (hselects.declared.symm.trans hother)]
    exact hselects.columns
  have hapart := h.apart_items (List.mem_of_getElem? hview) hselects
  rw [getElem?_settled, hview] at hnext
  cases hnext
  rw [Catalog.columns_inferTable _ hselects.declared hderived]
  refine List.map_congr_left fun item hitem => ?_
  rw [ViewQuery.sourceName?, hdirect, hsource, Option.bind_some, hread, View.columnType?_direct hdirect
    (hapart.findNamed? hitem (by simp [sameIgnoringCase])), (hselects.references item hitem).column]

/-- A column of a view has the type of what its item refers to, or is a text. -/
theorem knownType?_settled (h : ViewChain base views) (htable : (base :: views)[i]? = some table)
    (hdone : (settled (base :: views))[i]? = some done) (hview : (base :: views)[i + 1]? = some view)
    (hselects : view.Selects table query)
    (hnext : (settled (base :: views))[i + 1]? = some next) (hitem : item ∈ query.items)
    (hname : sameIgnoringCase item.outputName name = true) :
    next.knownType? name = some ((done.knownType? item.name).getD .text) := by
  have hcolumns := h.columns_settled htable hdone hview hselects hnext
  have hapart : Apart ColumnDecl.name next.columns := by
    rw [hcolumns]
    exact List.pairwise_map.2 (h.apart_items (List.mem_of_getElem? hview) hselects)
  have hmem : .typed item.outputName ((done.knownType? item.name).getD .text) ∈ next.columns := by
    rw [hcolumns]
    exact List.mem_map_of_mem hitem
  exact TableDecl.knownType?_of_find (hapart.findNamed? hmem hname)
    (TableDecl.isPlaceholder_getD_knownType? done item.name)

/-- A column of a view is spelled as its type is, and is found under its name. -/
theorem of_mem_settled (h : ViewChain base views) (hview : (base :: views)[i + 1]? = some view)
    (hdone : (settled (base :: views))[i + 1]? = some done) {column : ColumnDecl}
    (hmem : column ∈ done.columns) :
    column.rawType = column.type.display ∧ done.knownType? column.name = some column.type := by
  obtain ⟨table, before, query, htable, hbefore, hselects⟩ := h.exists_link hview
  have hmem' := hmem
  rw [h.columns_settled htable hbefore hview hselects hdone] at hmem'
  obtain ⟨item, hitem, rfl⟩ := List.mem_map.1 hmem'
  refine ⟨rfl, ?_⟩
  have hname : sameIgnoringCase item.outputName item.outputName = true := by simp [sameIgnoringCase]
  exact h.knownType?_settled htable hbefore hview hselects hdone hitem hname

theorem settled_base (h : ViewChain base views)
    (hdone : (settled (base :: views))[0]? = some done) : done = base := by
  rw [getElem?_settled] at hdone
  cases hdone
  exact Catalog.inferTable_of_query h.listed

theorem knownType?_of_leadsTo (h : ViewChain base views) {column : ColumnDecl}
    (hleads : LeadsTo (base :: views) column i name)
    (hdone : (settled (base :: views))[i]? = some done) :
    done.knownType? name = some column.type := by
  induction hleads generalizing done with
  | listed htable hmem hname =>
    cases htable
    obtain rfl := h.settled_base hdone
    have hapart := h.columns done List.mem_cons_self
    exact TableDecl.knownType?_of_find (hapart.findNamed? hmem hname) (h.known column hmem)
  | @selected i view query item name hview hquery hitem hname _ ih =>
    obtain ⟨table, before, query', htable, hbefore, hselects⟩ := h.exists_link hview
    cases hselects.declared.symm.trans hquery
    rw [h.knownType?_settled htable hbefore hview hselects hdone hitem hname, ih hbefore]
    rfl

theorem knownType?_of_breaks (h : ViewChain base views)
    (hbreaks : Breaks (base :: views) i name)
    (hdone : (settled (base :: views))[i]? = some done) :
    (done.knownType? name).getD .text = .text := by
  induction hbreaks generalizing done with
  | missing htable hmissing =>
    rw [getElem?_settled, htable] at hdone
    cases hdone
    rw [TableDecl.knownType?, TableDecl.findColumn?, findNamed?_eq_none]
    · rfl
    · rw [Catalog.names_inferTable]
      exact List.forall_mem_map.2 hmissing
  | @selected i view query item name hview hquery hitem hname _ ih =>
    obtain ⟨table, before, query', htable, hbefore, hselects⟩ := h.exists_link hview
    cases hselects.declared.symm.trans hquery
    rw [h.knownType?_settled htable hbefore hview hselects hdone hitem hname, ih hbefore]
    rfl

/-- Every name leads back to a column of the first table or breaks on the way. -/
theorem leadsTo_or_breaks (h : ViewChain base views) (htable : (base :: views)[i]? = some table)
    (name : String) : (∃ column ∈ base.columns, LeadsTo (base :: views) column i name) ∨
      Breaks (base :: views) i name := by
  induction i generalizing table name with
  | zero =>
    cases htable
    by_cases hfound : ∃ column ∈ base.columns, sameIgnoringCase column.name name = true
    · obtain ⟨column, hmem, hname⟩ := hfound
      exact .inl ⟨column, hmem, .listed rfl hmem hname⟩
    · exact .inr (.missing rfl (by simpa using hfound))
  | succ i ih =>
    obtain ⟨before, -, query, hbefore, -, hselects⟩ := h.exists_link htable
    by_cases hfound : ∃ item ∈ query.items, sameIgnoringCase item.outputName name = true
    · obtain ⟨item, hitem, hname⟩ := hfound
      obtain ⟨column, hmem, hleads⟩ | hbreaks := ih hbefore item.name
      · exact .inl ⟨column, hmem, .selected htable hselects.declared hitem hname hleads⟩
      · exact .inr (.selected htable hselects.declared hitem hname hbreaks)
    · have hnone : ∀ item ∈ query.items, sameIgnoringCase item.outputName name = false := by
        simpa using hfound
      refine .inr (.missing htable ?_)
      rw [hselects.columns]
      exact List.forall_mem_map.2 hnone

/-- All types of the chain come from the first table, but for the texts. -/
theorem types_settled (h : ViewChain base views) (hdone : (settled (base :: views))[i]? = some done) :
    ∀ column ∈ done.columns, column.type = .text ∨ ∃ c ∈ base.columns, column.type = c.type := by
  induction i generalizing done with
  | zero =>
    rw [h.settled_base hdone]
    exact fun column hmem => .inr ⟨column, hmem, rfl⟩
  | succ i ih =>
    obtain ⟨view, hview, -⟩ := of_getElem?_settled hdone
    obtain ⟨table, before, query, htable, hbefore, hselects⟩ := h.exists_link hview
    rw [h.columns_settled htable hbefore hview hselects hdone]
    refine List.forall_mem_map.2 fun item _ => ?_
    cases hknown : before.knownType? item.name with
    | none => exact .inl rfl
    | some type =>
      obtain ⟨column, hfound, rfl⟩ := Option.map_eq_some_iff.1 (Option.filter_eq_some_iff.1 hknown).1
      exact ih hbefore column (mem_of_findNamed? hfound)

end ViewChain

section Resolve

theorem MappedTable.From.sourceNames {options : ResolveOptions} {table : TableDecl}
    {mapped : MappedTable} (h : mapped.From options table) :
    mapped.columns.map ResolvedColumn.sourceName = table.columns.map ColumnDecl.name := by
  rw [← List.forall₂_eq_eq_eq, List.forall₂_map_left_iff, List.forall₂_map_right_iff]
  exact (h.columns.imp fun _ _ hc => hc.sourceName).flip

variable {options : ResolveOptions} {table : TableDecl} {column : ColumnDecl}

/-- Without plugins only the type of a column matters for whether it is resolved. -/
theorem ColumnDecl.exists_resolve_iff (hp : options.plugins = []) (name : String) :
    (∃ resolved, column.resolve options name = .ok resolved) ↔
      ∃ mapped, (TsType.plainFold options.toMappingOptions).run column.concrete.type = .ok mapped := by
  constructor
  · rintro ⟨resolved, h⟩
    have hmapped := (from_of_resolve h).mapped
    rw [mapType_eq hp] at hmapped
    obtain ⟨mapped, hmapped, -⟩ := map_eq_ok.1 hmapped
    rw [(from_of_resolve h).type] at hmapped
    exact ⟨mapped, hmapped⟩
  · rintro ⟨mapped, h⟩
    have hmapped : mapType options name column.concrete.name column.concrete.type = .ok mapped.text := by
      rw [mapType_eq hp, h]
      rfl
    exact ⟨_, by rw [resolve, hmapped]; rfl⟩

theorem TableDecl.exists_resolve_iff (hp : options.plugins = []) :
    (∃ mapped, table.resolve options = .ok mapped) ↔ ∀ column ∈ table.columns,
      ∃ mapped, (TsType.plainFold options.toMappingOptions).run column.concrete.type = .ok mapped := by
  simp only [← ColumnDecl.exists_resolve_iff hp table.name, ← exists_mapM_iff]
  constructor
  · rintro ⟨mapped, h⟩
    obtain ⟨columns, hcolumns, -⟩ := bind_eq_ok.1 h
    exact ⟨columns, hcolumns⟩
  · rintro ⟨columns, h⟩
    exact ⟨_, by rw [resolve, h]; rfl⟩

end Resolve

namespace ViewChain

variable {options : ResolveOptions} {base : TableDecl} {views : List TableDecl}

theorem exists_resolve_iff (h : ViewChain base views) (hp : options.plugins = []) :
    (∃ mapped, resolve options (base :: views) = .ok mapped) ↔
      views.length < Ceiling.tableCount.limit ∧
        (∀ table ∈ base :: views, table.validate = .ok ()) ∧
        ∃ m, base.resolve options = .ok m := by
  rw [TypedTables.exists_resolve_iff]
  refine and_congr Iff.rfl (and_congr_right fun _ => ⟨fun hall => ?_, fun hbase => ?_⟩)
  · obtain ⟨done, hdone⟩ := exists_settled (base :: views) (i := 0) rfl
    rw [← h.settled_base hdone]
    exact hall done (List.mem_of_getElem? hdone)
  · intro done hmem
    obtain ⟨i, hdone⟩ := List.mem_iff_getElem?.1 hmem
    rw [TableDecl.exists_resolve_iff hp] at hbase ⊢
    intro column hcolumn
    obtain htext | ⟨c, hc, htype⟩ := h.types_settled hdone column hcolumn
    · rw [ColumnDecl.concrete_of_known (by rw [htext]; rfl), htext]
      exact ⟨_, rfl⟩
    · have hknown := h.known c hc
      rw [ColumnDecl.concrete_of_known (by rw [htype, hknown]), htype]
      simpa only [ColumnDecl.concrete_of_known hknown] using hbase c hc

end ViewChain

/-- A chain of views is resolved if its first table is. Every column of a view is spelled as its type
is; it has the type of the column that its references lead back to, and is a text if they break. -/
theorem resolve_viewChain {base : TableDecl} {views : List TableDecl} (h : ViewChain base views)
    (options : ResolveOptions) :
    (options.plugins = [] → ((∃ mapped, resolve options (base :: views) = .ok mapped) ↔
      views.length < Ceiling.tableCount.limit ∧
        (∀ table ∈ base :: views, table.validate = .ok ()) ∧
        ∃ m, base.resolve options = .ok m)) ∧
    ∀ mapped, resolve options (base :: views) = .ok mapped → ∃ origin, mapped[0]? = some origin ∧
      ∀ i view, views[i]? = some view → ∃ m, mapped[i + 1]? = some m ∧
        m.columns.map ResolvedColumn.sourceName = view.columns.map ColumnDecl.name ∧
        ∀ column ∈ m.columns, column.rawType = column.type.display ∧
          (∀ b, LeadsTo (base :: views) b (i + 1) column.sourceName →
            ∃ o ∈ origin.columns, o.sourceName = b.name ∧ column.type = o.type) ∧
          (Breaks (base :: views) (i + 1) column.sourceName → column.type = .text) ∧
          ((∃ b ∈ base.columns, LeadsTo (base :: views) b (i + 1) column.sourceName) ∨
            Breaks (base :: views) (i + 1) column.sourceName) := by
  refine ⟨fun hp => h.exists_resolve_iff hp, fun mapped hresolve => ?_⟩
  obtain ⟨first, hfirst⟩ := ViewChain.exists_settled (base :: views) (i := 0) rfl
  obtain ⟨origin, horigin, hfrom⟩ := from_of_resolve hresolve hfirst
  refine ⟨origin, horigin, fun i view hview => ?_⟩
  have hview : (base :: views)[i + 1]? = some view := hview
  obtain ⟨done, hdone⟩ := ViewChain.exists_settled _ hview
  obtain ⟨m, hm, hmade⟩ := from_of_resolve hresolve hdone
  refine ⟨m, hm, ?_, fun column hcolumn => ?_⟩
  · rw [hmade.sourceNames, ← Catalog.names_inferTable (catalogAt (base :: views) (i + 1)) view]
    rw [getElem?_settled, hview] at hdone
    cases hdone
    rfl
  obtain ⟨c, hc, hcolumn⟩ := exists_of_forall₂ hmade.columns.flip hcolumn
  obtain ⟨hraw, hknown⟩ := h.of_mem_settled hview hdone hc
  have hconcrete : c.concrete = c := by
    refine ColumnDecl.concrete_of_known ?_
    simpa using (Option.filter_eq_some_iff.1 hknown).2
  rw [hcolumn.rawType, hcolumn.type, hcolumn.sourceName, hconcrete]
  refine ⟨hraw, fun b hleads => ?_, fun hbreaks => ?_, h.leadsTo_or_breaks hview c.name⟩
  · have htype := Option.some.inj (hknown.symm.trans (h.knownType?_of_leadsTo hleads hdone))
    have hb : b ∈ base.columns := hleads.mem rfl
    rw [← h.settled_base hfirst] at hb
    obtain ⟨o, ho, horigin⟩ := exists_of_forall₂ hfrom.columns hb
    refine ⟨o, ho, horigin.sourceName, ?_⟩
    rw [horigin.type, ColumnDecl.concrete_of_known (h.known b (hleads.mem rfl)), htype]
  · have htype := h.knownType?_of_breaks hbreaks hdone
    rwa [hknown] at htype

def eventTable : TableDecl :=
  { name := "events", columns := [⟨"id", .plain "UInt64", "UInt64", none, none, none⟩] }

/-- A view that renames the column of the table and refers to one that is not there, and a view of
that view. -/
def eventViews : List TableDecl :=
  [{ name := "keys", kind := .materializedView, columns := [.pending "key", .pending "lost"]
     query := some ⟨some "events",
      [⟨"ID", some "key", some "ID", none⟩, ⟨"gone", some "lost", some "gone", none⟩], none⟩ },
   { name := "latest", kind := .materializedView, columns := [.pending "k", .pending "l"]
     query := some ⟨some "Keys",
      [⟨"Key", some "k", some "Key", none⟩, ⟨"lost", some "l", some "lost", none⟩], none⟩ }]

theorem viewChain_eventViews : ViewChain eventTable eventViews where
  names := by unfold Apart; decide +kernel
  listed := rfl
  known := by decide +kernel
  columns := by unfold Apart; decide +kernel
  selects := by
    refine .cons_cons ⟨_, rfl, rfl, rfl, ⟨_, rfl, by decide +kernel⟩, ?_⟩
      (.cons_cons ⟨_, rfl, rfl, rfl, ⟨_, rfl, by decide +kernel⟩, ?_⟩ (.singleton _)) <;>
    exact List.forall_mem_cons.2 ⟨⟨rfl, rfl⟩, List.forall_mem_singleton.2 ⟨rfl, rfl⟩⟩

theorem resolve_viewChain_eventViews :
    ViewChain eventTable eventViews ∧
    ∃ mapped, resolve {} (eventTable :: eventViews) = .ok mapped ∧ ∃ m, mapped[2]? = some m ∧
      ∀ column ∈ m.columns, column.rawType = column.type.display := by
  have h := viewChain_eventViews
  obtain ⟨hresolve, htypes⟩ := resolve_viewChain h {}
  have hvalid : ∀ table ∈ eventTable :: eventViews, table.validate = .ok () := by decide +kernel
  obtain ⟨mapped, hmapped⟩ := (hresolve rfl).2 ⟨by decide, hvalid, _, rfl⟩
  obtain ⟨origin, -, hviews⟩ := htypes mapped hmapped
  obtain ⟨m, hm, -, hcolumns⟩ := hviews 1 _ rfl
  exact ⟨h, mapped, hmapped, m, hm, fun column hcolumn => (hcolumns column hcolumn).1⟩

end TypedTables
