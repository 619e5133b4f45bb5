import TypedTables.Proofs.Grammar.Reads
import TypedTables.Proofs.Resolve.Settled

/-!
Views that read a table directly. Each column is made from the item that its name finds, and a plain
reference has the type of the column that it names in the table that is read, if there is one.
-/

namespace TypedTables

open Text

/-- The type of a column, if it is there and its type is known. -/
def TableDecl.knownType? (table : TableDecl) (column : String) : Option TypeExpr :=
  ((table.findColumn? column).map ColumnDecl.type).filter (!·.isPlaceholder)

namespace TableDecl

variable {table : TableDecl} {name : String} {column : ColumnDecl}

theorem knownType?_of_find (h : table.findColumn? name = some column)
    (hknown : column.type.isPlaceholder = false) : table.knownType? name = some column.type := by
  simp [knownType?, h, Option.filter, hknown]

theorem getD_knownType? (h : table.findColumn? name = some column) :
    (table.knownType? name).getD .text = column.concrete.type := by
  rw [knownType?, h, ColumnDecl.concrete, Option.map_some, Option.filter_some]
  cases column.type.isPlaceholder <;> rfl

theorem isPlaceholder_getD_knownType? (table : TableDecl) (name : String) :
    ((table.knownType? name).getD .text).isPlaceholder = false := by
  cases h : table.knownType? name with
  | none => rfl
  | some type => simpa using (Option.filter_eq_some_iff.1 h).2

end TableDecl

theorem Source.columnType?_eq (source : Source) (column : String) :
    source.columnType? column = source.table.knownType? column := by
  rw [columnType?, TableDecl.knownType?, TableDecl.findColumn?, Named.find?_eq]
  cases findNamed? ColumnDecl.name column source.table.columns with
  | none => rfl
  | some found => cases h : found.type.isPlaceholder <;> simp [Option.filter, h]

theorem ColumnDecl.concrete_of_known {column : ColumnDecl} (h : column.type.isPlaceholder = false) :
    column.concrete = column := by
  rw [concrete, h]
  rfl

/-- A reference to a column, and nothing else. -/
structure SelectItem.IsReference (item : SelectItem) : Prop where
  sourceColumn : item.sourceColumn = some item.name
  function : item.function = none

theorem SelectItem.IsReference.column {item : SelectItem} (h : item.IsReference) :
    item.column = item.name := by
  rw [SelectItem.column, h.sourceColumn, Option.getD_some]

section Tokens

variable {expr : List Token} {last mark : Token}

theorem kind_of_isColumnReference : ∀ {before : List Token},
    isColumnReference (before ++ [mark, last]) = true → mark.kind = .dot
  | [], h => by simp [isColumnReference] at h
  | [t], h => by
    have h : (t.isName && mark.kind == .dot && isColumnReference [last]) = true := h
    simp only [Bool.and_eq_true, beq_iff_eq] at h
    exact h.1.2
  | _ :: _ :: _, h => kind_of_isColumnReference (Bool.and_elim_right h)

theorem splitAlias_reference (h : isColumnReference expr = true) : splitAlias expr = (expr, none) := by
  unfold splitAlias
  split
  · next label mark first rest heq =>
    have hexpr : expr = (first :: rest).reverse ++ [mark, label] := by
      rw [← List.reverse_reverse expr, heq]
      simp
    rw [hexpr] at h
    have hmark : mark.isKeyword .as = false := by
      simp [Token.isKeyword, kind_of_isColumnReference h]
    rw [hmark]
    rfl
  · rfl

/-- A reference to a column makes an item that is one, whatever the alias behind it. -/
theorem SelectItem.ofTokens?_reference {before tokens : List Token} {alias? : Option String}
    (halias : splitAlias tokens = (before ++ [last], alias?))
    (h : isColumnReference (before ++ [last]) = true) (source : String) :
    ∃ item, ofTokens? source tokens = some item ∧ item.IsReference ∧ item.name = last.text := by
  rw [ofTokens?, halias]
  cases before with
  | nil =>
    have hname : last.isName = true := h
    have hstar : (last.kind == .star) = false := by
      cases hk : last.kind <;> simp_all [Token.isName]
    simp only [List.nil_append, hstar, hname]
    exact ⟨_, rfl, ⟨rfl, rfl⟩, rfl⟩
  | cons t before =>
    obtain ⟨dot, more, hmore⟩ := List.exists_cons_of_ne_nil (List.concat_ne_nil last before)
    have hlast : (t :: dot :: more).getLast? = some last := by
      rw [← hmore, ← List.cons_append, List.getLast?_concat]
    rw [List.cons_append, hmore] at h ⊢
    dsimp only
    rw [if_pos h, hlast]
    exact ⟨_, rfl, ⟨rfl, rfl⟩, rfl⟩

end Tokens

/-- A column whose type has been inferred. -/
def ColumnDecl.typed (name : String) (type : TypeExpr) : ColumnDecl :=
  ⟨name, type, type.display, none, none, none⟩

section View

variable {query : ViewQuery} {table : TableDecl} {name : String}

theorem ColumnDecl.infer_pending (view : View query) (name : String) :
    (pending name).infer view = typed name ((view.columnType? name).getD .text) := rfl

/-- What a view that lists no columns has for the output names of its items. -/
theorem Catalog.columns_inferTable (catalog : Catalog) (hquery : table.query = some query)
    (hderived : table.Derived) :
    (catalog.inferTable table).columns = query.items.map fun item =>
      .typed item.outputName
        ((({ source := query.sourceName?.bind catalog.source? } : View query).columnType?
          item.outputName).getD .text) := by
  rw [inferTable, hquery]
  dsimp only
  rw [hderived query hquery, List.map_map]
  exact List.map_congr_left fun item _ => ColumnDecl.infer_pending _ item.outputName

/-- A name finds an item, and that item's column is looked up in the table that is read. -/
theorem View.columnType?_direct (hdirect : query.selected? = none) {item : SelectItem}
    (hitem : findNamed? SelectItem.outputName name query.items = some item) (source : Source) :
    ({ source := some source } : View query).columnType? name =
      source.table.knownType? item.column := by
  rw [columnType?, hdirect, directType?, Named.find?_eq, hitem]
  exact source.columnType?_eq item.column

end View

section Items

variable {items : List SelectItem} {item : SelectItem} {j : Nat}

/-- Of the items with one output name the first is found. -/
theorem findNamed?_of_first (hitem : items[j]? = some item)
    (hfirst : ∀ other ∈ items.take j, other.outputName ≠ item.outputName) :
    findNamed? SelectItem.outputName item.outputName items = some item := by
  have hexact : items.find? (·.outputName == item.outputName) = some item := by
    obtain ⟨hj, rfl⟩ := List.getElem?_eq_some_iff.1 hitem
    refine List.find?_eq_some_iff_getElem.2 ⟨beq_self_eq_true _, j, hj, rfl, fun i hi => ?_⟩
    have hmem : items[i] ∈ items.take j := List.mem_take_iff_getElem.2 ⟨i, by omega, rfl⟩
    simpa using hfirst _ hmem
  rw [findNamed?, hexact, Option.some_or]

end Items

section Settled

variable {tables : List TableDecl} {k j : Nat} {view done source : TableDecl} {query : ViewQuery}
  {item : SelectItem}

/-- A reference of a view that reads a table directly, once the view is settled. -/
theorem getElem?_settled_reference (hview : tables[k]? = some view)
    (hdone : (settled tables)[k]? = some done) (hquery : view.query = some query)
    (hderived : view.Derived) (hdirect : query.selected? = none)
    (hsource : query.source.bind (catalogAt tables k).source? = some { table := source })
    (hitem : query.items[j]? = some item) (href : item.IsReference)
    (hfound : findNamed? SelectItem.outputName item.outputName query.items = some item) :
    done.columns[j]? =
      some (.typed item.outputName ((source.knownType? item.name).getD .text)) := by
  have hread : query.sourceName? = query.source := by rw [ViewQuery.sourceName?, hdirect]
  rw [getElem?_settled, hview] at hdone
  cases hdone
  rw [Catalog.columns_inferTable _ hquery hderived, List.getElem?_map, hitem, hread, hsource,
    Option.map_some, View.columnType?_direct hdirect hfound, href.column]

end Settled

end TypedTables
