import TypedTables.Proofs.Resolve.Unread

/-!
Calls of a function on one column. The reference and the call have the same source column if the
column is an identifier. If its name is a keyword the call has none, so that behind a sub-query the
type of the column is lost.
-/

namespace TypedTables

open Text

section Items

variable {ref before behind : List Token} {f o close last : Token} {source : String}

/-- What stands behind the expression of an item: nothing, or `AS` and an alias. -/
def IsAliasPart (tokens : List Token) : Prop :=
  tokens = [] ∨ ∃ mark label, tokens = [mark, label] ∧ Grammar.isAlias mark label = true

theorem exists_splitAlias (hbehind : IsAliasPart behind) {expr : List Token} (hexpr : expr ≠ [])
    (hbare : splitAlias expr = (expr, none)) :
    ∃ alias?, splitAlias (expr ++ behind) = (expr, alias?) := by
  obtain rfl | ⟨mark, label, rfl, halias⟩ := hbehind
  · exact ⟨none, by rw [List.append_nil, hbare]⟩
  · exact ⟨some label.text, by rw [Grammar.splitAlias_concat hexpr, if_pos halias]⟩

/-- Qualifiers have a dot behind them, so that only the column itself counts. -/
theorem firstPlainIdentifier?_reference (hclose : close.kind = .closeParen) :
    ∀ {before : List Token}, isColumnReference (before ++ [last]) = true →
      firstPlainIdentifier? (before ++ [last, close]) =
        if last.isIdentifier then some last.text else none
  | [], _ => by
    have hidentifier : close.isIdentifier = false := by simp [Token.isIdentifier, hclose]
    have hlast : firstPlainIdentifier? [close] = none := by
      rw [firstPlainIdentifier?, hidentifier]
      rfl
    rw [List.nil_append, firstPlainIdentifier?, hlast]
    simp [hclose]
  | [t], h => by simp [isColumnReference] at h
  | t :: dot :: before, h => by
    have h : (t.isName && dot.kind == .dot && isColumnReference (before ++ [last])) = true := h
    simp only [Bool.and_eq_true, beq_iff_eq] at h
    obtain ⟨⟨-, hdot⟩, h⟩ := h
    have hidentifier : dot.isIdentifier = false := by simp [Token.isIdentifier, hdot]
    rw [List.cons_append, List.cons_append, firstPlainIdentifier?, firstPlainIdentifier?,
      firstPlainIdentifier?_reference hclose h, hidentifier]
    simp [hdot]

/-- The item that a reference makes. -/
theorem exists_reference (href : isColumnReference (before ++ [last]) = true)
    (hbehind : IsAliasPart behind) (source : String) :
    ∃ item, SelectItem.ofTokens? source (before ++ [last] ++ behind) = some item ∧
      item.sourceColumn = some last.text ∧ item.function = none := by
  obtain ⟨alias?, hsplit⟩ :=
    exists_splitAlias hbehind (List.concat_ne_nil _ _) (splitAlias_reference href)
  obtain ⟨item, hitem, hreference, hname⟩ := SelectItem.ofTokens?_reference hsplit href source
  exact ⟨item, hitem, by rw [hreference.sourceColumn, hname], hreference.function⟩

/-- The item that a call makes. -/
theorem exists_call (href : isColumnReference (before ++ [last]) = true) (hf : f.isName = true)
    (ho : o.kind = .openParen) (hclose : close.kind = .closeParen) (hbehind : IsAliasPart behind)
    (source : String) : ∃ item,
      SelectItem.ofTokens? source (f :: o :: (before ++ [last, close]) ++ behind) = some item ∧
      item.sourceColumn = (if last.isIdentifier then some last.text else none) ∧
      item.function = some f.text := by
  have hbare : splitAlias (f :: o :: (before ++ [last, close])) =
      (f :: o :: (before ++ [last, close]), none) := by
    have halias : Grammar.isAlias last close = false := by
      simp [Grammar.isAlias, Token.isIdentifier, hclose]
    have hsplit := @Grammar.splitAlias_concat (f :: o :: before) (List.cons_ne_nil _ _) last close
    rwa [halias, if_neg Bool.false_ne_true] at hsplit
  obtain ⟨alias?, hsplit⟩ := exists_splitAlias hbehind (List.cons_ne_nil _ _) hbare
  have hnot : isColumnReference (f :: o :: (before ++ [last, close])) = false := by
    rw [isColumnReference, ho]
    simp
  rw [SelectItem.ofTokens?, hsplit, ← firstPlainIdentifier?_reference hclose href]
  dsimp only
  rw [hnot, if_neg Bool.false_ne_true, if_pos (by simp [hf, ho])]
  exact ⟨_, rfl, rfl, rfl⟩

end Items

section Types

variable {query : ViewQuery} {item : SelectItem} {function name : String}

/-- A function that gives what it is given. -/
def KeepsType (function : String) : Prop := ∀ base, returnType? function base = base

/-- Type of a column of the sub-query, where the view at `k` reads from one. -/
def subqueryType? (tables : List TableDecl) (k : Nat) (query : ViewQuery) (column : String) :
    Option TypeExpr :=
  ({ source := query.sourceName?.bind (catalogAt tables k).source? } : View query).innerType? column

theorem View.columnType?_call (view : View query) (hread : query.selected?.isSome = true)
    (hkeeps : KeepsType function) (hfunction : item.function = some function)
    (hitem : findNamed? SelectItem.outputName name query.items = some item) :
    view.columnType? name = item.sourceColumn.bind view.innerType? := by
  rw [columnType?, if_pos hread, typeThrough?, Named.find?_eq, hitem]
  simp only [Option.bind_eq_bind, Option.bind_some, hfunction]
  exact hkeeps _

theorem View.innerType?_call (view : View query) (hfunction : item.function = some function)
    (hitem : findNamed? SelectItem.outputName name query.innerItems = some item) :
    view.innerType? name = (conversionType? function).or (view.sourceType? item.column) := by
  rw [innerType?, Named.find?_eq, hitem]
  change (item.function.bind conversionType?).or _ = _
  rw [hfunction, Option.bind_some]

theorem known_of_sourceType? {view : View query} {ty : TypeExpr}
    (h : view.sourceType? name = some ty) : ty.isPlaceholder = false := by
  obtain ⟨source, -, h⟩ := Option.bind_eq_some_iff.1 h
  rw [Source.columnType?_eq] at h
  simpa using (Option.filter_eq_some_iff.1 h).2

theorem known_of_conversionType? {ty : TypeExpr} (h : conversionType? function = some ty) :
    ty.isPlaceholder = false := by
  have hall : ∀ conversion ∈ conversions,
      (TypeExpr.plain conversion.2).isPlaceholder = false := by decide
  obtain ⟨conversion, hfound, rfl⟩ := Option.map_eq_some_iff.1 h
  exact hall conversion (List.mem_of_find?_eq_some hfound)

theorem known_of_innerType? {view : View query} {ty : TypeExpr}
    (h : view.innerType? name = some ty) : ty.isPlaceholder = false := by
  unfold View.innerType? at h
  split at h
  · exact known_of_sourceType? h
  · obtain h | ⟨-, h⟩ := Option.or_eq_some_iff.1 h
    · obtain ⟨function, -, h⟩ := Option.bind_eq_some_iff.1 h
      exact known_of_conversionType? h
    · exact known_of_sourceType? h

/-- A column that such a function gives has the type of its argument, if that is known. -/
theorem type_of_call {tables : List TableDecl} {options : ResolveOptions}
    {mapped : List MappedTable} {k j : Nat} {view : TableDecl}
    (hresolve : resolve options tables = .ok mapped) (hview : tables[k]? = some view)
    (hquery : view.query = some query) (hderived : view.Derived)
    (hread : query.selected?.isSome = true) (hitem : query.items[j]? = some item)
    (hfirst : ∀ other ∈ query.items.take j, other.outputName ≠ item.outputName)
    (hfunction : item.function = some function) (hkeeps : KeepsType function) :
    ∃ m, mapped[k]? = some m ∧ (m.columns.map (·.type))[j]? =
      some ((item.sourceColumn.bind (subqueryType? tables k query)).getD .text) := by
  obtain ⟨m, hm, htypes⟩ := exists_types_of_derived hresolve hview hquery hderived
  refine ⟨m, hm, ?_⟩
  have hfound := findNamed?_of_first hitem hfirst
  have hknown : (ColumnDecl.typed item.outputName ((item.sourceColumn.bind
      (subqueryType? tables k query)).getD .text)).type.isPlaceholder = false := by
    rw [ColumnDecl.typed]
    cases h : item.sourceColumn.bind (subqueryType? tables k query) with
    | none => rfl
    | some ty =>
      obtain ⟨column, -, h⟩ := Option.bind_eq_some_iff.1 h
      exact known_of_innerType? h
  rw [htypes, List.getElem?_map, hitem, Option.map_some,
    View.columnType?_call _ hread hkeeps hfunction hfound]
  exact congrArg (fun column => some column.type) (ColumnDecl.concrete_of_known hknown)

end Types

section Calls

variable {before behind behind' : List Token} {f o close last : Token}

/-- A reference to a column and a call on it have the same source column exactly if the column is an
identifier; otherwise the call has none. So behind a sub-query a function that keeps types gives the
type of the column, but a text if the column is no identifier; and in the sub-query the column that
the call makes is looked up under the text of the call then. -/
theorem sourceColumn_call (href : isColumnReference (before ++ [last]) = true)
    (hf : f.isName = true) (ho : o.kind = .openParen) (hclose : close.kind = .closeParen)
    (hbehind : IsAliasPart behind) (hbehind' : IsAliasPart behind') (source : String) :
    ∃ item call,
      SelectItem.ofTokens? source (before ++ [last] ++ behind) = some item ∧
      SelectItem.ofTokens? source (f :: o :: (before ++ [last, close]) ++ behind') = some call ∧
      item.sourceColumn = some last.text ∧ call.function = some f.text ∧
      call.sourceColumn = (if last.isIdentifier then item.sourceColumn else none) ∧
      (∀ query (view : View query) name,
        findNamed? SelectItem.outputName name query.innerItems = some call →
        view.innerType? name = (conversionType? f.text).or
          (view.sourceType? (if last.isIdentifier then last.text else call.name))) ∧
      ∀ script report, readScript script = .ok report → ∀ options mapped,
        resolve options report.tables.toList = .ok mapped → ∀ k view query,
        report.tables.toList[k]? = some view → view.query = some query →
        query.selected?.isSome = true → ∀ j, query.items[j]? = some call →
        (∀ other ∈ query.items.take j, other.outputName ≠ call.outputName) → KeepsType f.text →
        ∃ m, mapped[k]? = some m ∧ (m.columns.map (·.type))[j]? =
          some ((if last.isIdentifier then subqueryType? report.tables.toList k query last.text
            else none).getD .text) := by
  obtain ⟨item, hitem, hcolumn, -⟩ := exists_reference href hbehind source
  obtain ⟨call, hcall, hsource, hfunction⟩ := exists_call href hf ho hclose hbehind' source
  refine ⟨item, call, hitem, hcall, hcolumn, hfunction, by rw [hsource, hcolumn],
    fun query view name hfound => ?_, fun script report hread options mapped hresolve k view query
      hview hquery hselected j hj hfirst hkeeps => ?_⟩
  · have hname : call.column = if last.isIdentifier then last.text else call.name := by
      rw [SelectItem.column, hsource]
      split <;> rfl
    rw [View.innerType?_call view hfunction hfound, hname]
  · have hderived : view.Derived :=
      (readTables_readScript hread).derived view (List.mem_of_getElem? hview)
    obtain ⟨m, hm, htype⟩ :=
      type_of_call hresolve hview hquery hderived hselected hj hfirst hfunction hkeeps
    refine ⟨m, hm, ?_⟩
    rw [htype, hsource]
    split <;> rfl

end Calls

theorem keepsType_of_noRule {function : String}
    (h : ("tostartofday" :: wideningAggregates).any (startsWith · (lower function)) = false) :
    KeepsType function := by
  rw [List.any_cons, Bool.or_eq_false_iff] at h
  intro base
  rw [returnType?, h.1, h.2]
  rfl

def callScript : String :=
  "CREATE TABLE t (k Date); CREATE MATERIALIZED VIEW v AS " ++
    "WITH s AS (SELECT k FROM t) SELECT max(k) AS m FROM s"

theorem sourceColumn_call_identifier : ∃ report mapped view query m,
    readScript callScript = .ok report ∧ resolve {} report.tables.toList = .ok mapped ∧
    report.tables.toList[1]? = some view ∧ view.query = some query ∧ mapped[1]? = some m ∧
    (m.columns.map (·.type))[0]? =
      some ((subqueryType? report.tables.toList 1 query "k").getD .text) := by
  let f : Token := ⟨.identifier, "max", ⟨0, 3, 1, 1⟩⟩
  let o : Token := ⟨.openParen, "(", ⟨3, 1, 1, 4⟩⟩
  let k : Token := ⟨.identifier, "k", ⟨4, 1, 1, 5⟩⟩
  let close : Token := ⟨.closeParen, ")", ⟨5, 1, 1, 6⟩⟩
  let mark : Token := ⟨.keyword .as, "AS", ⟨7, 2, 1, 8⟩⟩
  let label : Token := ⟨.identifier, "m", ⟨10, 1, 1, 11⟩⟩
  have hscript : (readScript callScript).toOption.any (fun report =>
      (resolve {} report.tables.toList).toOption.any fun _ =>
      report.tables.toList[1]?.any fun view => view.query.any fun query =>
        query.selected?.isSome && query.items[0]? ==
          SelectItem.ofTokens? "max(k) AS m" [f, o, k, close, mark, label]) = true := by
    decide +kernel
  obtain ⟨report, hread, h⟩ := exists_of_any hscript
  obtain ⟨mapped, hresolve, h⟩ := exists_of_any h
  obtain ⟨view, hview, h⟩ := (Option.any_eq_true _ _).1 h
  obtain ⟨query, hquery, h⟩ := (Option.any_eq_true _ _).1 h
  obtain ⟨hselected, hfirst⟩ := Bool.and_eq_true_iff.1 h
  have href : isColumnReference ([] ++ [k]) = true := by decide
  have hf : f.isName = true := by decide
  have ho : o.kind = .openParen := rfl
  have hclose : close.kind = .closeParen := rfl
  have halias : IsAliasPart [mark, label] := .inr ⟨mark, label, rfl, by decide⟩
  obtain ⟨item, call, -, hcall, -, -, -, -, htype⟩ :=
    sourceColumn_call href hf ho hclose (.inl rfl) halias "max(k) AS m"
  have hitem : query.items[0]? = some call := (beq_iff_eq.1 hfirst).trans hcall
  obtain ⟨m, hm, htype⟩ := htype callScript report hread {} mapped hresolve 1 view query hview hquery
    hselected 0 hitem nofun (keepsType_of_noRule (by decide +kernel))
  exact ⟨report, mapped, view, query, m, hread, hresolve, hview, hquery, hm, htype⟩

/-- The name of a column may be a keyword, and the call on it then has no source column. -/
theorem sourceColumn_call_keyword :
    (SelectItem.ofTokens? "key" (tokenize "key")).map (·.sourceColumn) = some (some "key") ∧
    (SelectItem.ofTokens? "max(key)" (tokenize "max(key)")).map (·.sourceColumn) = some none ∧
    scriptTypes "CREATE TABLE t (key UInt8); CREATE MATERIALIZED VIEW v AS
        WITH s AS (SELECT key FROM t) SELECT max(key) AS m FROM s" =
      some [⟨none, "t", ["UInt8"], ["UInt8"]⟩, ⟨none, "v", ["Unknown"], ["String"]⟩] := by
  refine ⟨?_, ?_, ?_⟩ <;> decide +kernel

end TypedTables
