import TypedTables.Proofs.Grammar.Abreast

/-!
Layout does not change meaning. Where the tokens of two texts say the same, both declare the same or
both fail for the same reason, and as many tokens are taken of the one as of the other. The layout
shows in source texts only: of types, default expressions, clauses, and the items of a select list
that are not plain references.
-/

namespace TypedTables

section Declarations

variable (l l' : Listing)

/-- What two texts show of the same expression, which is not a plain reference. -/
def SameExpression (x y : String) : Prop :=
  ∃ i n, isColumnReference (l.part i n) = false ∧ x = l.text i n ∧ y = l'.text i n

structure SameColumn (x y : ColumnDecl) : Prop where
  name : x.name = y.name
  type : x.type = y.type
  rawType : SameText l l' x.rawType y.rawType
  comment : x.comment = y.comment
  defaultKind : x.defaultKind = y.defaultKind
  defaultExpr : Option.Rel (SameText l l') x.defaultExpr y.defaultExpr

abbrev SameItems : List SelectItem → List SelectItem → Prop :=
  List.Forall₂ (Grammar.SameItem (SameExpression l l'))

structure SameSubquery (x y : Subquery) : Prop where
  name : x.name = y.name
  source : x.source = y.source
  items : SameItems l l' x.items y.items

structure SameQuery (x y : ViewQuery) : Prop where
  source : x.source = y.source
  items : SameItems l l' x.items y.items
  subquery : Option.Rel (SameSubquery l l') x.subquery y.subquery

/-- The columns that a view takes from its query, named after the items. -/
def ViewQuery.pendingColumns (query : ViewQuery) : List ColumnDecl :=
  query.items.map fun item => .pending item.outputName

structure SameTable (x y : TableDecl) : Prop where
  name : x.name = y.name
  database : x.database = y.database
  kind : x.kind = y.kind
  comment : x.comment = y.comment
  engine : Option.Rel (SameText l l') x.engine y.engine
  partitionBy : Option.Rel (SameText l l') x.partitionBy y.partitionBy
  orderBy : Option.Rel (SameText l l') x.orderBy y.orderBy
  primaryKey : Option.Rel (SameText l l') x.primaryKey y.primaryKey
  query : Option.Rel (SameQuery l l') x.query y.query
  columns : x.query = none → List.Forall₂ (SameColumn l l') x.columns y.columns
  pending : ∀ query ∈ x.query, ∀ query' ∈ y.query,
    x.columns = query.pendingColumns ∧ y.columns = query'.pendingColumns

/-- Two readings that differ in no more than the layout: both declare, or both fail, and as many
tokens are consumed by the one as by the other. -/
def SameReading (r r' : EStateM.Result Error Cursor TableDecl) : Prop :=
  match r, r' with
  | .ok table c, .ok table' d => SameTable l l' table table' ∧ c.position = d.position
  | .error e c, .error f d =>
    e.unplaced = f.unplaced ∧ e.message = f.message ∧ c.position = d.position
  | _, _ => False

end Declarations

variable {l l' : Listing}

theorem SameColumn.admitNull {x y : ColumnDecl} (h : SameColumn l l' x y) :
    SameColumn l l' x.admitNull y.admitNull := by
  unfold ColumnDecl.admitNull
  rw [h.type]
  split_ifs
  · exact h
  · exact { h with type := rfl }

theorem SameTable.isEmpty_eq {x y : TableDecl} (h : SameTable l l' x y) :
    x.columns.isEmpty = y.columns.isEmpty := by
  have hlength : x.columns.length = y.columns.length := by
    have hquery := h.query
    have hpending := h.pending
    cases hx : x.query with
    | none => exact (h.columns hx).length_eq
    | some query =>
      rw [hx] at hquery hpending
      generalize y.query = query?' at hquery hpending
      cases hquery with
      | some hquery =>
        obtain ⟨hx, hy⟩ := hpending _ rfl _ rfl
        rw [hx, hy, ViewQuery.pendingColumns, ViewQuery.pendingColumns, List.length_map,
          List.length_map, hquery.items.length_eq]
  rw [Bool.eq_iff_iff, List.isEmpty_iff_length_eq_zero, List.isEmpty_iff_length_eq_zero, hlength]

theorem SameTable.qualifiedName_eq {x y : TableDecl} (h : SameTable l l' x y) :
    x.qualifiedName = y.qualifiedName := by
  rw [TableDecl.qualifiedName, TableDecl.qualifiedName, h.name, h.database]

namespace Grammar

section Types

variable {inner : Grammar TypeExpr}

theorem inStep_signedInteger : InStep l l' Eq signedInteger signedInteger := by
  refine (inStep_accept? ofContent_isMinus).bind fun minus minus' hminus => ?_
  refine (inStep_expect _ _).bind fun t u ht => ?_
  have hsome : minus.isSome = minus'.isSome := by simpa using congrArg Option.isSome hminus
  rw [(Prod.mk.inj ht).2, hsome]
  cases decimal? u.text.toList with
  | some n => exact .pure rfl
  | none => exact .throw (congrArg (fun t => Error.parse (.invalidEnumValue t)) (Token.unplaced_eq ht))

theorem inStep_typeArg (h : InStep l l' Eq inner inner) :
    InStep l l' Eq (typeArg inner) (typeArg inner) := by
  refine inStep_peek?.bind fun t? u? hpeek => ?_
  obtain ⟨rfl, rfl⟩ | ⟨t, u, rfl, rfl, hcontent⟩ := content_cases hpeek
  · exact inStep_unexpected _
  · dsimp only
    rw [(Prod.mk.inj hcontent).1, (Prod.mk.inj hcontent).2, ofContent_isMinus.eq hcontent,
      ofContent_isName.eq hcontent]
    split_ifs
    · refine inStep_advance.seq fun _ => (inStep_eat _).seq fun equals => ?_
      cases equals with
      | true => exact inStep_signedInteger.seq fun _ => .pure rfl
      | false => exact .pure rfl
    · exact inStep_advance.seq fun _ => .pure rfl
    · refine inStep_advance.seq fun _ => (inStep_expect _ _).bind fun t u ht => .pure ?_
      rw [(Prod.mk.inj ht).2]
    · have htype : InStep l l' Eq (do return TypeArg.type (← inner))
          (do return TypeArg.type (← inner)) := h.seq fun _ => .pure rfl
      refine (inStep_looksAt 1 fun _ _ _ _ => rfl).seq fun named => ?_
      cases named with
      | true => exact inStep_advance.seq fun _ => htype
      | false => exact htype
    · exact inStep_unexpected _

theorem inStep_checkArguments (name : String) (args : Array TypeArg) :
    InStep l l' Eq (checkArguments name args) (checkArguments name args) := by
  unfold checkArguments
  split
  · exact inStep_check _ _
  · exact .pure rfl

theorem inStep_typeArgs (h : InStep l l' Eq inner inner) (name : String) (budget : Nat)
    (args : Array TypeArg) :
    InStep l l' Eq (typeArgs inner name budget args) (typeArgs inner name budget args) := by
  induction budget generalizing args with
  | zero => exact inStep_exhausted _
  | succ budget ih =>
    unfold typeArgs
    refine (inStep_typeArg h).seq fun arg => (inStep_checkArguments _ _).seq fun _ => ?_
    refine (inStep_eat _).seq fun comma => ?_
    cases comma with
    | true => exact ih _
    | false => exact (inStep_expect _ _).discard.seq fun _ => .pure rfl

theorem inStep_typeExpr (room : Nat) : InStep l l' Eq (typeExpr room) (typeExpr room) := by
  induction room with
  | zero => exact .throw rfl
  | succ room ih =>
    refine (inStep_require (fun _ _ _ _ => rfl) _).bind fun t u ht => ?_
    rw [(Prod.mk.inj ht).2]
    refine (inStep_eat _).seq fun opened => ?_
    cases opened with
    | false => exact .pure rfl
    | true =>
      refine (inStep_eat _).seq fun closed => ?_
      cases closed with
      | true => exact .pure rfl
      | false => exact (inStep_typeArgs ih _ _ _).seq fun _ => .pure rfl

end Types

section Columns

variable {x y : ColumnDecl}

theorem inStep_columnOption? (h : SameColumn l l' x y) :
    InStep l l' (Option.Rel (SameColumn l l')) (columnOption? l.source x)
      (columnOption? l'.source y) := by
  have hends : OfContent endsColumnOption := fun _ _ _ _ => rfl
  refine inStep_peek?.bind fun t? u? hcontent => ?_
  have hkind : t?.map Token.kind = u?.map Token.kind := by
    have h := congrArg (Option.map Prod.fst) hcontent
    rw [Option.map_map, Option.map_map] at h
    exact h
  rw [hkind]
  split
  · exact inStep_advance.seq fun _ => .pure (.some h.admitNull)
  · exact inStep_advance.seq fun _ => (inStep_expectKeyword _).seq fun _ => .pure (.some h)
  · exact inStep_advance.seq fun _ => (inStep_expectString _).seq fun text =>
      .pure (.some { h with comment := rfl })
  · exact inStep_advance.seq fun _ => inStep_skipBalanced.seq fun _ => .pure (.some h)
  · exact inStep_advance.seq fun _ => (inStep_run hends).discard.seq fun _ => .pure (.some h)
  · exact inStep_advance.seq fun _ => (inStep_expectKeyword _).seq fun _ => .pure (.some h)
  · split
    · refine inStep_advance.seq fun _ => (inStep_captureExpression hends).bind fun _ _ hexpr => ?_
      exact .pure (.some { h with defaultKind := rfl, defaultExpr := hexpr })
    · exact .pure .none
  · exact .pure .none

theorem inStep_columnOptions (budget : Nat) (h : SameColumn l l' x y) :
    InStep l l' (SameColumn l l') (columnOptions l.source budget x)
      (columnOptions l'.source budget y) := by
  induction budget generalizing x y with
  | zero => exact inStep_exhausted _
  | succ budget ih =>
    refine (inStep_columnOption? h).bind fun x? y? hcolumn => ?_
    cases hcolumn with
    | some hcolumn => exact ih hcolumn
    | none => exact .pure h

theorem inStep_columnDef :
    InStep l l' (SameColumn l l') (columnDef l.source) (columnDef l'.source) := by
  refine (inStep_text (fun _ _ _ _ => rfl) _).seq fun name => ?_
  refine Lockstep.get.bind fun mark mark' hmark => (inStep_typeExpr _).seq fun type => ?_
  refine Lockstep.get.bind fun c d h => inStep_columnOptions _ ?_
  exact ⟨rfl, rfl, (hmark.since h).sourceText, rfl, rfl, .none⟩

theorem reachesType_alike {ts us : List Token} (h : ts.map Token.content = us.map Token.content)
    (depth : Nat) : reachesType depth ts = reachesType depth us := by
  induction ts generalizing us depth with
  | nil => rw [List.map_eq_nil_iff.1 h.symm]
  | cons t ts ih =>
    obtain ⟨u, us, rfl, hu, hus⟩ := List.map_eq_cons_iff.1 h.symm
    rw [reachesType, reachesType, (Prod.mk.inj hu).1, (Prod.mk.inj hu).2, nest_eq hu, ih hus.symm]

theorem startsEntry_alike {ts us : List Token} (h : ts.map Token.content = us.map Token.content) :
    startsEntry ts = startsEntry us := by
  cases ts with
  | nil => rw [List.map_eq_nil_iff.1 h.symm]
  | cons t ts =>
    obtain ⟨u, us, rfl, hu, hus⟩ := List.map_eq_cons_iff.1 h.symm
    have hverb : OfContent isConstraintVerb := fun _ _ _ _ => rfl
    rw [startsEntry, startsEntry, (Prod.mk.inj hu).1, reachesType_alike hus.symm,
      (ofContent_kind (· == .openParen)).any_getElem? hus.symm, hverb.any_getElem? hus.symm]

/-- Columns read so far. -/
def SameColumns (l l' : Listing) (xs ys : Array ColumnDecl) : Prop :=
  List.Forall₂ (SameColumn l l') xs.toList ys.toList

theorem SameColumns.size_eq {xs ys : Array ColumnDecl} (h : SameColumns l l' xs ys) :
    xs.size = ys.size := by
  rw [← Array.length_toList, ← Array.length_toList, h.length_eq]

theorem SameColumns.push {xs ys : Array ColumnDecl} (h : SameColumns l l' xs ys)
    (hcolumn : SameColumn l l' x y) : SameColumns l l' (xs.push x) (ys.push y) := by
  rw [SameColumns, Array.toList_push, Array.toList_push]
  exact List.rel_append h (.cons hcolumn .nil)

theorem inStep_columnListEntry {xs ys : Array ColumnDecl} (h : SameColumns l l' xs ys) :
    InStep l l' (SameColumns l l') (columnListEntry l.source xs) (columnListEntry l'.source ys) := by
  refine Lockstep.get.bind fun c d hplace => ?_
  rw [startsEntry_alike hplace.contents]
  split_ifs
  · exact (inStep_run (ofContent_kind (· == .comma))).discard.seq fun _ => .pure h
  · refine inStep_columnDef.bind fun column column' hcolumn => ?_
    dsimp only
    rw [(h.push hcolumn).size_eq]
    exact (inStep_check _ _).seq fun _ => .pure (h.push hcolumn)

theorem inStep_columnEntries (budget : Nat) {xs ys : Array ColumnDecl} (h : SameColumns l l' xs ys) :
    InStep l l' (SameColumns l l') (columnEntries l.source budget xs)
      (columnEntries l'.source budget ys) := by
  induction budget generalizing xs ys with
  | zero => exact inStep_exhausted _
  | succ budget ih =>
    refine (inStep_eat _).seq fun closed => ?_
    cases closed with
    | true => exact .pure h
    | false =>
      refine (inStep_columnListEntry h).bind fun xs ys h => (inStep_eat _).seq fun comma => ?_
      cases comma with
      | true => exact ih h
      | false => exact (inStep_expect _ _).discard.seq fun _ => .pure h

theorem inStep_columnList : InStep l l' (List.Forall₂ (SameColumn l l')) (columnList l.source)
    (columnList l'.source) :=
  (inStep_expect _ _).discard.seq fun _ =>
    (inStep_columnEntries _ .nil).bind fun _ _ h => .pure h

end Columns

section Queries

theorem sameItem_ofTokens? {ts us : List Token} (h : SamePart l l' ts us) :
    Option.Rel (SameItem (SameExpression l l')) (SelectItem.ofTokens? l.source ts)
      (SelectItem.ofTokens? l'.source us) := by
  refine ofTokens?_congr h.contents fun hplain => ?_
  obtain ⟨-, n, hts, hus⟩ := splitAlias_congr h.contents
  obtain ⟨i, m, hexpr, hexpr'⟩ := (h.take n).place
  rw [hts, hexpr] at hplain ⊢
  rw [hus, hexpr']
  exact ⟨i, m, hplain, rfl, rfl⟩

theorem inStep_selectItems (budget : Nat) {items items' : List SelectItem}
    (h : SameItems l l' items items') :
    InStep l l' (SameItems l l') (selectItems l.source budget items)
      (selectItems l'.source budget items') := by
  induction budget generalizing items items' with
  | zero => exact inStep_exhausted _
  | succ budget ih =>
    have hstop : OfContent fun t => t.kind == .comma || t.isKeyword .from := fun _ _ _ _ => rfl
    refine (inStep_run hstop).bind fun ts us hpart => ?_
    have hempty : ts.isEmpty = us.isEmpty := by
      have hlength := congrArg List.length hpart.contents
      rw [List.length_map, List.length_map] at hlength
      rw [Bool.eq_iff_iff, List.isEmpty_iff_length_eq_zero, List.isEmpty_iff_length_eq_zero, hlength]
    have hitems : SameItems l l' ((SelectItem.ofTokens? l.source ts).toList ++ items)
        ((SelectItem.ofTokens? l'.source us).toList ++ items') := by
      have hitem := sameItem_ofTokens? hpart
      generalize SelectItem.ofTokens? l.source ts = item? at hitem ⊢
      generalize SelectItem.ofTokens? l'.source us = item?' at hitem ⊢
      cases hitem with
      | none => exact h
      | some hitem => exact .cons hitem h
    have hrest : InStep l l' (SameItems l l')
        (do
          let items := (SelectItem.ofTokens? l.source ts).toList ++ items
          if ← eat .comma then selectItems l.source budget items else return items.reverse)
        (do
          let items := (SelectItem.ofTokens? l'.source us).toList ++ items'
          if ← eat .comma then selectItems l'.source budget items else return items.reverse) := by
      refine (inStep_eat _).seq fun comma => ?_
      cases comma with
      | true => exact ih hitems
      | false => exact .pure (List.rel_reverse hitems)
    dsimp only
    rw [hempty]
    split_ifs
    · exact Lockstep.seq (α := Unit) (inStep_unexpected _) fun _ => hrest
    · exact hrest

theorem inStep_fromSource : InStep l l' Eq fromSource fromSource := by
  refine (inStep_isAt _).seq fun paren => ?_
  cases paren with
  | true => exact inStep_skipBalanced.seq fun _ => .pure rfl
  | false => exact (inStep_qualifiedName _).seq fun _ => .pure rfl

theorem inStep_selectFrom :
    InStep l l' (fun x y => SameItems l l' x.1 y.1 ∧ x.2 = y.2) (selectFrom l.source)
      (selectFrom l'.source) := by
  refine (inStep_expectKeyword _).seq fun _ => (inStep_selectItems _ .nil).bind fun _ _ h => ?_
  exact (inStep_expectKeyword _).seq fun _ => inStep_fromSource.seq fun _ => .pure ⟨h, rfl⟩

theorem inStep_subquery :
    InStep l l' (SameSubquery l l') (subquery l.source) (subquery l'.source) := by
  refine (inStep_expectName _).seq fun name => (inStep_expectKeyword _).seq fun _ => ?_
  refine (inStep_expect _ _).discard.seq fun _ => ?_
  refine inStep_selectFrom.bind fun (items, from_) (items', from_') h => ?_
  exact inStep_skipToClose.seq fun _ => .pure ⟨rfl, h.2, h.1⟩

theorem inStep_atSubquery : InStep l l' Eq atSubquery atSubquery := by
  refine (inStep_looksAt 0 ofContent_isName).seq fun _ => ?_
  refine (inStep_looksAt 1 fun _ _ _ _ => rfl).seq fun _ => ?_
  refine (inStep_looksAt 2 fun _ _ _ _ => rfl).seq fun _ => ?_
  exact (inStep_looksAt 3 fun _ _ _ _ => rfl).seq fun _ => .pure rfl

theorem inStep_withClause : InStep l l' (Option.Rel (SameSubquery l l')) (withClause l.source)
    (withClause l'.source) := by
  have hstop : OfContent (·.isKeyword .select) := fun _ _ _ _ => rfl
  refine inStep_atSubquery.seq fun atSub => ?_
  have hrest {sub? sub?' : Option Subquery} (hsub : Option.Rel (SameSubquery l l') sub? sub?') :
      InStep l l' (Option.Rel (SameSubquery l l'))
        (do discard (run (·.isKeyword .select)); return sub?)
        (do discard (run (·.isKeyword .select)); return sub?') :=
    (inStep_run hstop).discard.seq fun _ => .pure hsub
  cases atSub with
  | true =>
    refine Lockstep.bind ?_ fun _ _ hsub => hrest hsub
    exact (inStep_subquery.mono fun _ _ hsub => .some hsub).map
  | false => exact hrest .none

theorem inStep_viewQuery :
    InStep l l' (SameQuery l l') (viewQuery l.source) (viewQuery l'.source) := by
  refine (inStep_eat _).seq fun clause => ?_
  cases clause
  all_goals
    refine Lockstep.bind (R := Option.Rel (SameSubquery l l')) ?_ fun _ _ hsub => ?_
    rotate_left
    · exact inStep_selectFrom.bind fun _ _ h => inStep_finish.seq fun _ => .pure ⟨h.2, h.1, hsub⟩
  · exact .pure .none
  · exact inStep_withClause

end Queries

section Clauses

variable {x y : TableDecl}

theorem inStep_engine :
    InStep l l' (SameText l l') (engine l.source) (engine l'.source) := by
  refine Lockstep.get.bind fun mark mark' hmark => (inStep_expectName _).discard.seq fun _ => ?_
  have hsince : InStep l l' (SameText l l') (do return sourceText l.source ((← get).since mark))
      (do return sourceText l'.source ((← get).since mark')) :=
    Lockstep.get.bind fun c d h => .pure (hmark.since h).sourceText
  refine (inStep_isAt _).seq fun opened => ?_
  cases opened with
  | true => exact inStep_skipBalanced.seq fun _ => hsince
  | false => exact hsince

theorem inStep_asBody (h : SameTable l l' x y) :
    InStep l l' (SameTable l l') (asBody l.source x) (asBody l'.source y) := by
  have hderived : (x.kind == .materializedView && x.columns.isEmpty) =
      (y.kind == .materializedView && y.columns.isEmpty) := by rw [h.kind, h.isEmpty_eq]
  unfold asBody
  rw [hderived]
  split_ifs
  · refine inStep_viewQuery.bind fun query query' hquery => ?_
    rw [hquery.items.length_eq]
    refine (inStep_check _ _).seq fun _ => .pure ?_
    refine { h with query := .some hquery, columns := nofun, pending := ?_ }
    rintro _ ⟨⟩ _ ⟨⟩
    exact ⟨rfl, rfl⟩
  · exact inStep_finish.seq fun _ => .pure h

/-- Both clauses leave more to read, or both end the statement. -/
inductive SameProgress (l l' : Listing) : Progress → Progress → Prop
  | more {x y : TableDecl} : SameTable l l' x y → SameProgress l l' (.more x) (.more y)
  | done {x y : TableDecl} : SameTable l l' x y → SameProgress l l' (.done x) (.done y)

theorem inStep_clauseExpression : InStep l l' (Option.Rel (SameText l l'))
    (clauseExpression l.source) (clauseExpression l'.source) :=
  inStep_captureExpression ofContent_startsTableClause

theorem inStep_tableClause (h : SameTable l l' x y) (kind : TokenKind) :
    InStep l l' (SameProgress l l') (tableClause l.source x kind) (tableClause l'.source y kind) := by
  have hexpr : InStep l l' Eq (discard (clauseExpression l.source))
      (discard (clauseExpression l'.source)) := inStep_clauseExpression.discard
  unfold tableClause
  split
  · exact inStep_advance.seq fun _ => .pure (.done h)
  · refine inStep_advance.seq fun _ => (inStep_eat _).discard.seq fun _ => ?_
    exact inStep_engine.bind fun _ _ hengine => .pure (.more { h with engine := .some hengine })
  · refine inStep_advance.seq fun _ => (inStep_expectKeyword _).seq fun _ => ?_
    exact inStep_clauseExpression.bind fun _ _ hkey => .pure (.more { h with partitionBy := hkey })
  · refine inStep_advance.seq fun _ => (inStep_expectKeyword _).seq fun _ => ?_
    exact inStep_clauseExpression.bind fun _ _ hkey => .pure (.more { h with orderBy := hkey })
  · refine inStep_advance.seq fun _ => (inStep_expectKeyword _).seq fun _ => ?_
    exact inStep_clauseExpression.bind fun _ _ hkey => .pure (.more { h with primaryKey := hkey })
  · exact inStep_advance.seq fun _ => (inStep_expectKeyword _).seq fun _ =>
      hexpr.seq fun _ => .pure (.more h)
  · exact inStep_advance.seq fun _ => hexpr.seq fun _ => .pure (.more h)
  · exact inStep_advance.seq fun _ => hexpr.seq fun _ => .pure (.more h)
  · refine inStep_advance.seq fun _ => (inStep_eat _).discard.seq fun _ => ?_
    exact (inStep_expectString _).seq fun text => .pure (.more { h with comment := rfl })
  · exact inStep_advance.seq fun _ => .pure (.more h)
  · exact inStep_advance.seq fun _ => (inStep_asBody h).bind fun _ _ h => .pure (.done h)
  · exact inStep_unexpected _

theorem inStep_tableClauses (budget : Nat) {x y : TableDecl} (h : SameTable l l' x y) :
    InStep l l' (SameTable l l') (tableClauses l.source budget x)
      (tableClauses l'.source budget y) := by
  unfold tableClauses
  refine inStep_peek?.bind fun t? u? hpeek => ?_
  obtain ⟨rfl, rfl⟩ | ⟨t, u, rfl, rfl, hcontent⟩ := content_cases hpeek
  · cases budget <;> exact .pure h
  · cases budget with
    | zero => exact inStep_exhausted _
    | succ budget =>
      dsimp only
      rw [(Prod.mk.inj hcontent).1]
      refine (inStep_tableClause h _).bind fun p q hprogress => ?_
      cases hprogress with
      | more h => exact inStep_tableClauses budget h
      | done h => exact .pure h

theorem inStep_tableKind : InStep l l' Eq tableKind tableKind := by
  refine (inStep_eat _).seq fun materialized => ?_
  cases materialized with
  | true => exact (inStep_expectKeyword _).seq fun _ => .pure rfl
  | false =>
    refine (inStep_eat _).seq fun table => ?_
    cases table with
    | true => exact .pure rfl
    | false =>
      refine (inStep_isAt _).seq fun view => ?_
      cases view <;> exact inStep_unexpected _

theorem inStep_orReplace : InStep l l' Eq orReplace orReplace := by
  refine (inStep_eat _).seq fun or => ?_
  cases or with
  | true => exact inStep_expectKeyword _
  | false => exact .pure rfl

theorem inStep_ifNotExists : InStep l l' Eq ifNotExists ifNotExists := by
  refine (inStep_eat _).seq fun found => ?_
  cases found with
  | true => exact (inStep_expectKeyword _).seq fun _ => inStep_expectKeyword _
  | false => exact .pure rfl

theorem inStep_onCluster : InStep l l' Eq onCluster onCluster := by
  refine (inStep_eat _).seq fun on => ?_
  cases on with
  | false => exact .pure rfl
  | true =>
    refine (inStep_expectKeyword _).seq fun _ => (inStep_isAt _).seq fun string => ?_
    cases string with
    | true => exact inStep_advance
    | false => exact (inStep_expectName _).discard

theorem inStep_tableHeader : InStep l l' (fun x y => SameTable l l' x y ∧ x.query = none)
    tableHeader tableHeader := by
  refine (inStep_expectKeyword _).seq fun _ => inStep_orReplace.seq fun _ => ?_
  refine (inStep_eat _).discard.seq fun _ => inStep_tableKind.seq fun kind => ?_
  refine inStep_ifNotExists.seq fun _ => (inStep_qualifiedName _).seq fun (database, name) => ?_
  have hheader (x : TableDecl) (hx : x = { name, database, kind }) :
      SameTable l l' x x ∧ x.query = none := by
    subst hx
    exact ⟨⟨rfl, rfl, rfl, rfl, .none, .none, .none, .none, .none, fun _ => .nil, nofun⟩, rfl⟩
  refine inStep_onCluster.seq fun _ => (inStep_isAt _).seq fun routed => ?_
  cases routed with
  | true => exact Lockstep.seq (α := Unit) (inStep_unexpected _) fun _ => .pure (hheader _ rfl)
  | false => exact .pure (hheader _ rfl)

end Clauses

theorem inStep_statement :
    InStep l l' (SameTable l l') (statement l.source) (statement l'.source) := by
  refine inStep_tableHeader.bind fun header header' ⟨h, hquery⟩ => ?_
  have hrest {xs ys : List ColumnDecl} (hcolumns : List.Forall₂ (SameColumn l l') xs ys) :
      InStep l l' (SameTable l l')
        (do
          let table ← tableClauses l.source (Ceiling.steps .tableClauses).limit
            { header with columns := xs }
          if table.columns.isEmpty then throw (.parse (.noColumns table.qualifiedName))
          return table)
        (do
          let table ← tableClauses l'.source (Ceiling.steps .tableClauses).limit
            { header' with columns := ys }
          if table.columns.isEmpty then throw (.parse (.noColumns table.qualifiedName))
          return table) := by
    refine (inStep_tableClauses _ ?_).bind fun x y h => ?_
    · exact { h with columns := fun _ => hcolumns, pending := by simp [hquery] }
    · dsimp only
      rw [h.isEmpty_eq, h.qualifiedName_eq]
      split_ifs
      · exact Lockstep.seq (α := Unit) (.throw rfl) fun _ => .pure h
      · exact .pure h
  refine (inStep_isAt _).seq fun opened => ?_
  cases opened with
  | true => exact inStep_columnList.bind fun _ _ hcolumns => hrest hcolumns
  | false => exact hrest .nil

end Grammar

theorem SameReading.of_paired {r r' : EStateM.Result Error Cursor TableDecl}
    (h : Paired (Abreast l l') SameError (SameTable l l') r r') : SameReading l l' r r' := by
  cases h with
  | ok htable hplace => exact ⟨htable, hplace.position⟩
  | error he hplace => exact ⟨he, he.message_eq, hplace.position⟩

/-- Layout does not change meaning: texts whose tokens agree in kind and text are read alike, up to
places in errors and to source texts in declarations. -/
theorem sameReading_of_contents {source source' : String}
    (h : (tokenize source).map Token.content = (tokenize source').map Token.content) :
    SameReading (.ofText source) (.ofText source')
      (Grammar.statement source (.ofTokens (tokenize source)))
      (Grammar.statement source' (.ofTokens (tokenize source'))) := by
  have hstart : Abreast (.ofText source) (.ofText source') (.ofTokens (tokenize source))
      (.ofTokens (tokenize source')) := .start h
  exact .of_paired (Grammar.inStep_statement _ _ hstart)

/-- A statement without any blank that is not needed. -/
def denseStatement : String := "CREATE TABLE t(n UInt8 DEFAULT 1+1)ORDER BY n"

/-- The same statement over lines, with comments and a character that no rule knows. -/
def looseStatement : String :=
  "CREATE TABLE t -- n;
(
  n   UInt8 DEFAULT 1 /* ) */ + 1
) $ ORDER BY n # )"

theorem sameReading_of_contents_loose :
    (tokenize denseStatement).map Token.content = (tokenize looseStatement).map Token.content ∧
      SameReading (.ofText denseStatement) (.ofText looseStatement)
        (Grammar.statement denseStatement (.ofTokens (tokenize denseStatement)))
        (Grammar.statement looseStatement (.ofTokens (tokenize looseStatement))) :=
  have h : (tokenize denseStatement).map Token.content =
      (tokenize looseStatement).map Token.content := by decide +kernel
  ⟨h, sameReading_of_contents h⟩

end TypedTables
