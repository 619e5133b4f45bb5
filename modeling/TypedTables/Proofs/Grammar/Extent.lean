import TypedTables.Grammar.Table
import TypedTables.Proofs.Grammar.Moves

/-!
What the rules of the grammar take. Types, columns and column options are balanced, and a column
list is one parenthesized group. A `WITH` clause goes up to the first `SELECT` outside parentheses.
-/

namespace TypedTables

section Single

variable {t : Token}

theorem closes_of_kind {kind : TokenKind} (t : Token) (h : t.kind = kind)
    (hk : kind ≠ .openParen ∧ kind ≠ .closeParen) : Closes 0 [t] := .single (h ▸ hk.1) (h ▸ hk.2)

theorem closes_of_isName (t : Token) (h : t.isName = true) : Closes 0 [t] := by
  refine .single ?_ ?_ <;> intro hk <;> simp [Token.isName, hk] at h

end Single

namespace Grammar

section Types

variable {inner : Grammar TypeExpr}

/-- A number that is no value is to blame only after it has been taken. -/
theorem takes_signedInteger : Takes (Closes 0) signedInteger := by
  intro c
  have hminus : Takes (Closes 0) (accept? isMinus) := fun c =>
    (moves_accept? isMinus).mono fun t? taken h => by
      obtain ⟨rfl, h⟩ := h
      cases t? with
      | none => exact rfl
      | some t =>
        have hkind : t.kind = .operator := by simpa [isMinus] using Bool.and_elim_left (h t rfl)
        exact closes_of_kind t hkind (by decide)
  refine (hminus c).bind fun minus before c₁ _ hbefore => ?_
  refine (moves_expect _ _).bind_lands fun t taken c₂ hmoved h => ?_
  obtain ⟨rfl, ht⟩ := h
  have hall : Closes 0 (before ++ [t]) := hbefore.append (closes_of_kind t ht (by decide))
  have hblame : (Error.parse (.invalidEnumValue t)).PointsInto c₁.rest := by
    intro cause hcause span hspan
    cases hcause
    cases hspan
    exact ⟨t, by simp [hmoved.rest], rfl⟩
  cases decimal? t.text.toList with
  | some n => split <;> exact ⟨[t], hmoved, hall⟩
  | none => split <;> exact hblame

theorem takes_typeArg (h : Takes (Closes 0) inner) : Takes (Closes 0) (typeArg inner) := by
  intro c
  refine .peek? ?_
  cases hpeek : c.peek? with
  | none => exact .unexpected
  | some t =>
    dsimp only
    split_ifs with hstring hnumber hminus hname
    · have hkind : t.kind = .string := by simpa using hstring
      refine .advance hpeek (closes_of_kind t hkind (by decide)) ?_
      refine .bind (.eat rfl fun t h => closes_of_kind t h (by decide)) fun equals => ?_
      split
      · exact takes_signedInteger.bind fun _ => .pure
      · exact .pure
    · have hkind : t.kind = .number := by simpa using hnumber
      exact .advance hpeek (closes_of_kind t hkind (by decide)) .pure
    · have hkind : t.kind = .operator := by simpa [isMinus] using Bool.and_elim_left hminus
      refine .advance hpeek (closes_of_kind t hkind (by decide)) ?_
      exact .bind (.expect fun t h => closes_of_kind t h (by decide)) fun _ => .pure
    · refine .looksAt ?_
      have htype : Takes (Closes 0) (do return TypeArg.type (← inner)) := h.bind fun _ => .pure
      split
      · exact .advance hpeek (closes_of_isName t hname) htype
      · exact htype c
    · exact .unexpected

theorem takes_checkArguments (name : String) (args : Array TypeArg) :
    Takes (Closes 0) (checkArguments name args) := by
  unfold checkArguments
  split
  · exact .check
  · exact .pure

theorem moves_typeArgs (h : Takes (Closes 0) inner) (name : String) (budget : Nat)
    (args : Array TypeArg) (c : Cursor) :
    Moves c (typeArgs inner name budget args) fun _ => GroupEnd := by
  induction budget generalizing args c with
  | zero => exact .exhausted
  | succ budget ih =>
    unfold typeArgs
    refine (takes_typeArg h c).bind fun arg ts c₁ _ hts => ?_
    refine (takes_checkArguments _ _ c₁).bind fun _ us c₂ _ hus => ?_
    refine (moves_eat _).bind fun comma vs c₃ _ hcomma => ?_
    obtain ⟨rfl, t, rfl, ht⟩ | ⟨rfl, rfl⟩ := hcomma
    · refine (ih _ c₃).mono fun _ more hmore => ?_
      exact ((hmore.prepend (closes_of_kind t ht (by decide))).prepend hus).prepend hts
    · refine (moves_discard _ _).bind fun _ more c₄ _ hclose => ?_
      obtain ⟨t, rfl, ht⟩ := hclose
      exact .pure (((GroupEnd.single ht).prepend hus).prepend hts)

theorem takes_typeExpr (room : Nat) : Takes (Closes 0) (typeExpr room) := by
  induction room with
  | zero => exact fun c => Moves.error (Error.pointsInto_of_fatal rfl c.rest)
  | succ room ih =>
    have hname (t : Token) (h : t.isIdentifier = true) : Closes 0 [t] := by
      refine .single ?_ ?_ <;> intro hk <;> simp [Token.isIdentifier, hk] at h
    refine .bind (.require hname) fun t c => ?_
    refine (moves_eat _).bind fun opened taken c₁ _ h => ?_
    obtain ⟨rfl, o, rfl, ho⟩ | ⟨rfl, rfl⟩ := h
    · refine (moves_eat _).bind fun closed taken c₂ _ h => ?_
      obtain ⟨rfl, close, rfl, hclose⟩ | ⟨rfl, rfl⟩ := h
      · exact .pure (Group.closes ⟨o, _, rfl, ho, .single hclose⟩)
      · refine (moves_typeArgs ih _ _ _ c₂).bind fun args more c₃ _ hmore => .pure ?_
        rw [List.append_nil]
        exact Group.closes ⟨o, _, rfl, ho, hmore⟩
    · exact .pure rfl

end Types

section Columns

variable {source : String}

theorem takes_run (stop : Token → Bool) : Takes (Closes 0) (run stop) :=
  fun _ => (moves_run stop).mono fun _ _ h => h.2.closes

theorem takes_skipBalanced : Takes (Closes 0) skipBalanced :=
  fun _ => moves_skipBalanced.mono fun _ _ h => h.closes

theorem takes_captureExpression (source : String) (stop : Token → Bool) :
    Takes (Closes 0) (captureExpression source stop) :=
  fun _ => (moves_captureExpression source stop).mono fun _ _ h => h.closes

theorem takes_columnOption? (column : ColumnDecl) :
    Takes (Closes 0) (columnOption? source column) := by
  intro c
  have hkeyword {k : Keyword} (t : Token) (h : t.kind = .keyword k) : Closes 0 [t] :=
    closes_of_kind t h ⟨nofun, nofun⟩
  refine .peek? ?_
  cases hpeek : c.peek? with
  | none => exact .pure rfl
  | some t =>
    rw [Option.map_some]
    cases hkind : t.kind with
    | keyword k =>
      have htake {f : Unit → Grammar (Option ColumnDecl)} (hf : Takes (Closes 0) (f ())) :
          Moves c (advance >>= f) fun _ => Closes 0 := .advance hpeek (hkeyword t hkind) hf
      cases k with
      | null => exact htake .pure
      | not => exact htake ((Takes.expectKeyword hkeyword).bind fun _ => .pure)
      | comment =>
        exact htake (.bind (.map (.expect fun t h => closes_of_kind t h (by decide))) fun _ => .pure)
      | codec => exact htake (takes_skipBalanced.bind fun _ => .pure)
      | ttl => exact htake ((takes_run _).map.bind fun _ => .pure)
      | primary => exact htake ((Takes.expectKeyword hkeyword).bind fun _ => .pure)
      | default | materialized | ephemeral | «alias» =>
        exact htake ((takes_captureExpression source _).bind fun _ => .pure)
      | _ => exact .pure rfl
    | _ => exact .pure rfl

theorem takes_columnOptions (budget : Nat) (column : ColumnDecl) :
    Takes (Closes 0) (columnOptions source budget column) := by
  induction budget generalizing column with
  | zero => exact .exhausted
  | succ budget ih =>
    refine (takes_columnOption? column).bind fun column? => ?_
    cases column? with
    | some column => exact ih column
    | none => exact .pure

theorem takes_columnDef : Takes (Closes 0) (columnDef source) := by
  refine .bind (.map (.require fun t h => ?_)) fun name => .get fun mark => ?_
  · refine .single ?_ ?_ <;> intro hk <;> simp [Token.isName, hk] at h
  · refine (takes_typeExpr maxTypeDepth).bind fun type => .get fun c => ?_
    exact takes_columnOptions _ _

theorem takes_columnListEntry (columns : Array ColumnDecl) :
    Takes (Closes 0) (columnListEntry source columns) := by
  refine .get fun c => ?_
  split_ifs
  · exact (takes_run _).map.bind fun _ => .pure
  · exact takes_columnDef.bind fun _ => Takes.check.bind fun _ => .pure

theorem moves_columnEntries (budget : Nat) (columns : Array ColumnDecl) (c : Cursor) :
    Moves c (columnEntries source budget columns) fun _ => GroupEnd := by
  induction budget generalizing columns c with
  | zero => exact .exhausted
  | succ budget ih =>
    unfold columnEntries
    refine (moves_eat _).bind fun closed taken c₁ _ h => ?_
    obtain ⟨rfl, t, rfl, ht⟩ | ⟨rfl, rfl⟩ := h
    · exact .pure (.single ht)
    · refine (takes_columnListEntry columns c₁).bind fun columns ts c₂ _ hts => ?_
      refine (moves_eat _).bind fun comma us c₃ _ hcomma => ?_
      obtain ⟨rfl, t, rfl, ht⟩ | ⟨rfl, rfl⟩ := hcomma
      · refine (ih columns c₃).mono fun _ more hmore => ?_
        exact (hmore.prepend (closes_of_kind t ht (by decide))).prepend hts
      · refine (moves_discard _ _).bind fun _ more c₄ _ hclose => ?_
        obtain ⟨t, rfl, ht⟩ := hclose
        exact .pure ((GroupEnd.single ht).prepend hts)

theorem moves_columnList (c : Cursor) : Moves c (columnList source) fun _ => Group := by
  refine (moves_discard _ _).bind fun _ taken c₁ _ h => ?_
  obtain ⟨o, rfl, ho⟩ := h
  refine (moves_columnEntries _ _ c₁).bind fun columns more c₂ _ h => .pure ?_
  rw [List.append_nil]
  exact ⟨o, more, rfl, ho, h⟩

end Columns

section Queries

variable {source : String}

/-- Of the tokens nothing is asked but that they lie ahead. -/
abbrev Anything (_ : List Token) : Prop := True

theorem Takes.anything {T : List Token → Prop} {α : Type} {g : Grammar α} (h : Takes T g) :
    Takes Anything g := h.mono fun _ => trivial

theorem takes_eat_anything {kind : TokenKind} : Takes Anything (eat kind) :=
  .eat trivial fun _ _ => trivial

theorem takes_selectItems (budget : Nat) (items : List SelectItem) :
    Takes (Closes 0) (selectItems source budget items) := by
  induction budget generalizing items with
  | zero => exact .exhausted
  | succ budget ih =>
    refine (takes_run _).bind fun tokens => ?_
    have hrest : Takes (Closes 0) (do
        let items := (SelectItem.ofTokens? source tokens).toList ++ items
        if ← eat .comma then selectItems source budget items
        else return items.reverse) := by
      refine .bind (.eat rfl fun t ht => closes_of_kind t ht (by decide)) fun comma => ?_
      split
      · exact ih _
      · exact .pure
    dsimp only
    split
    · exact .bind .unexpected fun _ => hrest
    · exact hrest

theorem closes_of_dotted {ts : List Token} (h : Dotted ts) : Closes 0 ts := by
  induction ts with
  | nil => rfl
  | cons t ts ih =>
    obtain ⟨ht, hts⟩ := List.forall_mem_cons.1 h
    have hfirst : Closes 0 [t] :=
      ht.elim (closes_of_isName t) fun ht => closes_of_kind t ht (by decide)
    exact hfirst.append (ih hts)

theorem takes_fromSource : Takes (Closes 0) fromSource := by
  refine .looksAt fun paren => ?_
  split
  · exact takes_skipBalanced.bind fun _ => .pure
  · refine .bind (fun c => ?_) fun _ => .pure
    exact (moves_qualifiedName _).mono fun _ _ => closes_of_dotted

theorem takes_selectFrom : Takes (Closes 0) (selectFrom source) := by
  have hkeyword (k : Keyword) : Takes (Closes 0) (expectKeyword k) :=
    .expectKeyword fun t ht => closes_of_kind t ht (by simp)
  refine (hkeyword .select).bind fun _ => (takes_selectItems _ _).bind fun items => ?_
  exact (hkeyword .from).bind fun _ => takes_fromSource.bind fun _ => .pure

/-- Balanced tokens without a `SELECT` outside parentheses. -/
abbrev NoSelect : List Token → Prop := Clear (·.isKeyword .select)

theorem noSelect_of_isName (t : Token) (h : t.isName = true) : NoSelect [t] := by
  refine .single ?_ ?_ ?_
  · exact fun hk => by simp [Token.isName, hk] at h
  · exact fun hk => by simp [Token.isName, hk] at h
  · refine Bool.eq_false_iff.2 fun hk => ?_
    have hkind : t.kind = .keyword .select := by simpa [Token.isKeyword] using hk
    simp [Token.isName, hkind, Keyword.isReserved] at h

/-- The sub-query is a group behind its name. -/
theorem takes_subquery : Takes NoSelect (subquery source) := by
  refine .bind (.expectName noSelect_of_isName) fun name => ?_
  refine .bind (.expectKeyword fun t ht => ?_) fun _ c => ?_
  · exact .single (by simp [ht]) (by simp [ht]) (by simp [Token.isKeyword, ht])
  · refine (moves_discard _ _).bind fun _ taken c₁ _ h => ?_
    obtain ⟨o, rfl, ho⟩ := h
    refine (takes_selectFrom c₁).bind fun (items, from_) inner c₂ _ hinner => ?_
    refine moves_skipToClose.bind fun _ last c₃ _ hlast => .pure ?_
    rw [List.append_nil]
    have hgroup : Group (o :: (inner ++ last)) := ⟨o, _, rfl, ho, hlast.prepend hinner⟩
    exact hgroup.clear fun p hp => by simp [Token.isKeyword, hp]

theorem takes_withClause : Takes NoSelect (withClause source) := by
  refine .bind (T := NoSelect) ?_ fun found => ?_
  · exact .looksAt fun _ => .looksAt fun _ => .looksAt fun _ => .looksAt fun _ => .pure
  · have hrest (sub : Option Subquery) : Takes NoSelect (do
        discard (run (·.isKeyword .select))
        return sub) := by
      refine .bind (.map fun c => ?_) fun _ => .pure
      exact (moves_run _).mono fun _ _ h => h.2.of_imp fun t ht => by simp [endsRun, ht]
    dsimp only
    split
    · exact takes_subquery.map.bind hrest
    · exact hrest none

theorem takes_viewQuery : Takes Anything (viewQuery source) := by
  have hrest (sub : Option Subquery) : Takes Anything (do
      let read ← selectFrom source
      modify Cursor.finish
      return ViewQuery.mk read.2 read.1 sub) :=
    takes_selectFrom.anything.bind fun _ => .bind (fun _ => moves_finish) fun _ => .pure
  refine takes_eat_anything.bind fun found => ?_
  dsimp only
  split
  · exact takes_withClause.anything.bind hrest
  · exact hrest none

end Queries

end Grammar

end TypedTables
