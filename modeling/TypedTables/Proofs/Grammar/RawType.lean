import TypedTables.Proofs.Grammar.Query
import TypedTables.Proofs.Grammar.Single
import TypedTables.Proofs.Token.Excerpt

/-!
The text of a type as a column definition shows it. In the place of the type of another column it is
read as the same type; only the options behind it can have made the column's own type another.
-/

namespace TypedTables

variable {source : String} {c c₁ c₂ : Cursor} {ts us rest : List Token}

theorem sourceText_empty (ts : List Token) : sourceText "" ts = "" := by
  have hslice (first stop : Nat) : slice "" first stop = "" := by
    have hempty : "" = String.ofList [] := rfl
    rw [slice, String.Pos.Raw.extract]
    split
    · rfl
    · rfl
  unfold sourceText
  split
  · exact hslice _ _
  · rfl

theorem alike_of_contents (h : ts.map Token.content = us.map Token.content) :
    Alike "" "" ts us := ⟨h, fun i n => by rw [sourceText_empty, sourceText_empty]⟩

theorem SameNext.append_of_ne_nil (h : ts.map Token.content = us.map Token.content) (hne : ts ≠ [])
    {rest rest' : List Token} : SameNext (ts ++ rest) (us ++ rest') := by
  obtain ⟨t, ts, rfl⟩ := List.exists_cons_of_ne_nil hne
  obtain ⟨u, us, rfl, hu, -⟩ := List.map_eq_cons_iff.1 h.symm
  exact congrArg some hu.symm

namespace Grammar

section Settles

variable {α β : Type} {g : Grammar α} {f : α → Grammar β}

/-- If the step succeeds, the same tokens are read the same whatever stands behind them. -/
def Settles (g : Grammar α) : Prop :=
  ∀ c a c₁, g c = .ok a c₁ → ∃ taken, c.Moved taken c₁ ∧ taken ≠ [] ∧
    ∀ us rest, us.map Token.content = taken.map Token.content → Reads False g us rest (· = a)

/-- A step that has read its tokens reads those that are alike, before anything that begins the
same. -/
theorem Repeats.reads_alike {source' : String} {g' : Grammar α} {a : α}
    (hg : Repeats source source' Eq g g') (h : g c = .ok a c₁) :
    ∃ taken, c.Moved taken c₁ ∧ ∀ us rest, Alike source source' taken us →
      SameNext c₁.rest rest → Reads False g' us rest (· = a) := by
  obtain ⟨taken, hmoved, hg⟩ := hg c a c₁ h
  refine ⟨taken, hmoved, fun us rest hus hnext p => ?_⟩
  obtain ⟨b, hb, rfl⟩ := hg p us rest hus hnext
  rw [hb]
  exact ⟨rfl, rfl⟩

theorem Repeats.reads (hg : Repeats "" "" Eq g g) {a : α} (h : g c = .ok a c₁) :
    ∃ taken, c.Moved taken c₁ ∧ ∀ us rest, us.map Token.content = taken.map Token.content →
      SameNext c₁.rest rest → Reads False g us rest (· = a) := by
  obtain ⟨taken, hmoved, hg⟩ := hg.reads_alike h
  exact ⟨taken, hmoved, fun us rest hus => hg us rest (alike_of_contents hus.symm)⟩

theorem Settles.bind (hg : Repeats "" "" Eq g g) (hf : ∀ a, Settles (f a)) :
    Settles (g >>= f) := by
  intro c b c₂ h
  obtain ⟨a, c₁, ha, hb⟩ := bind_eq_ok.1 h
  obtain ⟨ts, hts, hg⟩ := hg.reads ha
  obtain ⟨us, hus, hne, hf⟩ := hf a c₁ b c₂ hb
  refine ⟨ts ++ us, hts.trans hus, by simp [hne], fun vs rest hvs => ?_⟩
  rw [List.map_append] at hvs
  obtain ⟨ts', us', rfl, hts', hus'⟩ := List.map_eq_append_iff.1 hvs
  -- the token behind the first step is one of those that the second step takes
  have hnext : SameNext c₁.rest (us' ++ rest) := by
    rw [hus.rest]
    exact .append_of_ne_nil hus'.symm hne
  exact (hg ts' _ hts' hnext).bind_eq (hf us' rest hus')

theorem Settles.pure_behind (hg : Settles g) (r : α → β) :
    Settles (do let a ← g; return r a) := by
  intro c b c₂ h
  obtain ⟨a, c₁, ha, hb⟩ := bind_eq_ok.1 h
  cases hb
  obtain ⟨ts, hts, hne, hg⟩ := hg c a c₂ ha
  exact ⟨ts, hts, hne, fun us rest hus => (hg us rest hus).last_eq (.pure rfl)⟩

theorem settles_discard (kind : TokenKind) (what : Expected) :
    Settles (discard (expect kind what)) := by
  intro c _ c₁ h
  obtain ⟨taken, hmoved, t, rfl, ht⟩ := (moves_discard kind what).of_ok h
  refine ⟨[t], hmoved, List.cons_ne_nil _ _, fun us rest hus => ?_⟩
  obtain ⟨t', rfl, hkind, -⟩ := exists_of_content_singleton hus
  exact (Reads.discard_expect (hkind.trans ht)).mono fun _ _ => rfl

theorem settles_typeArgs {inner : Grammar TypeExpr} (h : Repeats "" "" Eq inner inner)
    (hinner : Advances inner) (name : String) (budget : Nat) (args : Array TypeArg) :
    Settles (typeArgs inner name budget args) := by
  induction budget generalizing args with
  | zero => exact nofun
  | succ budget ih =>
    unfold typeArgs
    refine .bind (repeats_typeArg h hinner) fun arg => .bind (repeats_checkArguments _ _) fun _ => ?_
    refine .bind (repeats_eat _) fun comma => ?_
    cases comma with
    | true => exact ih _
    | false => exact (settles_discard _ _).pure_behind _

/-- The arguments of a type, behind the parenthesis that opens their list. -/
def typeArguments (room : Nat) (name : String) : Grammar TypeExpr := do
  if ← eat .closeParen then return .plain name
  else
    let limit := (Ceiling.steps .typeArguments).limit
    return .mk name (← typeArgs (typeExpr room) name limit #[]).toList

theorem moves_typeArguments (room : Nat) (name : String) (c : Cursor) :
    Moves c (typeArguments room name) fun _ => GroupEnd := by
  refine (moves_eat _).bind fun closed taken c₁ _ h => ?_
  obtain ⟨rfl, close, rfl, hclose⟩ | ⟨rfl, rfl⟩ := h
  · exact .pure (.single hclose)
  · refine (moves_typeArgs (takes_typeExpr room) _ _ _ c₁).bind fun args more c₂ _ h => .pure ?_
    rwa [List.append_nil]

theorem settles_typeArguments (room : Nat) (name : String) : Settles (typeArguments room name) := by
  intro c ty c₂ h
  obtain ⟨closed, c₁, hclosed, h⟩ := bind_eq_ok.1 h
  obtain ⟨taken, hmoved, ⟨rfl, close, rfl, hclose⟩ | ⟨rfl, rfl⟩⟩ := (moves_eat _).of_ok hclosed
  · cases h
    refine ⟨[close], hmoved, List.cons_ne_nil _ _, fun us rest hus => ?_⟩
    obtain ⟨close', rfl, hkind, -⟩ := exists_of_content_singleton hus
    refine (Reads.eat (hkind.trans hclose)).last_eq ?_
    exact .pure rfl
  · obtain ⟨hrepeats, hadvances⟩ := @repeats_typeExpr "" "" room
    have hargs : Settles (do
        let args ← typeArgs (typeExpr room) name (Ceiling.steps .typeArguments).limit #[]
        return TypeExpr.mk name args.toList) :=
      (settles_typeArgs hrepeats hadvances name _ #[]).pure_behind _
    obtain ⟨ts, hts, hne, hreads⟩ := hargs c₁ ty c₂ h
    obtain ⟨none, hnone, heat⟩ := (repeats_eat .closeParen).reads hclosed
    obtain rfl := hnone.eq hmoved
    refine ⟨ts, hmoved.trans hts, hne, fun us rest hus => ?_⟩
    have hnext : SameNext c₁.rest (us ++ rest) := by
      rw [hts.rest]
      exact SameNext.append_of_ne_nil hus.symm hne
    exact (heat [] _ rfl hnext).skip_eq (hreads us rest hus)

/-- What a type takes is an identifier, or ends with a parenthesis; and where none opens behind it,
it is read the same. -/
theorem reads_typeExpr_of_ok {room : Nat} {ty : TypeExpr} (h : typeExpr room c = .ok ty c₁) :
    ∃ taken, c.Moved taken c₁ ∧
      ((∃ t, taken = [t] ∧ t.isIdentifier = true) ∨
        ∃ t us close, taken = t :: us ++ [close] ∧ close.kind = .closeParen) ∧
      ∀ us rest, us.map Token.content = taken.map Token.content →
        rest.head?.any (·.kind == .openParen) = false →
          Reads False (typeExpr room) us rest (· = ty) := by
  cases room with
  | zero => contradiction
  | succ room =>
    obtain ⟨t, c₂, ht, h⟩ := bind_eq_ok.1 h
    obtain ⟨opened, c₃, hopened, h⟩ := bind_eq_ok.1 h
    obtain ⟨taken, hmoved, rfl, hidentifier⟩ := (moves_require _ _).of_ok ht
    have hread {t' : Token} (ht' : t'.content = t.content) {rest : List Token} :
        Reads False (require Token.isIdentifier .typeName) [t'] rest (· = t') := by
      refine Reads.require ?_
      rw [← hidentifier]
      exact OfContent.eq (fun _ _ _ _ => rfl) ht'
    obtain ⟨taken, hopen, ⟨rfl, o, rfl, ho⟩ | ⟨rfl, rfl⟩⟩ := (moves_eat _).of_ok hopened
    · replace h : typeArguments room (canonicalName t.text) c₃ = .ok ty c₁ := h
      obtain ⟨_, hclosed, inside, close, rfl, hclose, -⟩ := (moves_typeArguments _ _ c₃).of_ok h
      obtain ⟨_, hargs, -, hreads⟩ := settles_typeArguments room _ c₃ ty c₁ h
      obtain rfl := hargs.eq hclosed
      refine ⟨_, hmoved.trans (hopen.trans hargs), .inr ⟨t, o :: inside, close, rfl, hclose⟩,
        fun us rest hus _ => ?_⟩
      obtain ⟨t', _, rfl, ht', hus⟩ := List.map_eq_cons_iff.1 hus
      obtain ⟨o', us, rfl, ho', hus⟩ := List.map_eq_cons_iff.1 hus
      refine (hread ht').next_eq ?_
      refine (Reads.eat ((Prod.mk.inj ho').1.trans ho)).next_eq ?_
      rw [(Prod.mk.inj ht').2]
      exact hreads us rest hus
    · cases h
      refine ⟨[t], by simpa using hmoved.trans hopen, .inl ⟨t, rfl, hidentifier⟩,
        fun us rest hus hrest => ?_⟩
      obtain ⟨t', rfl, ht'⟩ := List.map_eq_singleton_iff.1 hus
      refine (hread ht').last_eq ?_
      refine (Reads.eat_not hrest).skip_eq ?_
      exact .pure (by rw [(Prod.mk.inj ht').2])

end Settles

end Grammar

/-- A column, and the first word of each option in its definition. -/
structure Definition where
  column : ColumnDecl
  options : List TokenKind

/-- The type of the column if the one that it is defined with is `ty`. -/
def Definition.typeOver (d : Definition) (ty : TypeExpr) : TypeExpr :=
  if .keyword .null ∈ d.options ∧ ty.name ≠ TypeExpr.nullableName then .nullable ty else ty

namespace Grammar

section Definitions

/-- Reads the options as `columnOptions` does, and keeps the first word of each. -/
def definitionOptions (source : String) :
    (budget : Nat) → (before : Definition) → Grammar Definition
  | 0, _ => exhausted .columnOptions
  | budget + 1, before => do
    let first? ← peek?
    match ← columnOption? source before.column with
    | some column =>
      definitionOptions source budget ⟨column, (first?.map Token.kind).toList ++ before.options⟩
    | none => return before

def definition (source : String) : Grammar Definition := do
  let name ← expectColumnName
  let mark ← get
  let type ← columnType
  let rawType := sourceText source ((← get).since mark)
  definitionOptions source (Ceiling.steps .columnOptions).limit
    ⟨⟨name, type, rawType, none, none, none⟩, []⟩

def definitionListEntry (source : String) (before : Array Definition) :
    Grammar (Array Definition) := do
  if startsEntry (← get).rest then
    discard (run (·.kind == .comma))
    return before
  else
    let all := before.push (← definition source)
    check .columnCount all.size
    return all

def definitionEntries (source : String) :
    (budget : Nat) → (before : Array Definition) → Grammar (Array Definition)
  | 0, _ => exhausted .columnList
  | budget + 1, before => do
    if ← eat .closeParen then return before
    let all ← definitionListEntry source before
    if ← eat .comma then definitionEntries source budget all
    else
      discard (expect .closeParen .columnListEnd)
      return all

def definitionList (source : String) : Grammar (List Definition) := do
  discard (expect .openParen .openParen)
  return (← definitionEntries source (Ceiling.steps .columnList).limit #[]).toList

/-- The definitions in the column list of a statement, none if it has no column list. -/
def definitions (source : String) : Grammar (List Definition) := do
  discard tableHeader
  if ← isAt .openParen then definitionList source else return []

theorem columnOptions_eq (budget : Nat) (before : Definition) :
    columnOptions source budget before.column =
      Definition.column <$> definitionOptions source budget before := by
  induction budget generalizing before with
  | zero => rfl
  | succ budget ih =>
    funext c
    change _ = (Definition.column <$> (do
      match ← columnOption? source before.column with
      | some column =>
        definitionOptions source budget ⟨column, (c.peek?.map Token.kind).toList ++ before.options⟩
      | none => return before)) c
    rw [columnOptions, map_bind]
    refine bind_congr_of_ok fun column? c₁ _ => ?_
    cases column? with
    | some column => exact congrFun (ih ⟨column, _⟩) c₁
    | none => rfl

theorem columnDef_eq : columnDef source = Definition.column <$> definition source := by
  simp only [columnDef, definition, map_bind, ← columnOptions_eq]

theorem columnListEntry_eq (before : Array Definition) :
    columnListEntry source (before.map Definition.column) =
      Array.map Definition.column <$> definitionListEntry source before := by
  rw [columnListEntry, definitionListEntry, map_bind]
  congr 1
  funext c
  split_ifs
  · rw [map_bind]
    rfl
  · rw [columnDef_eq, map_bind, bind_map_left]
    congr 1
    funext d
    simp [← Array.map_push]

theorem columnEntries_eq (budget : Nat) (before : Array Definition) :
    columnEntries source budget (before.map Definition.column) =
      Array.map Definition.column <$> definitionEntries source budget before := by
  induction budget generalizing before with
  | zero => rfl
  | succ budget ih =>
    rw [columnEntries, definitionEntries, map_bind]
    congr 1
    funext closed
    cases closed with
    | true => rfl
    | false =>
      simp only [Bool.false_eq_true, if_false, columnListEntry_eq, map_bind, bind_map_left]
      congr 1
      funext all
      congr 1
      funext comma
      cases comma with
      | true => exact ih all
      | false => simp

theorem columnList_eq : columnList source =
    List.map Definition.column <$> definitionList source := by
  rw [columnList, definitionList, map_bind]
  congr 1
  funext _
  have hentries := @columnEntries_eq source (Ceiling.steps .columnList).limit #[]
  rw [Array.map_empty] at hentries
  simp [hentries]

theorem Yields.peek {α : Type} {f : Option Token → Grammar α} {P : Option Token → α → Prop} {a : α}
    (hf : ∀ first?, Yields (f first?) (P first?)) (h : (peek? >>= f) c = .ok a c₁) :
    P c.peek? a := hf c.peek? c a c₁ h

/-- The spelled type of a column stays whatever its options are, and only `NULL` changes its type. -/
theorem columnOption?_eq_ok {column column' : ColumnDecl}
    (h : columnOption? source column c = .ok (some column') c₁) :
    column'.rawType = column.rawType ∧
      column'.type = if c.peek?.map Token.kind = some (.keyword .null) then column.admitNull.type
        else column.type := by
  have keep {first? : Option Token} {k : Keyword} (hkind : first?.map Token.kind = some (.keyword k))
      (hk : k ≠ .null) {after : ColumnDecl} (hraw : after.rawType = column.rawType)
      (htype : after.type = column.type) : ∀ column' ∈ some after,
        column'.rawType = column.rawType ∧ column'.type =
          if first?.map Token.kind = some (.keyword .null) then column.admitNull.type
          else column.type := by
    rintro _ ⟨⟩
    rw [hkind, if_neg (by simpa using hk)]
    exact ⟨hraw, htype⟩
  refine Yields.peek (P := fun first? column? => ∀ column' ∈ column?,
    column'.rawType = column.rawType ∧
      column'.type = if first?.map Token.kind = some (.keyword .null) then column.admitNull.type
        else column.type) (fun first? => ?_) h column' rfl
  split
  · next hkind =>
    refine .seq fun _ => .pure ?_
    rintro _ ⟨⟩
    rw [if_pos hkind]
    refine ⟨?_, rfl⟩
    unfold ColumnDecl.admitNull
    split_ifs <;> rfl
  · next hkind => exact .seq fun _ => .seq fun _ => .pure (keep hkind nofun rfl rfl)
  · next hkind => exact .seq fun _ => .seq fun _ => .pure (keep hkind nofun rfl rfl)
  · next hkind => exact .seq fun _ => .seq fun _ => .pure (keep hkind nofun rfl rfl)
  · next hkind => exact .seq fun _ => .seq fun _ => .pure (keep hkind nofun rfl rfl)
  · next hkind => exact .seq fun _ => .seq fun _ => .pure (keep hkind nofun rfl rfl)
  · next k hnull _ _ _ _ _ hkind =>
    split
    · exact .seq fun _ => .seq fun _ => .pure (keep hkind hnull rfl rfl)
    · exact .pure nofun
  · exact .pure nofun

theorem typeOver_cons {column column' : ColumnDecl} {options : List TokenKind}
    {first? : Option TokenKind} {ty : TypeExpr}
    (h : column.type = Definition.typeOver ⟨column, options⟩ ty)
    (htype : column'.type = if first? = some (.keyword .null) then column.admitNull.type
      else column.type) :
    column'.type = Definition.typeOver ⟨column', first?.toList ++ options⟩ ty := by
  have hadmit : column.admitNull.type =
      if column.type.name = TypeExpr.nullableName then column.type
      else .nullable column.type := by
    unfold ColumnDecl.admitNull
    simp only [beq_iff_eq]
    split_ifs <;> rfl
  have hnullable : ty.nullable.name = TypeExpr.nullableName := rfl
  unfold Definition.typeOver at h ⊢
  dsimp only at h ⊢
  by_cases hnull : first? = some (.keyword .null)
  · rw [htype, if_pos hnull, hadmit, h, hnull]
    by_cases hname : ty.name = TypeExpr.nullableName
    · simp [hname]
    · by_cases hbefore : .keyword .null ∈ options <;> simp [hname, hbefore, hnullable]
  · have hmem : .keyword .null ∈ first?.toList ++ options ↔ .keyword .null ∈ options := by
      rw [List.mem_append, Option.mem_toList, or_iff_right hnull]
    rw [htype, if_neg hnull, h]
    simp only [hmem]

theorem definitionOptions_eq_ok (ty : TypeExpr) {budget : Nat} {before d : Definition}
    (h : definitionOptions source budget before c = .ok d c₁)
    (htype : before.column.type = before.typeOver ty) :
    d.column.rawType = before.column.rawType ∧ d.column.type = d.typeOver ty := by
  induction budget generalizing before c with
  | zero => contradiction
  | succ budget ih =>
    obtain ⟨first?, c₂, hfirst, h⟩ := bind_eq_ok.1 h
    obtain ⟨column?, c₃, hcolumn, h⟩ := bind_eq_ok.1 h
    cases hfirst
    cases column? with
    | none =>
      cases h
      exact ⟨rfl, htype⟩
    | some column =>
      obtain ⟨hraw, hcolumn⟩ := columnOption?_eq_ok hcolumn
      obtain ⟨hraw', hd⟩ := ih h (typeOver_cons htype hcolumn)
      exact ⟨hraw'.trans hraw, hd⟩

theorem map_eq_ok {α β : Type} {f : α → β} {g : Grammar α} {b : β} :
    (f <$> g) c = .ok b c₁ ↔ ∃ a, g c = .ok a c₁ ∧ f a = b := by
  rw [← bind_pure_comp, bind_eq_ok]
  constructor
  · rintro ⟨a, _, ha, ⟨⟩⟩
    exact ⟨a, ha, rfl⟩
  · rintro ⟨a, ha, rfl⟩
    exact ⟨a, c₁, ha, rfl⟩

/-- A definition is a name, a type, of which it shows the text, and options. -/
theorem exists_type_of_definition {d : Definition} (h : definition source c = .ok d c₂) :
    ∃ name ts options ty c₀ c₁, c.Moved name c₀ ∧ c₀.Moved ts c₁ ∧ c₁.Moved options c₂ ∧
      columnType c₀ = .ok ty c₁ ∧ d.column.rawType = sourceText source ts ∧
      d.column.type = d.typeOver ty := by
  obtain ⟨name, c₀, hname, h⟩ := bind_eq_ok.1 h
  obtain ⟨_, _, ⟨⟩, h⟩ := bind_eq_ok.1 h
  obtain ⟨ty, c₁, hty, h⟩ := bind_eq_ok.1 h
  obtain ⟨_, _, ⟨⟩, h⟩ := bind_eq_ok.1 h
  obtain ⟨t, ht, -⟩ := map_eq_ok.1 hname
  obtain ⟨_, hmoved, -⟩ := (moves_require _ _).of_ok ht
  obtain ⟨ts, hts, -⟩ := (takes_typeExpr maxTypeDepth c₀).of_ok hty
  obtain ⟨hraw, htype⟩ := definitionOptions_eq_ok ty h (by simp [Definition.typeOver])
  obtain ⟨options, hoptions, -⟩ := (takes_columnOptions _ _ c₁).of_ok
    ((congrFun (columnOptions_eq _ _) c₁).trans (map_eq_ok.2 ⟨d, h, rfl⟩))
  rw [hts.since] at hraw
  exact ⟨_, ts, options, ty, c₀, c₁, hmoved, hts, hoptions, hty, hraw, htype⟩

theorem definitionListEntry_eq_ok {before all : Array Definition}
    (h : definitionListEntry source before c = .ok all c₁) :
    all = before ∨ ∃ d, all = before.push d ∧ definition source c = .ok d c₁ := by
  obtain ⟨_, _, ⟨⟩, h⟩ := bind_eq_ok.1 h
  split_ifs at h
  · obtain ⟨_, _, -, h⟩ := bind_eq_ok.1 h
    cases h
    exact .inl rfl
  · obtain ⟨d, c₂, hd, h⟩ := bind_eq_ok.1 h
    obtain ⟨_, c₃, hcheck, h⟩ := bind_eq_ok.1 h
    obtain ⟨_, hmoved, rfl⟩ := Moves.check.of_ok hcheck
    cases h
    exact .inr ⟨d, rfl, hmoved.eq_of_nil ▸ hd⟩

/-- Each definition of a list is read at a place in it, and something stands behind it. -/
theorem exists_place_of_definition (budget : Nat) {before all : Array Definition}
    (h : definitionEntries source budget before c = .ok all c₂) :
    ∀ d ∈ all, d ∈ before ∨ ∃ c₀ c₁, c₀.rest <:+ c.rest ∧ definition source c₀ = .ok d c₁ ∧
      c₁.rest ≠ [] := by
  induction budget generalizing before c with
  | zero => contradiction
  | succ budget ih =>
    obtain ⟨closed, c₀, hclosed, h⟩ := bind_eq_ok.1 h
    obtain ⟨front, hfront, ⟨rfl, -⟩ | ⟨rfl, rfl⟩⟩ := (moves_eat _).of_ok hclosed
    · cases h
      exact fun d hd => .inl hd
    obtain ⟨more, c₁, hmore, h⟩ := bind_eq_ok.1 h
    obtain ⟨comma, c₃, hcomma, h⟩ := bind_eq_ok.1 h
    obtain ⟨entry, hentry, -⟩ := (takes_columnListEntry _ c₀).of_ok
      ((congrFun (columnListEntry_eq before) c₀).trans (map_eq_ok.2 ⟨more, hmore, rfl⟩))
    have hstart : c₀.rest <:+ c.rest := ⟨_, hfront.rest.symm⟩
    -- what stands behind the entry is the comma, or the parenthesis that ends the list
    have hread (hbehind : c₁.rest ≠ []) : ∀ d ∈ more, d ∈ before ∨ ∃ c₀ c₁, c₀.rest <:+ c.rest ∧
        definition source c₀ = .ok d c₁ ∧ c₁.rest ≠ [] := by
      obtain rfl | ⟨d, rfl, hd⟩ := definitionListEntry_eq_ok hmore
      · exact fun d hd => .inl hd
      · intro d' hd'
        obtain hd' | rfl := Array.mem_push.1 hd'
        · exact .inl hd'
        · exact .inr ⟨c₀, c₁, hstart, hd, hbehind⟩
    obtain ⟨_, hmoved, ⟨rfl, t, rfl, -⟩ | ⟨rfl, rfl⟩⟩ := (moves_eat _).of_ok hcomma
    · have hbehind : c₁.rest ≠ [] := by simp [hmoved.rest]
      intro d hd
      obtain hd | ⟨c₄, c₅, hplace, hd⟩ := ih h d hd
      · exact hread hbehind d hd
      · have hsuffix : c₃.rest <:+ c.rest :=
          ⟨_, ((hfront.trans hentry).trans hmoved).rest.symm⟩
        exact .inr ⟨c₄, c₅, hplace.trans hsuffix, hd⟩
    · obtain ⟨_, c₄, hclose, h⟩ := bind_eq_ok.1 h
      obtain ⟨_, hlast, t, rfl, -⟩ := (moves_discard _ _).of_ok hclose
      cases h
      exact hread (by simp [hmoved.rest, hlast.rest])

/-- The definitions of a list are read at places in it. -/
theorem places_of_definitionList {defs : List Definition}
    (h : definitionList source c = .ok defs c₂) :
    ∀ d ∈ defs, ∃ c₀ c₁, c₀.rest <:+ c.rest ∧ definition source c₀ = .ok d c₁ ∧ c₁.rest ≠ [] := by
  obtain ⟨_, c₀, hopen, h⟩ := bind_eq_ok.1 h
  obtain ⟨all, c₁, hall, h⟩ := bind_eq_ok.1 h
  obtain ⟨_, hmoved, -⟩ := (moves_discard _ _).of_ok hopen
  cases h
  intro d hd
  obtain hd | ⟨c₃, c₄, hplace, hd⟩ :=
    exists_place_of_definition _ hall d (Array.mem_toList_iff.1 hd)
  · simp at hd
  · exact ⟨c₃, c₄, hplace.trans ⟨_, hmoved.rest.symm⟩, hd⟩

/-- The columns of a statement are those of its definitions, if there are any. -/
theorem exists_definitions {table : TableDecl} (h : statement source c = .ok table c₂) :
    ∃ defs c₁, definitions source c = .ok defs c₁ ∧
      (defs ≠ [] → table.columns = defs.map Definition.column) ∧
      ∀ d ∈ defs, ∃ c₀ c₁, c₀.rest <:+ c.rest ∧ definition source c₀ = .ok d c₁ ∧
        c₁.rest ≠ [] := by
  obtain ⟨header, c₀, hheader, h⟩ := bind_eq_ok.1 h
  obtain ⟨opened, _, ⟨⟩, h⟩ := bind_eq_ok.1 h
  have hdiscard : discard tableHeader c = .ok () c₀ := map_eq_ok.2 ⟨header, hheader, rfl⟩
  cases hopened : c₀.rest[0]?.any (·.kind == .openParen) with
  | false =>
    refine ⟨[], c₀, bind_eq_ok.2 ⟨(), c₀, hdiscard, bind_eq_ok.2 ⟨_, c₀, rfl, ?_⟩⟩, nofun, nofun⟩
    rw [hopened]
    rfl
  | true =>
    rw [hopened] at h
    obtain ⟨columns, c₁, hcolumns, h⟩ := bind_eq_ok.1 h
    rw [columnList_eq] at hcolumns
    obtain ⟨defs, hdefs, rfl⟩ := map_eq_ok.1 hcolumns
    obtain ⟨read, c₃, hread, h⟩ := bind_eq_ok.1 h
    have hstay : Continues { header with columns := defs.map Definition.column } read :=
      yields_tableClauses _ _ c₁ read c₃ hread
    have hforward : Forward tableHeader := (@repeats_tableHeader "" "").forward
    obtain ⟨_, hplace⟩ := hforward c header c₀ hheader
    refine ⟨defs, c₁, bind_eq_ok.2 ⟨(), c₀, hdiscard, bind_eq_ok.2 ⟨_, c₀, rfl, ?_⟩⟩, fun hne => ?_,
      fun d hd => ?_⟩
    · rw [hopened]
      exact hdefs
    · have hcolumns : read.columns = defs.map Definition.column := hstay.stay (by simpa using hne)
      dsimp only at h
      split_ifs at h with hempty
      · obtain ⟨_, _, h, -⟩ := bind_eq_ok.1 h
        contradiction
      · cases h
        exact hcolumns
    · obtain ⟨c₃, c₄, hin, hd⟩ := places_of_definitionList hdefs d hd
      exact ⟨c₃, c₄, hin.trans ⟨_, hplace.rest.symm⟩, hd⟩

end Definitions

end Grammar

section Places

variable {table : TableDecl} {d : Definition}

/-- The text of a type in the place of the type of another column. -/
theorem readColumns?_of_definition (hc : c.rest <:+ tokenize source)
    (h : Grammar.definition source c = .ok d c₂) (hrest : c₂.rest ≠ []) :
    ∃ ty, readColumns? (columnText d.column.rawType) = some [("c", ty)] ∧
      d.column.type = d.typeOver ty := by
  obtain ⟨name, ts, options, ty, c₀, c₁, hname, hts, hoptions, hty, hraw, htype⟩ :=
    Grammar.exists_type_of_definition h
  obtain ⟨_, hmoved, hshape, hreads⟩ := Grammar.reads_typeExpr_of_ok hty
  rw [hmoved.eq hts] at hshape hreads
  obtain ⟨pre, hpre⟩ := hc
  obtain ⟨u, after, hafter⟩ : ∃ u after, c₁.rest = u :: after :=
    List.exists_cons_of_ne_nil (by simp [hoptions.rest, hrest])
  have htokens : tokenize source = (pre ++ name) ++ (ts ++ u :: after) := by
    rw [← hpre, hname.rest, hts.rest, hafter, List.append_assoc]
  have hwritten : Written d.column.rawType.toList (ts.map Token.content) := by
    rw [hraw]
    obtain ⟨t, rfl, ht⟩ | ⟨t, us, close, rfl, hclose⟩ := hshape
    · exact written_sourceText_single htokens ht
    · rw [List.append_assoc (t :: us), List.singleton_append] at htokens
      exact written_sourceText_closed htokens hclose
  refine ⟨ty, readColumns?_columnText hwritten fun us rest hus hend => ?_, htype⟩
  exact hreads us rest hus (hend.not_kind (by decide))

/-- The text of a column's type, in the place of the type of another column, is read as the type that
the column was defined with: the column's own type is this one, or a `NULL` among the options has
made it nullable, which it does unless it is so already. -/
theorem readColumns?_rawType {c' : Cursor} (hc : c.rest <:+ tokenize source)
    (h : Grammar.statement source c = .ok table c') :
    ∃ defs c₁, Grammar.definitions source c = .ok defs c₁ ∧
      (defs ≠ [] → table.columns = defs.map Definition.column) ∧
      ∀ d ∈ defs, ∃ ty, readColumns? (columnText d.column.rawType) = some [("c", ty)] ∧
        d.column.type =
          if .keyword .null ∈ d.options ∧ ty.name ≠ TypeExpr.nullableName then .nullable ty
          else ty := by
  obtain ⟨defs, c₁, hdefs, hcolumns, hplaces⟩ := Grammar.exists_definitions h
  refine ⟨defs, c₁, hdefs, hcolumns, fun d hd => ?_⟩
  obtain ⟨c₂, c₃, hplace, hread, hrest⟩ := hplaces d hd
  exact readColumns?_of_definition (hplace.trans hc) hread hrest

/-- Types with comments and quoted names in them, and parentheses and quotes in quotes. -/
def commentedTypes : String :=
  "CREATE TABLE t (a \"uint8\" NULL, b Enum8('é)' = -1 -- )\n), c Nullable(/**/ Date) NULL)"

theorem readColumns?_rawType_commented : ∃ table c', Grammar.statement commentedTypes
      (.ofTokens (tokenize commentedTypes)) = .ok table c' ∧
    ∃ defs c₁, Grammar.definitions commentedTypes (.ofTokens (tokenize commentedTypes)) =
        .ok defs c₁ ∧
      (defs ≠ [] → table.columns = defs.map Definition.column) ∧
      ∀ d ∈ defs, ∃ ty, readColumns? (columnText d.column.rawType) = some [("c", ty)] ∧
        d.column.type =
          if .keyword .null ∈ d.options ∧ ty.name ≠ TypeExpr.nullableName then .nullable ty
          else ty := by
  have hread : (readColumns? commentedTypes).isSome = true := by decide +kernel
  obtain ⟨columns, hcolumns⟩ := Option.isSome_iff_exists.1 hread
  unfold readColumns? at hcolumns
  split at hcolumns
  · next table c' h => exact ⟨table, c', h, readColumns?_rawType (List.suffix_refl _) h⟩
  · contradiction

end Places

end TypedTables
