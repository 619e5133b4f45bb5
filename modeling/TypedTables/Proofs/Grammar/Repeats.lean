import TypedTables.Proofs.Grammar.Alike
import TypedTables.Proofs.Grammar.Clauses
import TypedTables.Proofs.Grammar.Reads

/-!
The rules of the grammar on the same tokens in another place: queries, types, column lists, and the
clauses of a table before its query.
-/

namespace TypedTables.Grammar

variable {source source' : String}

section Queries

variable {ts us expr : List Token} {t t' mark label : Token}

theorem isColumnReference_congr (h : ts.map Token.content = us.map Token.content) :
    isColumnReference ts = isColumnReference us := by
  induction ts using isColumnReference.induct generalizing us with
  | case1 =>
    rw [List.map_eq_nil_iff.1 h.symm]
  | case2 t =>
    obtain ⟨u, rfl⟩ := List.length_eq_one_iff.1 (by simpa using (congrArg List.length h).symm)
    exact ofContent_isName.eq (List.cons.inj h).1
  | case3 t dot rest ih =>
    cases us with
    | nil => contradiction
    | cons u us =>
      obtain ⟨ht, h⟩ := List.cons.inj h
      cases us with
      | nil => contradiction
      | cons dot' rest' =>
        obtain ⟨hdot, hrest⟩ := List.cons.inj h
        rw [isColumnReference, isColumnReference, ih hrest, ofContent_isName.eq ht,
          (ofContent_kind (· == .dot)).eq hdot]

theorem firstPlainIdentifier?_congr (h : ts.map Token.content = us.map Token.content) :
    firstPlainIdentifier? ts = firstPlainIdentifier? us := by
  induction ts generalizing us with
  | nil => rw [List.map_eq_nil_iff.1 h.symm]
  | cons t ts ih =>
    cases us with
    | nil => contradiction
    | cons u us =>
      obtain ⟨ht, hrest⟩ := List.cons.inj h
      have hnext : SameNext ts us := by
        rw [SameNext, ← List.head?_map, ← List.head?_map, hrest]
      have hqualifies : (ts.head?.any fun u => u.kind == .openParen || u.kind == .dot) =
          us.head?.any fun u => u.kind == .openParen || u.kind == .dot := by
        have hnil : Alike "" "" [] [] := .nil
        have hany := hnext.any_getElem? hnil (Nat.le_refl 0)
          (ofContent_kind fun kind => kind == .openParen || kind == .dot)
        simpa [List.head?_eq_getElem?] using hany
      have hidentifier : t.isIdentifier = u.isIdentifier :=
        OfContent.eq (fun _ _ _ _ => rfl) ht
      rw [firstPlainIdentifier?, firstPlainIdentifier?, ih hrest, hqualifies, hidentifier,
        (Prod.mk.inj ht).2]

theorem splitAlias_of_short (h : ts.length ≤ 2) : splitAlias ts = (ts, none) := by
  unfold splitAlias
  split
  · next label mark first rest heq =>
    have hlength := congrArg List.length heq
    simp only [List.length_reverse, List.length_cons] at hlength
    omega
  · rfl

/-- The expression of an item is as long as that of any item that says the same. -/
theorem splitAlias_congr (h : ts.map Token.content = us.map Token.content) :
    (splitAlias ts).2 = (splitAlias us).2 ∧
      ∃ n, (splitAlias ts).1 = ts.take n ∧ (splitAlias us).1 = us.take n := by
  have hlength : ts.length = us.length := by simpa using congrArg List.length h
  have hall : ∃ n, ts = ts.take n ∧ us = us.take n :=
    ⟨ts.length, List.take_length.symm, by rw [hlength, List.take_length]⟩
  by_cases hshort : ts.length ≤ 2
  · rw [splitAlias_of_short hshort, splitAlias_of_short (hlength ▸ hshort)]
    exact ⟨rfl, hall⟩
  · obtain ⟨expr, back, rfl, hback⟩ : ∃ expr back, ts = expr ++ back ∧ back.length = 2 :=
      ⟨ts.take (ts.length - 2), ts.drop (ts.length - 2), (List.take_append_drop _ _).symm, by
        rw [List.length_drop]
        omega⟩
    obtain ⟨mark, label, rfl⟩ := List.length_eq_two.1 hback
    rw [List.map_append] at h
    obtain ⟨expr', back', rfl, hexpr, hback⟩ := List.map_eq_append_iff.1 h.symm
    obtain ⟨mark', _, rfl, hmark, hback⟩ := List.map_eq_cons_iff.1 hback
    obtain ⟨label', _, rfl, hlabel, hback⟩ := List.map_eq_cons_iff.1 hback
    obtain rfl := List.map_eq_nil_iff.1 hback
    have hne : expr ≠ [] := by
      rintro rfl
      exact hshort (Nat.le_refl 2)
    have hne' : expr' ≠ [] := by
      rintro rfl
      exact hne (List.map_eq_nil_iff.1 hexpr.symm)
    have hsame : isAlias mark label = isAlias mark' label' :=
      (OfContent.eq (f := (isAlias · label)) (fun _ _ _ _ => rfl) hmark.symm).trans
        (OfContent.eq (f := isAlias mark') (fun _ _ _ _ => rfl) hlabel.symm)
    rw [splitAlias_concat hne, splitAlias_concat hne', hsame]
    split_ifs
    · refine ⟨congrArg some (Prod.mk.inj hlabel.symm).2, expr.length, List.take_left.symm, ?_⟩
      have hlength : expr'.length = expr.length := by simpa using congrArg List.length hexpr
      rw [← hlength, List.take_left]
    · exact ⟨rfl, hall⟩

/-- Items that differ in no more than their names, and there as `T` says. -/
structure SameItem (T : String → String → Prop) (x y : SelectItem) : Prop where
  alias? : x.alias? = y.alias?
  sourceColumn : x.sourceColumn = y.sourceColumn
  function : x.function = y.function
  name : x.name = y.name ∨ T x.name y.name

theorem SameItem.eq {x y : SelectItem} (h : SameItem Eq x y) : x = y := by
  obtain ⟨name, alias?, sourceColumn, function⟩ := x
  obtain ⟨rfl, rfl, rfl, rfl | rfl⟩ := h <;> rfl

/-- Only the name of an item that is not a plain reference is a text of the source. -/
theorem ofTokens?_congr {T : String → String → Prop}
    (h : ts.map Token.content = us.map Token.content)
    (hT : isColumnReference (splitAlias ts).1 = false →
      T (sourceText source (splitAlias ts).1) (sourceText source' (splitAlias us).1)) :
    Option.Rel (SameItem T) (SelectItem.ofTokens? source ts) (SelectItem.ofTokens? source' us) := by
  obtain ⟨halias, n, hts, hus⟩ := splitAlias_congr h
  have hcontents : (splitAlias ts).1.map Token.content = (splitAlias us).1.map Token.content := by
    rw [hts, hus, List.map_take, List.map_take, h]
  unfold SelectItem.ofTokens?
  generalize splitAlias ts = x at halias hcontents hT
  generalize splitAlias us = y at halias hcontents hT
  obtain ⟨expr, alias?⟩ := x
  obtain ⟨expr', alias?'⟩ := y
  obtain rfl : alias? = alias?' := halias
  have hplain := firstPlainIdentifier?_congr hcontents
  have hreference := isColumnReference_congr hcontents
  dsimp only at hcontents hT hplain hreference ⊢
  cases expr with
  | nil =>
    obtain rfl := List.map_eq_nil_iff.1 hcontents.symm
    exact .none
  | cons head expr =>
    obtain ⟨head', expr', rfl, hhead, hrest⟩ := List.map_eq_cons_iff.1 hcontents.symm
    cases expr with
    | nil =>
      obtain rfl := List.map_eq_nil_iff.1 hrest
      dsimp only
      rw [← (Prod.mk.inj hhead).1, ← (Prod.mk.inj hhead).2, ofContent_isName.eq hhead]
      split_ifs with hstar hname
      · exact .none
      · exact .some ⟨rfl, rfl, rfl, .inl rfl⟩
      · refine .some ⟨rfl, hplain, rfl, .inr (hT ?_)⟩
        rw [isColumnReference]
        simpa using hname
    | cons paren rest =>
      obtain ⟨paren', rest', rfl, hparen, hrest⟩ := List.map_eq_cons_iff.1 hrest
      have hlast : (head :: paren :: rest).getLast?.map Token.text =
          (head' :: paren' :: rest').getLast?.map Token.text := by
        have h := congrArg (fun contents => contents.getLast?.map Prod.snd) hcontents
        simp only [List.getLast?_map, Option.map_map] at h
        exact h
      dsimp only
      rw [hlast, ← hreference, ofContent_isName.eq hhead, (Prod.mk.inj hhead).2,
        (Prod.mk.inj hparen).1]
      split_ifs with hplainly hcall
      · exact .some ⟨rfl, rfl, rfl, .inl rfl⟩
      · have hargument := firstPlainIdentifier?_congr hrest.symm
        exact .some ⟨rfl, hargument, rfl, .inr (hT (by simpa using hplainly))⟩
      · exact .some ⟨rfl, hplain, rfl, .inr (hT (by simpa using hplainly))⟩

theorem ofTokens?_alike (h : Alike source source' ts us) :
    SelectItem.ofTokens? source ts = SelectItem.ofTokens? source' us := by
  obtain ⟨-, n, hts, hus⟩ := splitAlias_congr h.contents
  have hname : sourceText source (splitAlias ts).1 = sourceText source' (splitAlias us).1 := by
    rw [hts, hus]
    exact h.texts 0 n
  have hitem := ofTokens?_congr (T := Eq) h.contents fun _ => hname
  generalize SelectItem.ofTokens? source ts = x? at hitem ⊢
  generalize SelectItem.ofTokens? source' us = y? at hitem ⊢
  cases hitem with
  | none => rfl
  | some hitem => rw [hitem.eq]

theorem selectItems_succ (source : String) (budget : Nat) (items : List SelectItem) :
    selectItems source (budget + 1) items = do
      let (isEmpty, item?) ←
        (fun tokens => (tokens.isEmpty, SelectItem.ofTokens? source tokens)) <$>
          run fun t => t.kind == .comma || t.isKeyword .from
      if isEmpty then unexpected .emptyItem
      if ← eat .comma then selectItems source budget (item?.toList ++ items)
      else return (item?.toList ++ items).reverse := by
  rw [selectItems, map_eq_pure_bind, bind_assoc]
  rfl

theorem repeats_selectItems (budget : Nat) (items : List SelectItem) :
    Repeats source source' Eq (selectItems source budget items)
      (selectItems source' budget items) := by
  induction budget generalizing items with
  | zero => exact .exhausted
  | succ budget ih =>
    have hstop : OfContent fun t => t.kind == .comma || t.isKeyword .from := fun _ _ _ _ => rfl
    rw [selectItems_succ, selectItems_succ]
    refine Repeats.seq (((repeats_run hstop).mono fun tokens tokens' halike => ?_).map)
      fun (isEmpty, item?) => ?_
    · have hempty : tokens.isEmpty = tokens'.isEmpty := by
        rw [Bool.eq_iff_iff, List.isEmpty_iff_length_eq_zero, List.isEmpty_iff_length_eq_zero,
          halike.length_eq]
      rw [ofTokens?_alike halike, hempty]
    · dsimp only
      have hrest : Repeats source source' Eq
          (do
            if ← eat .comma then selectItems source budget (item?.toList ++ items)
            else return (item?.toList ++ items).reverse)
          (do
            if ← eat .comma then selectItems source' budget (item?.toList ++ items)
            else return (item?.toList ++ items).reverse) := by
        refine (repeats_eat .comma).seq fun comma => ?_
        cases comma with
        | true => exact ih _
        | false => exact .pure rfl
      cases isEmpty with
      | true => exact Repeats.seq .unexpected fun _ => hrest
      | false => exact hrest

theorem repeats_fromSource : Repeats source source' Eq fromSource fromSource := by
  refine .looksAt (ofContent_kind (· == .openParen)) fun paren => ?_
  cases paren with
  | true => exact repeats_skipBalanced.seq fun _ => .pure rfl
  | false => exact (repeats_qualifiedName _).seq fun _ => .pure rfl

theorem repeats_selectFrom :
    Repeats source source' Eq (selectFrom source) (selectFrom source') := by
  refine (repeats_expectKeyword _).seq fun _ => ?_
  refine (repeats_selectItems _ _).seq fun items => ?_
  refine (repeats_expectKeyword _).seq fun _ => ?_
  exact repeats_fromSource.seq fun _ => .pure rfl

end Queries

section Types

variable {α β : Type} {g : Grammar α} {f : α → Grammar β} {inner : Grammar TypeExpr}

/-- A step that takes tokens if it succeeds. -/
def Forward (g : Grammar α) : Prop := ∀ c a c₁, g c = .ok a c₁ → ∃ taken, c.Moved taken c₁

/-- A step that takes at least one token if it succeeds. -/
def Advances (g : Grammar α) : Prop :=
  ∀ c a c₁, g c = .ok a c₁ → ∃ taken, c.Moved taken c₁ ∧ taken ≠ []

theorem Repeats.forward {R : α → β → Prop} {g' : Grammar β} (h : Repeats source source' R g g') :
    Forward g := fun c a c₁ ha => by
  obtain ⟨taken, hmoved, -⟩ := h c a c₁ ha
  exact ⟨taken, hmoved⟩

theorem Forward.pure {a : α} : Forward (Pure.pure a) := fun c _ _ h => by
  cases h
  exact ⟨[], .refl c⟩

theorem advances_require (test : Token → Bool) (what : Expected) :
    Advances (require test what) := fun c t c₁ h => by
  obtain ⟨taken, hmoved, rfl, -⟩ := (moves_require test what).of_ok h
  exact ⟨[t], hmoved, List.cons_ne_nil _ _⟩

theorem Advances.bind (hg : Advances g) (hf : ∀ a, Forward (f a)) :
    Advances (g >>= f) := fun c b c₂ h => by
  obtain ⟨a, c₁, ha, hb⟩ := bind_eq_ok.1 h
  obtain ⟨taken, hmoved, hne⟩ := hg c a c₁ ha
  obtain ⟨more, hmore⟩ := hf a c₁ b c₂ hb
  exact ⟨taken ++ more, hmoved.trans hmore, by simp [hne]⟩

theorem Advances.behind (hg : Forward g) (hf : ∀ a, Advances (f a)) :
    Advances (g >>= f) := fun c b c₂ h => by
  obtain ⟨a, c₁, ha, hb⟩ := bind_eq_ok.1 h
  obtain ⟨taken, hmoved⟩ := hg c a c₁ ha
  obtain ⟨more, hmore, hne⟩ := hf a c₁ b c₂ hb
  exact ⟨taken ++ more, hmoved.trans hmore, by simp [hne]⟩

theorem forward_advance : Forward advance := fun c _ _ h => by
  cases h
  obtain ⟨position, rest⟩ := c
  cases rest with
  | nil => exact ⟨[], .refl _⟩
  | cons t rest => exact ⟨[t], rfl, rfl⟩

theorem ofContent_isMinus : OfContent isMinus := fun _ _ _ _ => rfl

theorem repeats_signedInteger : Repeats source source' Eq signedInteger signedInteger := by
  refine (repeats_accept? ofContent_isMinus).bind (fun minus => ⟨minus, rfl⟩)
    fun minus minus' hm => ?_
  refine (repeats_expect _ _).bind (fun t => ⟨t, rfl⟩) fun t t' ht => ?_
  have hminus : minus.isSome = minus'.isSome := by
    simpa using congrArg Option.isSome hm
  rw [(Prod.mk.inj ht).2, hminus]
  cases decimal? t'.text.toList with
  | some n => exact .pure rfl
  | none => exact .throw

/-- A type, behind the name of the element if it has one. -/
def namedType (inner : Grammar TypeExpr) (named : Bool) : Grammar TypeArg := do
  if named then advance
  return .type (← inner)

/-- An element name is told by the token behind it, at which the type begins or ends. -/
theorem repeats_namedType (h : Repeats source source' Eq inner inner) (hinner : Advances inner) :
    Repeats source source' Eq (do namedType inner (← looksAt 1 Token.isIdentifier))
      (do namedType inner (← looksAt 1 Token.isIdentifier)) := by
  have htype : Repeats source source' Eq (do return TypeArg.type (← inner))
      (do return TypeArg.type (← inner)) := h.seq fun _ => .pure rfl
  have hadvances : Advances (do return TypeArg.type (← inner)) := hinner.bind fun _ => .pure
  refine Repeats.look (fun ts => ts[1]?.any Token.isIdentifier) (namedType inner)
    (namedType inner) (T := (· ≠ [])) (fun named => ?_) (fun c a c₁ => ?_)
    fun ts us rest rest' hne halike hnext => ?_
  · cases named with
    | true => exact repeats_advance.seq fun _ => htype
    | false => exact htype
  · cases c.rest[1]?.any Token.isIdentifier with
    | true => exact Advances.behind forward_advance (fun _ => hadvances) c a c₁
    | false => exact hadvances c a c₁
  · exact hnext.any_getElem? halike (List.length_pos_iff.2 hne) fun _ _ _ _ => rfl

theorem repeats_typeArg (h : Repeats source source' Eq inner inner) (hinner : Advances inner) :
    Repeats source source' Eq (typeArg inner) (typeArg inner) := by
  refine .peek? fun t? t'? hcontent => ?_
  cases t? with
  | none => exact .unexpected
  | some t =>
    cases t'? with
    | none => contradiction
    | some t' =>
      have hcontent := Option.some.inj hcontent
      have hkind : t.kind = t'.kind := (Prod.mk.inj hcontent).1
      have htext : t.text = t'.text := (Prod.mk.inj hcontent).2
      dsimp only
      rw [hkind, htext, ofContent_isMinus.eq hcontent, ofContent_isName.eq hcontent]
      split_ifs
      · refine repeats_advance.seq fun _ => (repeats_eat _).seq fun equals => ?_
        cases equals with
        | true => exact repeats_signedInteger.seq fun _ => .pure rfl
        | false => exact .pure rfl
      · exact repeats_advance.seq fun _ => .pure rfl
      · refine repeats_advance.seq fun _ => ?_
        refine (repeats_expect _ _).bind (fun t => ⟨t, rfl⟩) fun number number' hnumber => ?_
        rw [(Prod.mk.inj hnumber).2]
        exact .pure rfl
      · exact repeats_namedType h hinner
      · exact .unexpected

theorem repeats_checkArguments (name : String) (args : Array TypeArg) :
    Repeats source source' Eq (checkArguments name args) (checkArguments name args) := by
  unfold checkArguments
  split
  · exact repeats_check _ _
  · exact .pure rfl

theorem repeats_typeArgs (h : Repeats source source' Eq inner inner) (hinner : Advances inner)
    (name : String) (budget : Nat) (args : Array TypeArg) :
    Repeats source source' Eq (typeArgs inner name budget args)
      (typeArgs inner name budget args) := by
  induction budget generalizing args with
  | zero => exact .exhausted
  | succ budget ih =>
    unfold typeArgs
    refine (repeats_typeArg h hinner).seq fun arg => ?_
    refine (repeats_checkArguments _ _).seq fun _ => (repeats_eat _).seq fun comma => ?_
    cases comma with
    | true => exact ih _
    | false => exact (repeats_discard _ _).seq fun _ => .pure rfl

/-- A type is read the same wherever it stands, and it is not empty. -/
theorem repeats_typeExpr (room : Nat) :
    Repeats source source' Eq (typeExpr room) (typeExpr room) ∧ Advances (typeExpr room) := by
  induction room with
  | zero => exact ⟨.throw, nofun⟩
  | succ room ih =>
    have hrest (name : String) : Repeats source source' Eq
        (do
          if ← eat .openParen then
            if ← eat .closeParen then return .plain name
            else
              let limit := (Ceiling.steps .typeArguments).limit
              return .mk name (← typeArgs (typeExpr room) name limit #[]).toList
          else return .plain name)
        (do
          if ← eat .openParen then
            if ← eat .closeParen then return TypeExpr.plain name
            else
              let limit := (Ceiling.steps .typeArguments).limit
              return .mk name (← typeArgs (typeExpr room) name limit #[]).toList
          else return .plain name) := by
      refine (repeats_eat _).seq fun opened => ?_
      cases opened with
      | false => exact .pure rfl
      | true =>
        refine (repeats_eat _).seq fun closed => ?_
        cases closed with
        | true => exact .pure rfl
        | false => exact (repeats_typeArgs ih.1 ih.2 _ _ _).seq fun _ => .pure rfl
    have hname : OfContent Token.isIdentifier := fun _ _ _ _ => rfl
    refine ⟨(repeats_require hname _).bind (fun t => ⟨t, rfl⟩) fun t t' ht => ?_, ?_⟩
    · rw [(Prod.mk.inj ht).2]
      exact hrest _
    · exact (advances_require _ _).bind fun t => (hrest _).forward

end Types

section Columns

theorem repeats_columnOption? (column : ColumnDecl) :
    Repeats source source' Eq (columnOption? source column) (columnOption? source' column) := by
  have hends : OfContent endsColumnOption := fun _ _ _ _ => rfl
  refine .peek? fun t? t'? hcontent => ?_
  have hkind : t?.map Token.kind = t'?.map Token.kind := by
    have h := congrArg (Option.map Prod.fst) hcontent
    rw [Option.map_map, Option.map_map] at h
    exact h
  rw [hkind]
  split
  · exact repeats_advance.seq fun _ => .pure rfl
  · exact repeats_advance.seq fun _ => (repeats_expectKeyword _).seq fun _ => .pure rfl
  · refine repeats_advance.seq fun _ => ?_
    exact (repeats_text (ofContent_kind (· == .string)) _).seq fun _ => .pure rfl
  · exact repeats_advance.seq fun _ => repeats_skipBalanced.seq fun _ => .pure rfl
  · exact repeats_advance.seq fun _ => (repeats_discard_run hends).seq fun _ => .pure rfl
  · exact repeats_advance.seq fun _ => (repeats_expectKeyword _).seq fun _ => .pure rfl
  · split
    · exact repeats_advance.seq fun _ => (repeats_captureExpression hends).seq fun _ => .pure rfl
    · exact .pure rfl
  · exact .pure rfl

theorem repeats_columnOptions (budget : Nat) (column : ColumnDecl) :
    Repeats source source' Eq (columnOptions source budget column)
      (columnOptions source' budget column) := by
  induction budget generalizing column with
  | zero => exact .exhausted
  | succ budget ih =>
    refine (repeats_columnOption? column).seq fun column? => ?_
    cases column? with
    | some column => exact ih column
    | none => exact .pure rfl

theorem repeats_columnDef : Repeats source source' Eq (columnDef source) (columnDef source') := by
  refine (repeats_text (fun _ _ _ _ => rfl) _).seq fun name => ?_
  refine Repeats.since
    (fun type ts => columnOptions source (Ceiling.steps .columnOptions).limit
      ⟨name, type, sourceText source ts, none, none, none⟩)
    (fun type ts => columnOptions source' (Ceiling.steps .columnOptions).limit
      ⟨name, type, sourceText source' ts, none, none, none⟩)
    (repeats_typeExpr maxTypeDepth).1 (fun type _ ts us htype halike => ?_) fun type ts =>
      (takes_columnOptions _ _).anything
  rw [← htype, halike.sourceText_eq]
  exact repeats_columnOptions _ _

theorem reachesType_congr {ts us rest rest' : List Token} {close close' : Token} {depth : Nat}
    (hcloses : Closes depth ts) (hclose : close.kind = .closeParen)
    (h : (ts ++ [close]).map Token.content = (us ++ [close']).map Token.content) :
    reachesType depth (ts ++ close :: rest) = reachesType depth (us ++ close' :: rest') := by
  induction ts generalizing us depth with
  | nil =>
    obtain rfl : depth = 0 := hcloses
    obtain rfl : us = [] := by
      have hlength := congrArg List.length h
      simpa using hlength
    have hclose' : close'.kind = .closeParen := by
      rw [← hclose, (Prod.mk.inj (List.cons.inj h).1).1]
    simp [reachesType, hclose, hclose']
  | cons t ts ih =>
    cases us with
    | nil =>
      have hlength := congrArg List.length h
      simp at hlength
    | cons u us =>
      obtain ⟨ht, hrest⟩ := List.cons.inj h
      rw [List.cons_append, List.cons_append, reachesType, reachesType, (Prod.mk.inj ht).1,
        (Prod.mk.inj ht).2, nest_eq ht, ih (nest_eq ht depth ▸ hcloses.2) hrest]

/-- In a list an entry is told by tokens before the end of the list, and perhaps the one behind. -/
theorem startsEntry_congr {ts us rest rest' : List Token} (hend : GroupEnd ts)
    (halike : Alike source source' ts us) (hnext : SameNext rest rest') :
    startsEntry (ts ++ rest) = startsEntry (us ++ rest') := by
  obtain ⟨inside, close, rfl, hclose, hcloses⟩ := hend
  cases inside with
  | nil =>
    obtain ⟨close', rfl, hcontent⟩ := halike.exists_single
    have hclose' : close'.kind = .closeParen := by rw [← hclose, (Prod.mk.inj hcontent).1]
    simp [startsEntry, hclose, hclose']
  | cons t inside =>
    obtain ⟨u, us, rfl, ht, hrest⟩ := halike.exists_cons
    obtain ⟨inside', last, rfl, -, hlast⟩ := hrest.exists_append
    obtain ⟨close', rfl, -⟩ := hlast.exists_single
    have hsecond {test : Token → Bool} (htest : OfContent test) :=
      hnext.any_getElem? hrest (n := 1) (by simp) htest
    rw [List.cons_append, List.cons_append, List.cons_append, startsEntry, startsEntry,
      ← (Prod.mk.inj ht).1]
    split
    · next hkind =>
      have hinside : Closes 0 inside := by
        have h := hcloses.2
        rwa [Token.nest, hkind] at h
      rw [List.append_assoc, List.append_assoc]
      exact reachesType_congr hinside hclose hrest.contents
    · exact hsecond fun _ _ _ _ => rfl
    · exact hsecond fun _ _ _ _ => rfl
    · rfl

/-- An entry of a column list, given whether it is passed over. -/
def entryGiven (source : String) (columns : Array ColumnDecl) (passed : Bool) :
    Grammar (Array ColumnDecl) :=
  if passed then do
    discard (run (·.kind == .comma))
    return columns
  else do
    let columns := columns.push (← columnDef source)
    check .columnCount columns.size
    return columns

theorem repeats_entryGiven (columns : Array ColumnDecl) (passed : Bool) :
    Repeats source source' Eq (entryGiven source columns passed)
      (entryGiven source' columns passed) := by
  cases passed with
  | true => exact (repeats_discard_run (ofContent_kind (· == .comma))).seq fun _ => .pure rfl
  | false =>
    exact repeats_columnDef.seq fun column => (repeats_check _ _).seq fun _ => .pure rfl

/-- What is left of a column list, given whether its first entry is passed over. -/
def entriesGiven (source : String) (budget : Nat) (columns : Array ColumnDecl) (passed : Bool) :
    Grammar (Array ColumnDecl) := do
  if ← eat .closeParen then return columns
  let columns ← entryGiven source columns passed
  if ← eat .comma then columnEntries source budget columns
  else
    discard (expect .closeParen .columnListEnd)
    return columns

theorem columnEntries_succ (budget : Nat) (columns : Array ColumnDecl) (c : Cursor) :
    columnEntries source (budget + 1) columns c =
      entriesGiven source budget columns (startsEntry c.rest) c := by
  rw [columnEntries, entriesGiven]
  refine bind_congr_of_ok fun closed c₁ hclosed => ?_
  obtain ⟨taken, hmoved, ⟨rfl, -⟩ | ⟨rfl, rfl⟩⟩ := (moves_eat _).of_ok hclosed
  · rfl
  · rw [hmoved.eq_of_nil]
    rfl

theorem repeats_columnEntries (budget : Nat) (columns : Array ColumnDecl) :
    Repeats source source' Eq (columnEntries source budget columns)
      (columnEntries source' budget columns) := by
  induction budget generalizing columns with
  | zero => exact .exhausted
  | succ budget ih =>
    have hgiven (passed : Bool) : Repeats source source' Eq
        (entriesGiven source budget columns passed)
        (entriesGiven source' budget columns passed) := by
      refine (repeats_eat _).seq fun closed => ?_
      cases closed with
      | true => exact .pure rfl
      | false =>
        refine (repeats_entryGiven columns passed).seq fun columns => ?_
        refine (repeats_eat _).seq fun comma => ?_
        cases comma with
        | true => exact ih columns
        | false => exact (repeats_discard _ _).seq fun _ => .pure rfl
    have hlook : Repeats source source' Eq
        (fun c => entriesGiven source budget columns (startsEntry c.rest) c)
        (fun c => entriesGiven source' budget columns (startsEntry c.rest) c) := by
      refine Repeats.look startsEntry _ _ (T := GroupEnd) hgiven (fun c a c₁ h => ?_)
        fun ts us rest rest' hend halike hnext => startsEntry_congr hend halike hnext
      rw [← columnEntries_succ] at h
      exact (moves_columnEntries _ _ c).of_ok h
    have heq (source : String) : columnEntries source (budget + 1) columns =
        fun c => entriesGiven source budget columns (startsEntry c.rest) c :=
      funext (columnEntries_succ budget columns)
    rw [heq, heq]
    exact hlook

theorem repeats_columnList :
    Repeats source source' Eq (columnList source) (columnList source') :=
  (repeats_discard _ _).seq fun _ => (repeats_columnEntries _ _).seq fun _ => .pure rfl

end Columns

section Header

theorem repeats_orReplace : Repeats source source' Eq orReplace orReplace := by
  refine (repeats_eat _).seq fun or => ?_
  cases or with
  | true => exact repeats_expectKeyword _
  | false => exact .pure rfl

theorem repeats_tableKind : Repeats source source' Eq tableKind tableKind := by
  refine (repeats_eat _).seq fun materialized => ?_
  cases materialized with
  | true => exact (repeats_expectKeyword _).seq fun _ => .pure rfl
  | false =>
    refine (repeats_eat _).seq fun table => ?_
    cases table with
    | true => exact .pure rfl
    | false =>
      refine .looksAt (ofContent_kind (· == .keyword .view)) fun view => ?_
      cases view <;> exact .unexpected

theorem repeats_ifNotExists : Repeats source source' Eq ifNotExists ifNotExists := by
  refine (repeats_eat _).seq fun found => ?_
  cases found with
  | true => exact (repeats_expectKeyword _).seq fun _ => repeats_expectKeyword _
  | false => exact .pure rfl

theorem repeats_onCluster : Repeats source source' Eq onCluster onCluster := by
  refine (repeats_eat _).seq fun on => ?_
  cases on with
  | false => exact .pure rfl
  | true =>
    refine (repeats_expectKeyword _).seq fun _ => ?_
    refine .looksAt (ofContent_kind (· == .string)) fun string => ?_
    cases string with
    | true => exact repeats_advance
    | false => exact ((repeats_expectName _).mono fun _ _ _ => rfl).map

theorem repeats_tableHeader : Repeats source source' Eq tableHeader tableHeader := by
  refine (repeats_expectKeyword _).seq fun _ => repeats_orReplace.seq fun _ => ?_
  refine Repeats.seq (((repeats_eat _).mono fun _ _ _ => rfl).map) fun _ => ?_
  refine repeats_tableKind.seq fun kind => repeats_ifNotExists.seq fun _ => ?_
  refine (repeats_qualifiedName _).seq fun (database, name) => repeats_onCluster.seq fun _ => ?_
  refine .looksAt (ofContent_kind (· == .keyword .to)) fun routed => ?_
  cases routed with
  | true => exact Repeats.seq (α := Unit) .unexpected fun _ => .pure rfl
  | false => exact .pure rfl

end Header

section Clauses

variable {table : TableDecl}

theorem ofContent_startsTableClause : OfContent startsTableClause := fun _ _ _ _ => rfl

theorem repeats_clauseExpression :
    Repeats source source' Eq (clauseExpression source) (clauseExpression source') :=
  repeats_captureExpression ofContent_startsTableClause

/-- Name and arguments of an engine, of which nothing is kept. -/
def engineTokens : Grammar Unit := do
  discard (expectName .engineName)
  if ← isAt .openParen then skipBalanced

theorem engine_eq (source : String) : engine source = (do
    let mark ← get
    engineTokens
    return sourceText source ((← get).since mark)) := by
  unfold engine engineTokens
  congr 1
  funext mark
  rw [bind_assoc]
  congr 1
  funext _
  rw [bind_assoc]
  congr 1
  funext opened
  cases opened <;> simp

theorem repeats_engineTokens : Repeats source source' Eq engineTokens engineTokens := by
  refine Repeats.seq (((repeats_expectName _).mono fun _ _ _ => rfl).map) fun _ => ?_
  refine .looksAt (ofContent_kind (· == .openParen)) fun opened => ?_
  cases opened with
  | true => exact repeats_skipBalanced
  | false => exact .pure rfl

theorem repeats_engine : Repeats source source' Eq (engine source) (engine source') := by
  rw [engine_eq, engine_eq]
  refine Repeats.since (fun _ ts => pure (sourceText source ts))
    (fun _ ts => pure (sourceText source' ts)) repeats_engineTokens
    (fun _ _ ts us _ halike => .pure halike.sourceText_eq) fun _ _ => .pure

/-- A clause before the query. -/
theorem repeats_tableClause {kind : TokenKind} (h : kind ≠ .keyword .as) :
    Repeats source source' Eq (tableClause source table kind) (tableClause source' table kind) := by
  have hequals : Repeats source source' Eq (discard (eat .equals)) (discard (eat .equals)) :=
    ((repeats_eat _).mono fun _ _ _ => rfl).map
  have hexpr : Repeats source source' Eq (discard (clauseExpression source))
      (discard (clauseExpression source')) :=
    (repeats_clauseExpression.mono fun _ _ _ => rfl).map
  unfold tableClause
  split
  · exact repeats_advance.seq fun _ => .pure rfl
  · exact repeats_advance.seq fun _ => hequals.seq fun _ => repeats_engine.seq fun _ => .pure rfl
  · exact repeats_advance.seq fun _ => (repeats_expectKeyword _).seq fun _ =>
      repeats_clauseExpression.seq fun _ => .pure rfl
  · exact repeats_advance.seq fun _ => (repeats_expectKeyword _).seq fun _ =>
      repeats_clauseExpression.seq fun _ => .pure rfl
  · exact repeats_advance.seq fun _ => (repeats_expectKeyword _).seq fun _ =>
      repeats_clauseExpression.seq fun _ => .pure rfl
  · exact repeats_advance.seq fun _ => (repeats_expectKeyword _).seq fun _ =>
      hexpr.seq fun _ => .pure rfl
  · exact repeats_advance.seq fun _ => hexpr.seq fun _ => .pure rfl
  · exact repeats_advance.seq fun _ => hexpr.seq fun _ => .pure rfl
  · exact repeats_advance.seq fun _ => hequals.seq fun _ =>
      (repeats_text (ofContent_kind (· == .string)) _).seq fun _ => .pure rfl
  · exact repeats_advance.seq fun _ => .pure rfl
  · contradiction
  · exact .unexpected

end Clauses

end TypedTables.Grammar
