import TypedTables.Proofs.Grammar.Clauses

/-!
Loops of the grammar advance. Each iteration takes a token, apart from the last one, so that a loop
with as many steps as there are tokens ahead is never the one to end the reading; and whatever a
step comes to, it leaves the cursor behind tokens that lay ahead.
-/

namespace TypedTables

/-- The steps of each loop. -/
def maxSteps : Nat := 100000

example (loop : Loop) : (Ceiling.steps loop).limit = maxSteps := rfl

/-- The ceilings on what is counted in a statement. -/
def countCeilings : List Ceiling := [.columnCount, .tupleArity, .enumMembers]

/-- The error is not about the steps of a loop. -/
def Error.OfCount (e : Error) : Prop := ∀ ceiling, e = .exceeded ceiling → ceiling ∈ countCeilings

theorem Error.ofCount_parse (cause : ParseError) : (Error.parse cause).OfCount := by
  rintro ceiling ⟨⟩

namespace Grammar

open Error (ofCount_parse)

variable {α β : Type} {room budget : Nat} {c : Cursor} {t : Token}

/-- What a step that started at `c` comes to: the cursor is behind tokens that lay ahead, and with
fewer than `room` of them no loop has come to the end of its steps. -/
def Arrives (room : Nat) (c : Cursor) (P : α → List Token → Prop) :
    EStateM.Result Error Cursor α → Prop
  | .ok a c₁ => ∃ taken, c.Moved taken c₁ ∧ P a taken
  | .error e c₁ => (∃ taken, c.Moved taken c₁) ∧ (c.rest.length < room → e.OfCount)

def ArrivesBy (room : Nat) (c : Cursor) (g : Grammar α) (P : α → List Token → Prop) : Prop :=
  Arrives room c P (g c)

/-- The step arrives, from wherever it starts. -/
def Proceeds (room : Nat) (g : Grammar α) : Prop := ∀ c, ArrivesBy room c g fun _ _ => True

section Rules

variable {P P' : α → List Token → Prop} {Q : β → List Token → Prop} {g : Grammar α}
  {f : α → Grammar β} {room' : Nat} {r : EStateM.Result Error Cursor α}

theorem Arrives.mono (h : Arrives room c P r) (hroom : room' ≤ room)
    (hP : ∀ a taken, P a taken → P' a taken) : Arrives room' c P' r := by
  cases r with
  | ok a c₁ =>
    obtain ⟨taken, hmoved, ha⟩ := h
    exact ⟨taken, hmoved, hP a taken ha⟩
  | error e c₁ => exact ⟨h.1, fun hlt => h.2 (Nat.lt_of_lt_of_le hlt hroom)⟩

/-- What comes behind taken tokens has fewer ahead of it. -/
theorem Arrives.behind {c₁ : Cursor} {taken : List Token} (hmoved : c.Moved taken c₁)
    (h : Arrives (room - taken.length) c₁ (fun a more => P a (taken ++ more)) r) :
    Arrives room c P r := by
  cases r with
  | ok a c₂ =>
    obtain ⟨more, hmore, ha⟩ := h
    exact ⟨taken ++ more, hmoved.trans hmore, ha⟩
  | error e c₂ =>
    obtain ⟨⟨more, hmore⟩, he⟩ := h
    refine ⟨⟨taken ++ more, hmoved.trans hmore⟩, fun hlt => he ?_⟩
    have hlength := congrArg List.length hmoved.rest
    rw [List.length_append] at hlength
    omega

namespace ArrivesBy

theorem mono (h : ArrivesBy room c g P) (hroom : room' ≤ room)
    (hP : ∀ a taken, P a taken → P' a taken) : ArrivesBy room' c g P' := Arrives.mono h hroom hP

theorem bind (hg : ArrivesBy room c g P) (hf : ∀ a taken c₁, c.Moved taken c₁ → P a taken →
    ArrivesBy (room - taken.length) c₁ (f a) fun b more => Q b (taken ++ more)) :
    ArrivesBy room c (g >>= f) Q := by
  change Arrives room c Q (EStateM.bind g f c)
  unfold EStateM.bind
  unfold ArrivesBy at hg
  cases hc : g c with
  | ok a c₁ =>
    rw [hc] at hg
    obtain ⟨taken, hmoved, ha⟩ := hg
    exact Arrives.behind hmoved (hf a taken c₁ hmoved ha)
  | error e c₁ =>
    rw [hc] at hg
    exact hg

theorem peek? {f : Option Token → Grammar β} (h : ArrivesBy room c (f c.peek?) Q) :
    ArrivesBy room c (Grammar.peek? >>= f) Q := h

theorem unexpected {fault : Fault} : ArrivesBy room c (Grammar.unexpected fault) P :=
  ⟨⟨[], .refl c⟩, fun _ => ofCount_parse _⟩

end ArrivesBy

end Rules

namespace Proceeds

variable {g : Grammar α} {f : α → Grammar β} {room' : Nat}

theorem mono (h : Proceeds room g) (hroom : room' ≤ room) : Proceeds room' g := fun c =>
  (h c).mono hroom fun _ _ _ => trivial

/-- Tokens that have been taken are room that is not needed any more. -/
theorem less (h : Proceeds room g) (n : Nat) : Proceeds (room - n) g := h.mono (Nat.sub_le room n)

theorem pure {a : α} : Proceeds room (pure a : Grammar α) := fun c => ⟨[], .refl c, trivial⟩

theorem throw {e : Error} (h : e.OfCount) : Proceeds room (throw e : Grammar α) := fun c =>
  ⟨⟨[], .refl c⟩, fun _ => h⟩

/-- Where there is nothing ahead a loop needs no step. -/
theorem exhausted {loop : Loop} : Proceeds 0 (exhausted loop : Grammar α) := fun c =>
  ⟨⟨[], .refl c⟩, nofun⟩

theorem unexpected {fault : Fault} : Proceeds room (unexpected fault : Grammar α) :=
  fun _ => .unexpected

theorem bind (hg : Proceeds room g) (hf : ∀ a, Proceeds room (f a)) : Proceeds room (g >>= f) :=
  fun c => (hg c).bind fun a taken c₁ _ _ => (hf a).less taken.length c₁

theorem map {f : α → β} (h : Proceeds room g) : Proceeds room (f <$> g) := by
  rw [← bind_pure_comp]
  exact h.bind fun _ => .pure

theorem discard (h : Proceeds room g) : Proceeds room (discard g) := h.map

theorem get {f : Cursor → Grammar β} (h : ∀ c, Proceeds room (f c)) :
    Proceeds room (MonadState.get >>= f) := fun c => h c c

theorem looksAt {n : Nat} {test : Token → Bool} {f : Bool → Grammar β}
    (h : ∀ found, Proceeds room (f found)) : Proceeds room (Grammar.looksAt n test >>= f) :=
  fun c => h _ c

theorem peek? {f : Option Token → Grammar β} (h : ∀ t?, Proceeds room (f t?)) :
    Proceeds room (Grammar.peek? >>= f) := fun c => h _ c

theorem check {ceiling : Ceiling} {value : Nat} (h : ceiling ∈ countCeilings) :
    Proceeds room (check ceiling value) := by
  intro c
  unfold ArrivesBy Grammar.check
  cases hcheck : ceiling.check value with
  | ok => exact ⟨[], .refl c, trivial⟩
  | error e =>
    obtain ⟨-, rfl⟩ := Ceiling.check_eq_error.1 hcheck
    refine ⟨⟨[], .refl c⟩, fun _ ceiling' heq => ?_⟩
    cases heq
    exact h

theorem accept? {test : Token → Bool} : Proceeds room (accept? test) := by
  intro c
  unfold ArrivesBy Grammar.accept?
  split
  · next t rest hrest =>
    split
    · exact ⟨[t], ⟨hrest, rfl⟩, trivial⟩
    · exact ⟨[], .refl c, trivial⟩
  · exact ⟨[], .refl c, trivial⟩

theorem require {test : Token → Bool} {what : Expected} : Proceeds room (require test what) := by
  refine accept?.bind fun t? => ?_
  cases t? with
  | some t => exact .pure
  | none => exact .unexpected

theorem expectKeyword {k : Keyword} : Proceeds room (expectKeyword k) := .discard .require

theorem expectName {what : Expected} : Proceeds room (expectName what) := .map .require

theorem eat {kind : TokenKind} : Proceeds room (eat kind) := .map .accept?

/-- What the tokens taken say is known from elsewhere. -/
theorem arrivesBy (hg : Proceeds room g) {P : α → List Token → Prop} (h : Moves c g P) :
    ArrivesBy room c g P := by
  have hg := hg c
  unfold ArrivesBy at hg ⊢
  cases hc : g c with
  | ok a c₁ => exact h.of_ok hc
  | error e c₁ =>
    rw [hc] at hg
    exact hg

/-- A token that is eaten is one less ahead. -/
theorem eat_then {kind : TokenKind} {f : Bool → Grammar β} (hyes : Proceeds (room - 1) (f true))
    (hno : Proceeds room (f false)) : Proceeds room (Grammar.eat kind >>= f) := by
  intro c
  refine (eat.arrivesBy (moves_eat kind)).bind fun eaten taken c₁ _ h => ?_
  obtain ⟨rfl, t, rfl, -⟩ | ⟨rfl, rfl⟩ := h
  · exact hyes c₁
  · exact hno c₁

end Proceeds

/-- A token that has been looked at is taken. -/
theorem arrivesBy_advance {f : Unit → Grammar β} (hpeek : c.peek? = some t)
    (hf : Proceeds room (f ())) : ArrivesBy room c (advance >>= f) fun _ taken => taken ≠ [] := by
  refine Arrives.behind (Cursor.moved_next hpeek) ((hf c.next).mono (Nat.sub_le room _) ?_)
  exact fun _ _ _ => List.cons_ne_nil _ _

theorem proceeds_advance : Proceeds room advance := by
  rintro ⟨position, rest⟩
  cases rest with
  | nil => exact ⟨[], .refl _, trivial⟩
  | cons t rest => exact ⟨[t], ⟨rfl, rfl⟩, trivial⟩

theorem proceeds_finish : Proceeds room (modify Cursor.finish) := fun c =>
  ⟨c.rest, c.moved_finish, trivial⟩

section Runs

variable {stop : Token → Bool}

/-- Behind one token. -/
theorem Arrives.cons {P : α → List Token → Prop} {position : Nat} {rest : List Token}
    {r : EStateM.Result Error Cursor α}
    (h : Arrives room ⟨position + 1, rest⟩ (fun a more => P a (t :: more)) r) :
    Arrives (room + 1) ⟨position, t :: rest⟩ P r :=
  .behind (Cursor.moved_cons position t rest) h

theorem arrives_skipRun (budget depth position : Nat) (tokens : List Token) :
    Arrives (budget + 1) ⟨position, tokens⟩ (fun _ _ => True)
      (skipRun stop budget depth position tokens) := by
  fun_induction skipRun stop budget depth position tokens with
  | case1 => exact ⟨[], .refl _, trivial⟩
  | case2 depth position t rest =>
    exact ⟨⟨[], .refl _⟩, fun hlt => absurd hlt (by simp)⟩
  | case3 => exact ⟨[], .refl _, trivial⟩
  | case4 depth position t rest budget h ih => exact ih.cons

theorem proceeds_run (stop : Token → Bool) : Proceeds maxSteps (run stop) := by
  refine .get fun mark => ?_
  refine .bind (g := fun c => skipRun stop _ 0 c.position c.rest)
    (fun c => (arrives_skipRun _ 0 c.position c.rest).mono (Nat.le_succ _) fun _ _ h => h)
    fun opened => ?_
  dsimp only
  split
  · exact .bind (.throw (ofCount_parse _)) fun _ => .get fun c => .pure
  · exact .get fun c => .pure

theorem proceeds_captureExpression (source : String) (stop : Token → Bool) :
    Proceeds maxSteps (captureExpression source stop) := by
  refine (proceeds_run stop).bind fun tokens => ?_
  split <;> exact .pure

theorem arrives_skipGroup (budget depth position : Nat) (tokens : List Token) :
    Arrives (budget + 1) ⟨position, tokens⟩ (fun _ _ => True)
      (skipGroup budget depth position tokens) := by
  fun_induction skipGroup budget depth position tokens with
  | case1 => exact ⟨⟨[], .refl _⟩, fun _ => ofCount_parse _⟩
  | case2 depth position t rest =>
    exact ⟨⟨[t], ⟨rfl, rfl⟩⟩, fun hlt => absurd hlt (by simp)⟩
  | case3 depth position t rest => exact ⟨[t], ⟨rfl, rfl⟩, trivial⟩
  | case4 depth position t rest budget h ih => exact ih.cons

theorem proceeds_skipToClose : Proceeds maxSteps skipToClose := fun c =>
  (arrives_skipGroup _ 0 c.position c.rest).mono (Nat.le_succ _) fun _ _ h => h

theorem proceeds_skipBalanced : Proceeds maxSteps skipBalanced :=
  .bind (.discard .require) fun _ => proceeds_skipToClose

end Runs

section Names

variable {what : Expected}

theorem proceeds_qualifiers (budget : Nat) (parts : List String) :
    Proceeds budget (qualifiers what budget parts) := by
  induction budget generalizing parts with
  | zero =>
    unfold qualifiers
    exact .eat_then .exhausted .pure
  | succ budget ih =>
    unfold qualifiers
    exact .eat_then (Proceeds.expectName.bind fun _ => ih _) .pure

theorem proceeds_qualifiedName : Proceeds maxSteps (qualifiedName what) := by
  refine Proceeds.expectName.bind fun first => ?_
  refine (proceeds_qualifiers _ _).bind fun parts => ?_
  split <;> exact .pure

end Names

section Types

variable {inner : Grammar TypeExpr}

theorem proceeds_signedInteger : Proceeds room signedInteger := by
  refine Proceeds.accept?.bind fun minus => Proceeds.require.bind fun t => ?_
  split
  · split <;> exact .pure
  · exact .throw (ofCount_parse _)

theorem proceeds_typeArg (h : Proceeds room inner) : Proceeds room (typeArg inner) := by
  refine .peek? fun t? => ?_
  cases t? with
  | none => exact .unexpected
  | some t =>
    dsimp only
    split_ifs with hstring hnumber hminus hname
    · refine proceeds_advance.bind fun _ => Proceeds.eat.bind fun equals => ?_
      split
      · exact proceeds_signedInteger.bind fun _ => .pure
      · exact .pure
    · exact proceeds_advance.bind fun _ => .pure
    · exact proceeds_advance.bind fun _ => Proceeds.require.bind fun _ => .pure
    · have htype : Proceeds room (do return TypeArg.type (← inner)) := h.bind fun _ => .pure
      refine .looksAt fun named => ?_
      split
      · exact proceeds_advance.bind fun _ => htype
      · exact htype
    · exact .unexpected

theorem proceeds_checkArguments (name : String) (args : Array TypeArg) :
    Proceeds room (checkArguments name args) := by
  unfold checkArguments
  split
  · next ceiling hceiling =>
    refine .check ?_
    unfold argumentCeiling? at hceiling
    split_ifs at hceiling <;> cases hceiling <;> decide
  · exact .pure

theorem proceeds_typeArgs (h : Proceeds maxSteps inner) (name : String) {budget : Nat}
    (hbudget : budget ≤ maxSteps) (args : Array TypeArg) :
    Proceeds budget (typeArgs inner name budget args) := by
  induction budget generalizing args with
  | zero => exact .exhausted
  | succ budget ih =>
    refine (proceeds_typeArg (h.mono hbudget)).bind fun arg => ?_
    refine (proceeds_checkArguments _ _).bind fun _ => ?_
    refine .eat_then (ih (Nat.le_of_succ_le hbudget) _) ?_
    exact .bind (.discard .require) fun _ => .pure

theorem proceeds_typeExpr (room : Nat) : Proceeds maxSteps (typeExpr room) := by
  induction room with
  | zero => exact .throw nofun
  | succ room ih =>
    refine Proceeds.require.bind fun t => .eat_then (.less ?_ 1) .pure
    refine .eat_then (.less .pure 1) ?_
    exact (proceeds_typeArgs ih _ (Nat.le_refl _) _).bind fun _ => .pure

end Types

section Columns

variable {source : String}

/-- An option that is there takes a token at least. -/
theorem arrivesBy_columnOption? (column : ColumnDecl) (c : Cursor) :
    ArrivesBy maxSteps c (columnOption? source column) fun column? taken =>
      column?.isSome = true → taken ≠ [] := by
  have hnone : ArrivesBy maxSteps c (pure none : Grammar (Option ColumnDecl)) fun column? taken =>
      column?.isSome = true → taken ≠ [] := ⟨[], .refl c, nofun⟩
  refine .peek? ?_
  cases hpeek : c.peek? with
  | none => exact hnone
  | some t =>
    rw [Option.map_some]
    cases hkind : t.kind with
    | keyword k =>
      have htake {f : Unit → Grammar (Option ColumnDecl)} (hf : Proceeds maxSteps (f ())) :
          ArrivesBy maxSteps c (advance >>= f) fun column? taken =>
            column?.isSome = true → taken ≠ [] :=
        (arrivesBy_advance hpeek hf).mono (Nat.le_refl _) fun _ _ h _ => h
      cases k with
      | null => exact htake .pure
      | not => exact htake (Proceeds.expectKeyword.bind fun _ => .pure)
      | comment => exact htake (.bind (.map .require) fun _ => .pure)
      | codec => exact htake (proceeds_skipBalanced.bind fun _ => .pure)
      | ttl => exact htake ((proceeds_run _).discard.bind fun _ => .pure)
      | primary => exact htake (Proceeds.expectKeyword.bind fun _ => .pure)
      | default | materialized | ephemeral | «alias» =>
        exact htake ((proceeds_captureExpression source _).bind fun _ => .pure)
      | _ => exact hnone
    | _ => exact hnone

theorem proceeds_columnOptions {budget : Nat} (hbudget : budget ≤ maxSteps) (column : ColumnDecl) :
    Proceeds budget (columnOptions source budget column) := by
  induction budget generalizing column with
  | zero => exact .exhausted
  | succ budget ih =>
    intro c
    refine ((arrivesBy_columnOption? column c).mono hbudget fun _ _ h => h).bind
      fun column? taken c₁ _ h => ?_
    cases column? with
    | none => exact Proceeds.pure c₁
    | some column =>
      have hpos : 0 < taken.length := List.length_pos_iff.2 (h rfl)
      exact (ih (Nat.le_of_succ_le hbudget) column).mono (by omega) c₁

theorem proceeds_columnDef : Proceeds maxSteps (columnDef source) := by
  refine .bind (.map .require) fun name => .get fun mark => ?_
  refine (proceeds_typeExpr maxTypeDepth).bind fun type => .get fun c => ?_
  exact proceeds_columnOptions (Nat.le_refl _) _

theorem proceeds_columnListEntry (columns : Array ColumnDecl) :
    Proceeds maxSteps (columnListEntry source columns) := by
  refine .get fun c => ?_
  split_ifs
  · exact (proceeds_run _).discard.bind fun _ => .pure
  · exact proceeds_columnDef.bind fun _ => .bind (.check (by decide)) fun _ => .pure

theorem proceeds_columnEntries {budget : Nat} (hbudget : budget ≤ maxSteps)
    (columns : Array ColumnDecl) : Proceeds budget (columnEntries source budget columns) := by
  induction budget generalizing columns with
  | zero => exact .exhausted
  | succ budget ih =>
    refine .eat_then .pure ?_
    refine ((proceeds_columnListEntry columns).mono hbudget).bind fun columns => ?_
    refine .eat_then (ih (Nat.le_of_succ_le hbudget) columns) ?_
    exact .bind (.discard .require) fun _ => .pure

theorem proceeds_columnList : Proceeds maxSteps (columnList source) :=
  .bind (.discard .require) fun _ =>
    (proceeds_columnEntries (Nat.le_refl _) _).bind fun _ => .pure

end Columns

section Queries

variable {source : String}

theorem proceeds_selectItems {budget : Nat} (hbudget : budget ≤ maxSteps)
    (items : List SelectItem) : Proceeds budget (selectItems source budget items) := by
  induction budget generalizing items with
  | zero => exact .exhausted
  | succ budget ih =>
    refine ((proceeds_run _).mono hbudget).bind fun tokens => ?_
    have hrest : Proceeds (budget + 1) (do
        let items := (SelectItem.ofTokens? source tokens).toList ++ items
        if ← eat .comma then selectItems source budget items
        else return items.reverse) := .eat_then (ih (Nat.le_of_succ_le hbudget) _) .pure
    dsimp only
    split
    · exact .bind .unexpected fun _ => hrest
    · exact hrest

theorem proceeds_fromSource : Proceeds maxSteps fromSource := by
  refine .looksAt fun paren => ?_
  split
  · exact proceeds_skipBalanced.bind fun _ => .pure
  · exact proceeds_qualifiedName.bind fun _ => .pure

theorem proceeds_selectFrom : Proceeds maxSteps (selectFrom source) :=
  Proceeds.expectKeyword.bind fun _ =>
    (proceeds_selectItems (Nat.le_refl _) _).bind fun _ =>
      Proceeds.expectKeyword.bind fun _ => proceeds_fromSource.bind fun _ => .pure

theorem proceeds_subquery : Proceeds maxSteps (subquery source) :=
  Proceeds.expectName.bind fun _ => Proceeds.expectKeyword.bind fun _ =>
    .bind (.discard .require) fun _ => proceeds_selectFrom.bind fun _ =>
      proceeds_skipToClose.bind fun _ => .pure

theorem proceeds_withClause : Proceeds maxSteps (withClause source) := by
  refine .bind ?_ fun found => ?_
  · exact .looksAt fun _ => .looksAt fun _ => .looksAt fun _ => .looksAt fun _ => .pure
  · have hrest (sub : Option Subquery) : Proceeds maxSteps (do
        discard (run (·.isKeyword .select))
        return sub) := (proceeds_run _).discard.bind fun _ => .pure
    dsimp only
    split
    · exact proceeds_subquery.map.bind hrest
    · exact hrest none

theorem proceeds_viewQuery : Proceeds maxSteps (viewQuery source) := by
  have hrest (sub : Option Subquery) : Proceeds maxSteps (do
      let read ← selectFrom source
      modify Cursor.finish
      return ViewQuery.mk read.2 read.1 sub) :=
    proceeds_selectFrom.bind fun _ => proceeds_finish.bind fun _ => .pure
  refine Proceeds.eat.bind fun found => ?_
  dsimp only
  split
  · exact proceeds_withClause.bind hrest
  · exact hrest none

end Queries

section Tables

variable {source : String}

theorem proceeds_engine : Proceeds maxSteps (engine source) := by
  have hend (mark : Cursor) : Proceeds maxSteps (do
      return sourceText source ((← get).since mark)) := .get fun c => .pure
  refine .get fun mark => .bind (.discard .expectName) fun _ => .looksAt fun paren => ?_
  dsimp only
  split
  · exact proceeds_skipBalanced.bind fun _ => hend mark
  · exact hend mark

theorem proceeds_asBody (table : TableDecl) : Proceeds maxSteps (asBody source table) := by
  unfold asBody
  split_ifs
  · exact proceeds_viewQuery.bind fun query => .bind (.check (by decide)) fun _ => .pure
  · exact proceeds_finish.bind fun _ => .pure

/-- A clause takes a token at least. -/
theorem arrivesBy_tableClause (table : TableDecl) (hpeek : c.peek? = some t) :
    ArrivesBy maxSteps c (tableClause source table t.kind) fun _ taken => taken ≠ [] := by
  have hexpr : Proceeds maxSteps (clauseExpression source) := proceeds_captureExpression _ _
  unfold tableClause
  split
  · exact arrivesBy_advance hpeek .pure
  · refine arrivesBy_advance hpeek (.bind (.discard .eat) fun _ => ?_)
    exact proceeds_engine.bind fun _ => .pure
  · exact arrivesBy_advance hpeek (Proceeds.expectKeyword.bind fun _ => hexpr.bind fun _ => .pure)
  · exact arrivesBy_advance hpeek (Proceeds.expectKeyword.bind fun _ => hexpr.bind fun _ => .pure)
  · exact arrivesBy_advance hpeek (Proceeds.expectKeyword.bind fun _ => hexpr.bind fun _ => .pure)
  · exact arrivesBy_advance hpeek
      (Proceeds.expectKeyword.bind fun _ => hexpr.discard.bind fun _ => .pure)
  · exact arrivesBy_advance hpeek (hexpr.discard.bind fun _ => .pure)
  · exact arrivesBy_advance hpeek (hexpr.discard.bind fun _ => .pure)
  · refine arrivesBy_advance hpeek (.bind (.discard .eat) fun _ => ?_)
    exact .bind (.map .require) fun _ => .pure
  · exact arrivesBy_advance hpeek .pure
  · exact arrivesBy_advance hpeek ((proceeds_asBody _).bind fun _ => .pure)
  · exact .unexpected

theorem proceeds_tableClauses {budget : Nat} (hbudget : budget ≤ maxSteps) (table : TableDecl) :
    Proceeds budget (tableClauses source budget table) := by
  induction budget generalizing table with
  | zero =>
    unfold tableClauses
    refine .peek? fun t? => ?_
    cases t? with
    | none => exact .pure
    | some t => exact .exhausted
  | succ budget ih =>
    unfold tableClauses
    refine fun c => .peek? ?_
    cases hpeek : c.peek? with
    | none => exact Proceeds.pure c
    | some t =>
      refine ((arrivesBy_tableClause table hpeek).mono hbudget fun _ _ h => h).bind
        fun progress taken c₁ _ h => ?_
      have hpos : 0 < taken.length := List.length_pos_iff.2 h
      cases progress with
      | more table => exact (ih (Nat.le_of_succ_le hbudget) table).mono (by omega) c₁
      | done table => exact Proceeds.pure c₁

end Tables

section Statements

variable {source : String}

theorem proceeds_tableKind : Proceeds room tableKind := by
  refine Proceeds.eat.bind fun materialized => ?_
  split
  · exact Proceeds.expectKeyword.bind fun _ => .pure
  · refine Proceeds.eat.bind fun table => ?_
    split
    · exact .pure
    · refine .looksAt fun view => ?_
      split <;> exact .unexpected

theorem proceeds_orReplace : Proceeds room orReplace := by
  refine Proceeds.eat.bind fun or => ?_
  split
  · exact .expectKeyword
  · exact .pure

theorem proceeds_ifNotExists : Proceeds room ifNotExists := by
  refine Proceeds.eat.bind fun found => ?_
  split
  · exact Proceeds.expectKeyword.bind fun _ => .expectKeyword
  · exact .pure

theorem proceeds_onCluster : Proceeds room onCluster := by
  refine Proceeds.eat.bind fun on => ?_
  split
  · refine Proceeds.expectKeyword.bind fun _ => .looksAt fun string => ?_
    split
    · exact proceeds_advance
    · exact .discard .expectName
  · exact .pure

theorem proceeds_headerBehindKind (kind : TableKind) : Proceeds maxSteps (do
    ifNotExists
    let (database, name) ← qualifiedName .tableName
    onCluster
    if ← isAtKeyword .to then unexpected .routedView
    return ({ name, database, kind } : TableDecl)) := by
  refine proceeds_ifNotExists.bind fun _ => proceeds_qualifiedName.bind fun parts => ?_
  refine proceeds_onCluster.bind fun _ => .looksAt fun routed => ?_
  dsimp only
  split
  · exact .bind .unexpected fun _ => .pure
  · exact .pure

theorem arrivesBy_tableHeader (c : Cursor) :
    ArrivesBy (maxSteps + 1) c tableHeader fun _ taken => taken ≠ [] := by
  have hcreate : ArrivesBy (maxSteps + 1) c (expectKeyword .create) _ :=
    Proceeds.expectKeyword.arrivesBy (moves_expectKeyword .create)
  refine hcreate.bind fun _ taken c₁ _ h => ?_
  obtain ⟨create, rfl, -⟩ := h
  refine (?_ : ArrivesBy maxSteps c₁ _ fun _ _ => True).mono (Nat.le_refl _)
    fun _ _ _ => List.cons_ne_nil _ _
  refine Proceeds.bind proceeds_orReplace (fun _ => .bind (.discard .eat) fun _ => ?_) c₁
  exact proceeds_tableKind.bind proceeds_headerBehindKind

/-- Where no more than `maxSteps` tokens lie ahead a statement is not ended by the steps of a loop,
and it takes a token at least. -/
theorem arrivesBy_statement (c : Cursor) :
    ArrivesBy (maxSteps + 1) c (statement source) fun _ taken => taken ≠ [] := by
  have hclauses (table : TableDecl) (columns : List ColumnDecl) : Proceeds maxSteps (do
      let table ← tableClauses source (Ceiling.steps .tableClauses).limit { table with columns }
      if table.columns.isEmpty then throw (.parse (.noColumns table.qualifiedName))
      return table) := by
    refine (proceeds_tableClauses (Nat.le_refl _) _).bind fun table => ?_
    dsimp only
    split
    · exact .bind (.throw (ofCount_parse _)) fun _ => .pure
    · exact .pure
  refine (arrivesBy_tableHeader c).bind fun table taken c₁ _ h => ?_
  have hbehind : Proceeds maxSteps (do
      let columns ← if ← isAt .openParen then columnList source else pure []
      let table ← tableClauses source (Ceiling.steps .tableClauses).limit { table with columns }
      if table.columns.isEmpty then throw (.parse (.noColumns table.qualifiedName))
      return table) := by
    refine .looksAt fun paren => ?_
    dsimp only
    split
    · exact proceeds_columnList.bind (hclauses table)
    · exact hclauses table []
  have hpos : 0 < taken.length := List.length_pos_iff.2 h
  exact (hbehind c₁).mono (by omega) fun _ _ _ => by simp [h]

end Statements

end Grammar

end TypedTables
