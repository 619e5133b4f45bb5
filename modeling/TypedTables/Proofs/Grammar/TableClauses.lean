import TypedTables.Proofs.Grammar.ColumnOptions

/-!
Clauses of a table in any order. Each of them ends where the next one begins, so that what they say
of the table does not depend on their order, and neither does what stands before them or behind.
-/

namespace TypedTables

inductive ClauseKind
  | engine
  | partitionBy
  | orderBy
  | primaryKey
  | sampleBy
  | ttl
  | settings
  | comment
  | populate
  deriving DecidableEq

def ClauseKind.all : List ClauseKind :=
  [.engine, .partitionBy, .orderBy, .primaryKey, .sampleBy, .ttl, .settings, .comment, .populate]

theorem ClauseKind.mem_all (kind : ClauseKind) : kind ∈ all := by cases kind <;> decide

/-- What a clause says of the table. -/
structure TableTrait where
  kind : ClauseKind
  text : String
  deriving DecidableEq

namespace TableDecl

variable {table : TableDecl} {t : TableTrait} {traits traits' : List TableTrait}

def withTrait (table : TableDecl) (t : TableTrait) : TableDecl :=
  match t.kind with
  | .engine => { table with engine := some t.text }
  | .partitionBy => { table with partitionBy := some t.text }
  | .orderBy => { table with orderBy := some t.text }
  | .primaryKey => { table with primaryKey := some t.text }
  | .comment => { table with comment := some t.text }
  | .sampleBy | .ttl | .settings | .populate => table

def withTraits (table : TableDecl) (traits : List TableTrait) : TableDecl :=
  traits.foldl withTrait table

/-- The table shows what a clause says of it, if the clause is one of those that are kept. -/
def Shows (table : TableDecl) (t : TableTrait) : Prop :=
  match t.kind with
  | .engine => table.engine = some t.text
  | .partitionBy => table.partitionBy = some t.text
  | .orderBy => table.orderBy = some t.text
  | .primaryKey => table.primaryKey = some t.text
  | .comment => table.comment = some t.text
  | .sampleBy | .ttl | .settings | .populate => True

theorem withTrait_comm (table : TableDecl) (s t : TableTrait) (h : s.kind ≠ t.kind) :
    (table.withTrait s).withTrait t = (table.withTrait t).withTrait s := by
  obtain ⟨kind, text⟩ := s
  obtain ⟨kind', text'⟩ := t
  cases kind <;> cases kind' <;> first | rfl | exact absurd rfl h

theorem columns_withTrait (table : TableDecl) (t : TableTrait) :
    (table.withTrait t).columns = table.columns := by
  obtain ⟨kind, text⟩ := t
  cases kind <;> rfl

theorem columns_withTraits (table : TableDecl) (traits : List TableTrait) :
    (table.withTraits traits).columns = table.columns := by
  induction traits generalizing table with
  | nil => rfl
  | cons t traits ih => exact (ih (table.withTrait t)).trans (table.columns_withTrait t)

/-- The order in which a table is given its traits does not matter. -/
theorem withTraits_perm (h : (traits.map TableTrait.kind).Nodup) (hperm : traits.Perm traits')
    (table : TableDecl) : table.withTraits traits = table.withTraits traits' :=
  foldl_perm_of_slots withTrait_comm h hperm table

/-- Every trait shows in the end. -/
theorem shows_withTraits (h : (traits.map TableTrait.kind).Nodup) (ht : t ∈ traits) :
    (table.withTraits traits).Shows t := by
  have hlast : table.withTraits traits = (table.withTraits (traits.erase t)).withTrait t :=
    foldl_of_mem_of_slots withTrait_comm h ht table
  rw [hlast]
  obtain ⟨kind, text⟩ := t
  cases kind <;> first | rfl | trivial

end TableDecl

theorem SameNext.append_right {ts : List Token} (h : ts ≠ []) (rest : List Token) :
    SameNext ts (ts ++ rest) := by
  obtain ⟨t, ts, rfl⟩ := List.exists_cons_of_ne_nil h
  rfl

namespace Grammar

section Alone

variable {α β : Type} {source : String} {c c₁ : Cursor} {ts rest : List Token}

/-- What may stand behind a column list. -/
def StartsClauses (rest : List Token) : Prop :=
  ∀ t ∈ rest.head?, t.kind = .semicolon ∨ startsTableClause t = true

theorem Repeats.reads_again {g : Grammar α} {a : α} (hg : Repeats source source Eq g g)
    (h : g c = .ok a c₁) : ∃ taken, c.Moved taken c₁ ∧
      ∀ rest, SameNext c₁.rest rest → Reads False g taken rest (· = a) := by
  obtain ⟨taken, hmoved, hg⟩ := hg.reads_alike h
  exact ⟨taken, hmoved, fun rest => hg taken rest ⟨rfl, fun _ _ => rfl⟩⟩

/-- Where the step has read all tokens, at least one of them, it reads them the same before `rest`. -/
def Extends (rest : List Token) (g : Grammar α) : Prop :=
  ∀ c a c₁, g c = .ok a c₁ → c₁.rest = [] → c.rest ≠ [] ∧ Reads False g c.rest rest (· = a)

namespace Extends

variable {g : Grammar α} {f : α → Grammar β}

theorem bind (hg : Repeats source source Eq g g) (hf : ∀ a, Extends rest (f a)) :
    Extends rest (g >>= f) := by
  intro c b c₂ h hnil
  obtain ⟨a, c₁, ha, hb⟩ := bind_eq_ok.1 h
  obtain ⟨taken, hmoved, hg⟩ := hg.reads_again ha
  obtain ⟨hne, hf⟩ := hf a c₁ b c₂ hb hnil
  rw [hmoved.rest]
  exact ⟨by simp [hne], (hg _ (.append_right hne rest)).bind_eq hf⟩

theorem pure_behind (hg : Extends rest g) (r : α → β) : Extends rest (do let a ← g; return r a) := by
  intro c b c₁ h hnil
  obtain ⟨a, _, ha, ⟨⟩⟩ := bind_eq_ok.1 h
  obtain ⟨hne, hg⟩ := hg c a c₁ ha hnil
  exact ⟨hne, hg.last_eq (.pure rfl)⟩

theorem discard (kind : TokenKind) (what : Expected) :
    Extends rest (Functor.discard (expect kind what)) := by
  intro c _ c₁ h hnil
  obtain ⟨_, hmoved, t, rfl, ht⟩ := (moves_discard kind what).of_ok h
  rw [hmoved.rest, hnil]
  exact ⟨List.cons_ne_nil _ _, (Reads.discard_expect ht).mono fun _ _ => rfl⟩

/-- A token that may end the reading. -/
theorem eat {kind : TokenKind} {f : Bool → Grammar β} {b : β} (hend : f true = Pure.pure b)
    (hf : Extends rest (f false)) : Extends rest (Grammar.eat kind >>= f) := by
  intro c b' c₂ h hnil
  obtain ⟨eaten, c₁, heaten, h⟩ := bind_eq_ok.1 h
  obtain ⟨_, hmoved, ⟨rfl, t, rfl, ht⟩ | ⟨rfl, rfl⟩⟩ := (moves_eat kind).of_ok heaten
  · rw [hend] at h
    cases h
    rw [hmoved.rest, hnil]
    refine ⟨List.cons_ne_nil _ _, (Reads.eat ht).last_eq ?_⟩
    rw [hend]
    exact .pure rfl
  · obtain ⟨_, hmoved', hreads⟩ := (@repeats_eat "" "" kind).reads_again heaten
    obtain rfl := hmoved'.eq hmoved
    obtain ⟨hne, hf⟩ := hf c₁ b' c₂ h hnil
    rw [hmoved.rest]
    exact ⟨hne, (hreads _ (.append_right hne rest)).skip_eq hf⟩

end Extends

theorem StartsClauses.any_eq_false (h : StartsClauses rest) {test : Token → Bool}
    (htest : ∀ t : Token, t.kind = .semicolon ∨ startsTableClause t = true → test t = false) :
    rest.head?.any test = false := by
  cases hrest : rest.head? with
  | none => rfl
  | some t => exact htest t (h t hrest)

theorem not_parenOrVerb {t : Token} (h : t.kind = .semicolon ∨ startsTableClause t = true) :
    (t.kind == .openParen) = false ∧ isConstraintVerb t = false := by
  obtain h | h := h
  · simp [isConstraintVerb, h]
  · unfold startsTableClause at h
    split at h <;> simp_all [isConstraintVerb]

/-- Behind a column list there is nothing that makes an entry of its last tokens. -/
theorem startsEntry_alone (h : GroupEnd ts) (hrest : StartsClauses rest) :
    startsEntry (ts ++ rest) = startsEntry ts := by
  obtain ⟨inside, close, rfl, hclose, hcloses⟩ := h
  have hsecond {test : Token → Bool}
      (htest : ∀ t : Token, t.kind = .semicolon ∨ startsTableClause t = true → test t = false)
      (inside : List Token) : (inside ++ close :: rest)[1]?.any test =
        (inside ++ [close])[1]?.any test := by
    cases inside with
    | nil =>
      rw [List.nil_append, List.getElem?_cons_succ, ← List.head?_eq_getElem?,
        hrest.any_eq_false htest]
      rfl
    | cons t inside => cases inside <;> rfl
  cases inside with
  | nil => simp [startsEntry, hclose]
  | cons t inside =>
    rw [List.append_assoc, List.singleton_append, List.cons_append, List.cons_append, startsEntry,
      startsEntry]
    split
    · next hkind =>
      have hinside : Closes 0 inside := by
        have h := hcloses.2
        rwa [Token.nest, hkind] at h
      exact reachesType_congr hinside hclose rfl
    · exact hsecond (fun t ht => (not_parenOrVerb ht).1) inside
    · exact hsecond (fun t ht => (not_parenOrVerb ht).2) inside
    · rfl

theorem extends_columnEntries (hrest : StartsClauses rest) (budget : Nat)
    (columns : Array ColumnDecl) : Extends rest (columnEntries source budget columns) := by
  induction budget generalizing columns with
  | zero => exact nofun
  | succ budget ih =>
    have hgiven (passed : Bool) : Extends rest (entriesGiven source budget columns passed) := by
      refine .eat rfl (.bind (repeats_entryGiven columns passed) fun columns => ?_)
      refine .bind (@repeats_eat source source .comma) fun comma => ?_
      cases comma with
      | true => exact ih columns
      | false => exact (Extends.discard _ _).pure_behind _
    intro c all c₁ h hnil
    obtain ⟨_, hmoved, hend⟩ := (moves_columnEntries _ _ c).of_ok h
    rw [columnEntries_succ] at h
    obtain ⟨hne, hreads⟩ := hgiven _ c all c₁ h hnil
    refine ⟨hne, fun p => ?_⟩
    have hentry : startsEntry (c.rest ++ rest) = startsEntry c.rest :=
      startsEntry_alone (by rwa [hmoved.rest, hnil, List.append_nil]) hrest
    rw [columnEntries_succ, hentry]
    exact hreads p

theorem extends_columnList (hrest : StartsClauses rest) : Extends rest (columnList source) :=
  .bind (@repeats_discard source source _ _) fun _ => (extends_columnEntries hrest _ _).pure_behind _

/-- What a statement says up to the end of its column list is read the same before its clauses. -/
theorem reads_tableHead_alone {table : TableDecl} (h : tableHead source c = .ok table c₁)
    (hnil : c₁.rest = []) (hcolumns : table.columns ≠ []) (hrest : StartsClauses rest) :
    Reads False (tableHead source) c.rest rest (· = table) := by
  obtain ⟨header, c₂, hheader, h⟩ := bind_eq_ok.1 h
  obtain ⟨opened, _, ⟨⟩, h⟩ := bind_eq_ok.1 h
  obtain ⟨taken, hmoved, hreads⟩ := (@repeats_tableHeader source source).reads_again hheader
  cases hopened : c₂.rest[0]?.any (·.kind == .openParen) with
  | false =>
    rw [hopened] at h
    cases h
    contradiction
  | true =>
    rw [hopened] at h
    obtain ⟨columns, _, hlist, ⟨⟩⟩ := bind_eq_ok.1 h
    obtain ⟨hne, hlist⟩ := extends_columnList hrest c₂ columns c₁ hlist hnil
    rw [hmoved.rest]
    refine (hreads _ (.append_right hne rest)).bind_eq (.looksAt ?_)
    have hparen : (c₂.rest ++ rest)[0]?.any (·.kind == .openParen) = true := by
      rw [List.getElem?_append_left (List.length_pos_iff.2 hne), hopened]
    rw [hparen]
    exact hlist.last_eq (.pure rfl)

end Alone

/-- A clause of a table, as it is written: the words that tell its kind, and what stands behind. -/
structure TableClause where
  kind : ClauseKind
  words : List Token
  body : List Token

/-- The words that clauses begin with. -/
def clauseWords : ClauseKind → List (List TokenKind)
  | .engine => [[.keyword .engine], [.keyword .engine, .equals]]
  | .partitionBy => [[.keyword .partition, .keyword .by]]
  | .orderBy => [[.keyword .order, .keyword .by]]
  | .primaryKey => [[.keyword .primary, .keyword .key]]
  | .sampleBy => [[.keyword .sample, .keyword .by]]
  | .ttl => [[.keyword .ttl]]
  | .settings => [[.keyword .settings]]
  | .comment => [[.keyword .comment], [.keyword .comment, .equals]]
  | .populate => [[.keyword .populate]]

/-- What may stand behind the words of a clause. -/
def IsClauseBody (kind : ClauseKind) (body : List Token) : Prop :=
  match kind with
  | .engine => ∃ name group, body = name :: group ∧ name.isName = true ∧ (group = [] ∨ Group group)
  | .comment => ∃ text, body = [text] ∧ text.kind = .string
  | .populate => body = []
  | _ => body ≠ [] ∧ Clear (endsRun startsTableClause) body

namespace TableClause

def tokens (clause : TableClause) : List Token := clause.words ++ clause.body

structure IsWritten (clause : TableClause) : Prop where
  words : clause.words.map Token.kind ∈ clauseWords clause.kind
  body : IsClauseBody clause.kind clause.body

/-- What the clause is read as: the text of a comment is what its quotes hold, any other one is that
of the source. -/
def text (source : String) (clause : TableClause) : String :=
  match clause.kind, clause.body with
  | .comment, [text] => text.text
  | _, body => sourceText source body

def trait (source : String) (clause : TableClause) : TableTrait :=
  ⟨clause.kind, clause.text source⟩

/-- Whether the steps suffice to read the clause, given what stands behind it. -/
def Fits (rest : List Token) (clause : TableClause) : Prop :=
  match clause.kind with
  | .engine => (clause.body.drop 1).length ≤ (Ceiling.steps .balancedParentheses).limit + 1
  | .comment | .populate => True
  | _ => runSteps clause.body rest ≤ (Ceiling.steps .expression).limit

/-- Whether the steps suffice whatever stands behind the clause. -/
def IsShort (clause : TableClause) : Prop :=
  match clause.kind with
  | .engine => (clause.body.drop 1).length ≤ (Ceiling.steps .balancedParentheses).limit + 1
  | .comment | .populate => True
  | _ => clause.body.length < (Ceiling.steps .expression).limit

theorem fits_of_isShort {clause : TableClause} (h : clause.IsShort) (rest : List Token) :
    clause.Fits rest := by
  obtain ⟨kind, words, body⟩ := clause
  cases kind with
  | engine | comment | populate => exact h
  | _ => exact (runSteps_le body rest).trans h

end TableClause

section Reading

variable {source : String} {table : TableDecl} {clause : TableClause} {clauses : List TableClause}
  {fails : Prop} {rest : List Token}

theorem reads_equals {equals : List Token} (h : equals.map Token.kind ∈ [[], [.equals]])
    (hrest : rest.head?.any (·.kind == .equals) = false) :
    Reads fails (discard (eat .equals)) equals rest fun _ => True := by
  simp only [List.mem_cons, List.not_mem_nil, or_false] at h
  obtain h | h := h
  · rw [List.map_eq_nil_iff.1 h]
    exact ((Reads.eat_not hrest).mono fun _ _ => trivial).discard
  · obtain ⟨t, rfl, ht⟩ := List.map_eq_singleton_iff.1 h
    exact ((Reads.eat ht).mono fun _ _ => trivial).discard

theorem takes_engineTokens : Takes Anything engineTokens := by
  refine .bind (.map (.expectName fun _ _ => trivial)) fun _ => .looksAt fun opened => ?_
  split
  · exact fun _ => moves_skipBalanced.mono fun _ _ _ => trivial
  · exact .pure

theorem reads_engine {name : Token} {group : List Token} (hname : name.isName = true)
    (hgroup : group = [] ∨ Group group) (hrest : rest.head?.any (·.kind == .openParen) = false) :
    Reads ((Ceiling.steps .balancedParentheses).limit + 1 < group.length) (engine source)
      (name :: group) rest fun text =>
        group.length ≤ (Ceiling.steps .balancedParentheses).limit + 1 ∧
          text = sourceText source (name :: group) := by
  have htokens : Reads ((Ceiling.steps .balancedParentheses).limit + 1 < group.length) engineTokens
      (name :: group) rest
      fun _ => group.length ≤ (Ceiling.steps .balancedParentheses).limit + 1 := by
    have hread : Reads ((Ceiling.steps .balancedParentheses).limit + 1 < group.length)
        (discard (expectName .engineName)) [name] (group ++ rest) fun _ => True :=
      ((Reads.expectName hname).mono fun _ _ => trivial).discard
    refine hread.next fun _ _ => .looksAt ?_
    obtain rfl | hgroup := hgroup
    · rw [List.nil_append, ← List.head?_eq_getElem?, hrest]
      exact .pure (Nat.zero_le _)
    · obtain ⟨o, more, rfl, ho, -⟩ := id hgroup
      simp only [List.cons_append, List.getElem?_cons_zero, Option.any_some, ho]
      exact reads_skipBalanced hgroup
  rw [engine_eq, ← List.append_nil (name :: group)]
  refine reads_since (f := fun _ ts => pure (sourceText source ts)) htokens takes_engineTokens
    fun _ hle => ?_
  rw [List.append_nil]
  exact .pure ⟨hle, rfl⟩

theorem exists_of_kinds_pair {ts : List Token} {k k' : TokenKind}
    (h : ts.map Token.kind ∈ [[k, k']]) : ∃ t u, ts = [t, u] ∧ t.kind = k ∧ u.kind = k' := by
  obtain ⟨t, _, rfl, ht, h⟩ := List.map_eq_cons_iff.1 (List.mem_singleton.1 h)
  obtain ⟨u, rfl, hu⟩ := List.map_eq_singleton_iff.1 h
  exact ⟨t, u, rfl, ht, hu⟩

theorem exists_of_kinds_equals {ts : List Token} {k : TokenKind}
    (h : ts.map Token.kind ∈ [[k], [k, .equals]]) :
    ∃ t equals, ts = t :: equals ∧ t.kind = k ∧ equals.map Token.kind ∈ [[], [.equals]] := by
  simp only [List.mem_cons, List.not_mem_nil, or_false] at h
  obtain h | h := h
  · obtain ⟨t, rfl, ht⟩ := List.map_eq_singleton_iff.1 h
    exact ⟨t, [], rfl, ht, List.mem_cons_self⟩
  · obtain ⟨t, equals, rfl, ht, h⟩ := List.map_eq_cons_iff.1 h
    exact ⟨t, equals, rfl, ht, h ▸ List.mem_cons_of_mem _ List.mem_cons_self⟩

theorem not_openParen_of_ends {t : Token} (h : endsRun startsTableClause t = true) :
    (t.kind == .openParen) = false := by
  rw [beq_eq_false_iff_ne]
  intro hkind
  simp [endsRun, startsTableClause, hkind] at h

/-- A clause is read as what it says, if the steps suffice. -/
theorem reads_tableClause (h : clause.IsWritten)
    (hrest : ∀ t ∈ rest.head?, endsRun startsTableClause t = true) (table : TableDecl) :
    ∃ first more, clause.tokens = first :: more ∧
      Reads (¬clause.Fits rest) (tableClause source table first.kind) clause.tokens rest
        fun progress => clause.Fits rest ∧
          progress = .more (table.withTrait (clause.trait source)) := by
  obtain ⟨kind, words, body⟩ := clause
  obtain ⟨hwords, hbody⟩ := h
  have hexpr (hbody : body ≠ [] ∧ Clear (endsRun startsTableClause) body) :=
    (reads_captureExpression source hbody.1 hbody.2 hrest).weaken Nat.not_le.2
  have hskip (hbody : body ≠ [] ∧ Clear (endsRun startsTableClause) body) :
      Reads (¬runSteps body rest ≤ (Ceiling.steps .expression).limit)
        (discard (clauseExpression source)) body rest
        fun _ => runSteps body rest ≤ (Ceiling.steps .expression).limit :=
    ((hexpr hbody).mono fun _ htext => htext.1).discard
  cases kind with
  | engine =>
    obtain ⟨t, equals, rfl, ht, hequals⟩ := exists_of_kinds_equals hwords
    obtain ⟨name, group, rfl, hname, hgroup⟩ := hbody
    have hparen : rest.head?.any (·.kind == .openParen) = false := by
      cases hhead : rest.head? with
      | none => rfl
      | some u => exact not_openParen_of_ends (hrest u hhead)
    have hnext : (name :: group ++ rest).head?.any (·.kind == .equals) = false := by
      have hkind : name.kind ≠ .equals := fun hkind => by simp [Token.isName, hkind] at hname
      simpa using hkind
    refine ⟨t, _, rfl, ?_⟩
    rw [ht]
    refine Reads.advance.next fun _ _ => (reads_equals hequals hnext).bind fun _ _ => ?_
    refine ((reads_engine hname hgroup hparen).weaken Nat.not_le.2).last fun text htext => ?_
    obtain ⟨hfits, rfl⟩ := htext
    exact .pure ⟨hfits, rfl⟩
  | partitionBy | orderBy | primaryKey =>
    obtain ⟨t, u, rfl, ht, hu⟩ := exists_of_kinds_pair hwords
    refine ⟨t, _, rfl, ?_⟩
    rw [ht]
    refine Reads.advance.next fun _ _ => (Reads.expectKeyword hu).next fun _ _ => ?_
    refine (hexpr hbody).last fun text htext => ?_
    obtain ⟨hfits, rfl⟩ := htext
    exact .pure ⟨hfits, rfl⟩
  | sampleBy =>
    obtain ⟨t, u, rfl, ht, hu⟩ := exists_of_kinds_pair hwords
    refine ⟨t, _, rfl, ?_⟩
    rw [ht]
    refine Reads.advance.next fun _ _ => (Reads.expectKeyword hu).next fun _ _ => ?_
    exact (hskip hbody).last fun _ hfits => .pure ⟨hfits, rfl⟩
  | ttl | settings =>
    obtain ⟨t, rfl, ht⟩ := List.map_eq_singleton_iff.1 (List.mem_singleton.1 hwords)
    refine ⟨t, _, rfl, ?_⟩
    rw [ht]
    refine Reads.advance.next fun _ _ => ?_
    exact (hskip hbody).last fun _ hfits => .pure ⟨hfits, rfl⟩
  | comment =>
    obtain ⟨t, equals, rfl, ht, hequals⟩ := exists_of_kinds_equals hwords
    obtain ⟨text, rfl, htext⟩ := hbody
    have hnext : ([text] ++ rest).head?.any (·.kind == .equals) = false := by simp [htext]
    have hstring : Reads (¬True) (expectString .tableComment) [text] rest (· = text.text) :=
      ((Reads.expect htext).mono fun _ h => by rw [h]).map
    refine ⟨t, _, rfl, ?_⟩
    rw [ht]
    refine Reads.advance.next fun _ _ => (reads_equals hequals hnext).bind fun _ _ => ?_
    exact hstring.last_eq (.pure ⟨trivial, rfl⟩)
  | populate =>
    obtain ⟨t, rfl, ht⟩ := List.map_eq_singleton_iff.1 (List.mem_singleton.1 hwords)
    obtain rfl : body = [] := hbody
    refine ⟨t, _, rfl, ?_⟩
    rw [ht]
    exact Reads.advance.last fun _ _ => .pure ⟨trivial, rfl⟩

/-- What may stand behind the clauses of a table: nothing, a semicolon, or a query. -/
def EndsClauses (rest : List Token) : Prop :=
  ∀ t ∈ rest.head?, t.kind = .semicolon ∨ t.kind = .keyword .as

theorem endsClauses_nil : EndsClauses [] := nofun

theorem starts_of_endsClauses (h : EndsClauses rest) : StartsClauses rest := by
  intro t ht
  refine (h t ht).imp id fun has => ?_
  simp [startsTableClause, has]

theorem ends_of_starts (h : StartsClauses rest) :
    ∀ t ∈ rest.head?, endsRun startsTableClause t = true := by
  intro t ht
  obtain ht | ht := h t ht <;> simp [endsRun, ht]

/-- A clause begins with a word that ends the clause before it. -/
theorem starts_of_written (h : ∀ clause ∈ clauses, clause.IsWritten) (hrest : EndsClauses rest) :
    StartsClauses (clauses.flatMap TableClause.tokens ++ rest) := by
  cases clauses with
  | nil => exact starts_of_endsClauses hrest
  | cons clause clauses =>
    have all : ∀ kind ∈ ClauseKind.all, ∀ kinds ∈ clauseWords kind,
        ∃ k ∈ kinds.head?, startsTableClause ⟨k, "", ⟨0, 0, 0, 0⟩⟩ = true := by decide
    obtain ⟨hwords, -⟩ := h clause List.mem_cons_self
    obtain ⟨k, hk, hstarts⟩ := all _ clause.kind.mem_all _ hwords
    rw [List.head?_map] at hk
    obtain ⟨first, hfirst, rfl⟩ := Option.mem_map.1 hk
    obtain ⟨more, hmore⟩ := List.head?_eq_some_iff.1 hfirst
    rw [List.flatMap_cons, TableClause.tokens, hmore]
    rintro _ ⟨⟩
    exact .inr hstarts

/-- Behind the clauses nothing is read that would change the table. -/
theorem tableClauses_ending (hrest : EndsClauses rest) (hcolumns : table.columns ≠ []) (budget p : Nat) :
    ∃ c, tableClauses source (budget + 1) table ⟨p, rest⟩ = .ok table c := by
  cases rest with
  | nil =>
    unfold tableClauses
    exact ⟨_, rfl⟩
  | cons t rest =>
    obtain ht | ht := hrest t rfl
    · rw [tableClauses_cons, ht]
      exact ⟨_, rfl⟩
    · have hbody : asBody source table = (do modify Cursor.finish; return table) := by
        unfold asBody
        rw [if_neg (by simp [hcolumns])]
      rw [tableClauses_as ht, hbody]
      exact ⟨_, rfl⟩

/-- Clauses are read as what they say, one after another. -/
theorem tableClauses_written (h : ∀ clause ∈ clauses, clause.IsWritten)
    (hshort : ∀ clause ∈ clauses, clause.IsShort) (hrest : EndsClauses rest)
    (hcolumns : table.columns ≠ []) {budget : Nat} (hbudget : clauses.length < budget) (p : Nat) :
    ∃ c, tableClauses source budget table ⟨p, clauses.flatMap TableClause.tokens ++ rest⟩ =
      .ok (table.withTraits (clauses.map (TableClause.trait source))) c := by
  obtain ⟨budget, rfl⟩ := Nat.exists_eq_add_one_of_ne_zero (Nat.ne_zero_of_lt hbudget)
  induction clauses generalizing budget table p with
  | nil => exact tableClauses_ending hrest hcolumns budget p
  | cons clause clauses ih =>
    obtain ⟨hclause, h⟩ := List.forall_mem_cons.1 h
    obtain ⟨hfits, hshort⟩ := List.forall_mem_cons.1 hshort
    have hbudget : clauses.length < budget := Nat.lt_of_succ_lt_succ hbudget
    obtain ⟨budget, rfl⟩ := Nat.exists_eq_add_one_of_ne_zero (Nat.ne_zero_of_lt hbudget)
    obtain ⟨first, more, htokens, hreads⟩ := @reads_tableClause source clause _ hclause
      (ends_of_starts (starts_of_written h hrest)) table
    obtain ⟨progress, c, hread, hbehind, -, rfl⟩ :=
      (hreads.weaken fun hnot => hnot (clause.fits_of_isShort hfits _)).exists_ok p
    obtain ⟨position, behind⟩ := c
    obtain rfl : behind = _ := hbehind
    have hcolumns : (table.withTrait (clause.trait source)).columns ≠ [] := by
      rwa [table.columns_withTrait]
    obtain ⟨c, hc⟩ := ih h hshort hcolumns position budget hbudget
    refine ⟨c, ?_⟩
    rw [htokens, List.cons_append] at hread
    rw [List.flatMap_cons, List.append_assoc, htokens, List.cons_append, tableClauses_cons,
      bind_of_ok hread]
    exact hc

end Reading

/-- A statement that declares a table, as it is written: what stands before the clauses, the
clauses, and what stands behind them. -/
structure WrittenTable where
  head : List Token
  clauses : List TableClause
  ending : List Token

namespace WrittenTable

def traits (source : String) (w : WrittenTable) : List TableTrait :=
  w.clauses.map (TableClause.trait source)

/-- The source has these tokens. What stands before the clauses declares the table without them,
which has a column, and each clause is written once at most. -/
structure Declares (source : String) (w : WrittenTable) (table : TableDecl) : Prop where
  tokens : tokenize source = w.head ++ (w.clauses.flatMap TableClause.tokens ++ w.ending)
  head : tableHead source (.ofTokens w.head) = .ok table ⟨w.head.length, []⟩
  columns : table.columns ≠ []
  clauses : ∀ clause ∈ w.clauses, clause.IsWritten
  kinds : (w.clauses.map TableClause.kind).Nodup
  ending : EndsClauses w.ending

variable {source : String} {w : WrittenTable} {table : TableDecl}

theorem Declares.nodup_traits (h : w.Declares source table) :
    ((w.traits source).map TableTrait.kind).Nodup := by
  rw [traits, List.map_map]
  exact h.kinds

/-- What is left to read behind what stands before the clauses. -/
theorem Declares.exists_tail (h : w.Declares source table) :
    ∃ p, statement source (.ofTokens (tokenize source)) =
      tableTail source table ⟨p, w.clauses.flatMap TableClause.tokens ++ w.ending⟩ := by
  obtain ⟨head, c, hhead, hbehind, heq⟩ := (reads_tableHead_alone h.head rfl h.columns
    (starts_of_written h.clauses h.ending)).exists_ok 0
  obtain ⟨position, behind⟩ := c
  obtain rfl : behind = _ := hbehind
  rw [heq, Cursor.ofTokens] at hhead
  refine ⟨position, ?_⟩
  rw [h.tokens, statement_eq, Cursor.ofTokens, bind_of_ok hhead]

theorem Declares.statement_eq_ok (h : w.Declares source table)
    (hshort : ∀ clause ∈ w.clauses, clause.IsShort) :
    ∃ c, statement source (.ofTokens (tokenize source)) =
      .ok (table.withTraits (w.traits source)) c := by
  have hcount : w.clauses.length < (Ceiling.steps .tableClauses).limit :=
    Nat.lt_of_le_of_lt (length_le_of_slots ClauseKind.mem_all h.kinds) (by decide)
  obtain ⟨p, htail⟩ := h.exists_tail
  obtain ⟨c, hc⟩ := @tableClauses_written source table _ _ h.clauses hshort h.ending h.columns
    _ hcount p
  refine ⟨c, ?_⟩
  rw [htail, tableTail, bind_of_ok hc]
  dsimp only
  rw [if_neg]
  · rfl
  · rw [TableDecl.columns_withTraits]
    simp [h.columns]

/-- A clause for which the steps do not suffice is not read. -/
theorem Declares.statement_ne_ok (h : w.Declares source table) {clause : TableClause}
    {clauses : List TableClause} (hclauses : w.clauses = clause :: clauses)
    (hlong : ¬clause.Fits (clauses.flatMap TableClause.tokens ++ w.ending)) (read : TableDecl)
    (c : Cursor) : statement source (.ofTokens (tokenize source)) ≠ .ok read c := by
  obtain ⟨hclause, hwritten⟩ := List.forall_mem_cons.1 (hclauses ▸ h.clauses)
  obtain ⟨first, more, hfirst, hreads⟩ := @reads_tableClause source clause _ hclause
    (ends_of_starts (starts_of_written hwritten h.ending)) table
  obtain ⟨p, htail⟩ := h.exists_tail
  rw [htail, hclauses, List.flatMap_cons, List.append_assoc]
  intro hok
  obtain ⟨_, _, hread, -⟩ := bind_eq_ok.1 hok
  rw [hfirst] at hread hreads
  obtain ⟨progress, _, hprogress, -⟩ :=
    bind_eq_ok.1 ((tableClauses_cons source 99999 table _ _ _).symm.trans hread)
  exact hlong (hreads.of_ok hprogress).2.1

end WrittenTable

/-- Two statements that declare the same table up to its clauses, and have clauses that say the same
in whatever order, declare the same table, if the steps suffice for each clause. It shows what each
of the clauses says. -/
theorem statement_rearranged {source source' : String} {w w' : WrittenTable} {table : TableDecl}
    (h : w.Declares source table) (h' : w'.Declares source' table)
    (hsame : (w.traits source).Perm (w'.traits source'))
    (hshort : ∀ clause ∈ w.clauses, clause.IsShort)
    (hshort' : ∀ clause ∈ w'.clauses, clause.IsShort) :
    ∃ read c c', statement source (.ofTokens (tokenize source)) = .ok read c ∧
      statement source' (.ofTokens (tokenize source')) = .ok read c' ∧
      read = table.withTraits (w.traits source) ∧ ∀ t ∈ w.traits source, read.Shows t := by
  obtain ⟨c, hread⟩ := h.statement_eq_ok hshort
  obtain ⟨c', hread'⟩ := h'.statement_eq_ok hshort'
  rw [← TableDecl.withTraits_perm h.nodup_traits hsame] at hread'
  exact ⟨_, c, c', hread, hread', rfl, fun t ht => TableDecl.shows_withTraits h.nodup_traits ht⟩

section EngineAndOrder

def engineThenOrder : String := "CREATE TABLE t (a UInt8) ENGINE = Log ORDER BY a"

def orderThenEngine : String := "CREATE TABLE t (a UInt8) ORDER BY a ENGINE = Log AS SELECT 1"

/-- The tokens of `CREATE TABLE t (a UInt8)`. -/
def plainHead : List Token :=
  [firstLineToken (.keyword .create) "CREATE" 0, firstLineToken (.keyword .table) "TABLE" 7,
    firstLineToken .identifier "t" 13, firstLineToken .openParen "(" 15,
    firstLineToken .identifier "a" 16, firstLineToken .identifier "UInt8" 18,
    firstLineToken .closeParen ")" 23]

def plainTable : TableDecl where
  name := "t"
  columns := [bareColumn]

def engineFirst : WrittenTable where
  head := plainHead
  clauses := [
    ⟨.engine, [firstLineToken (.keyword .engine) "ENGINE" 25, firstLineToken .equals "=" 32],
      [firstLineToken .identifier "Log" 34]⟩,
    ⟨.orderBy, [firstLineToken (.keyword .order) "ORDER" 38, firstLineToken (.keyword .by) "BY" 44],
      [firstLineToken .identifier "a" 47]⟩]
  ending := []

def engineLast : WrittenTable where
  head := plainHead
  clauses := [
    ⟨.orderBy, [firstLineToken (.keyword .order) "ORDER" 25, firstLineToken (.keyword .by) "BY" 31],
      [firstLineToken .identifier "a" 34]⟩,
    ⟨.engine, [firstLineToken (.keyword .engine) "ENGINE" 36, firstLineToken .equals "=" 43],
      [firstLineToken .identifier "Log" 45]⟩]
  ending := [firstLineToken (.keyword .as) "AS" 49, firstLineToken (.keyword .select) "SELECT" 52,
    firstLineToken .number "1" 59]

theorem tableHead_plainHead {source : String}
    (h : sourceText source [firstLineToken .identifier "UInt8" 18] = "UInt8") :
    tableHead source (.ofTokens plainHead) = .ok plainTable ⟨plainHead.length, []⟩ := by
  have hhead : tableHead source (.ofTokens plainHead) = .ok { plainTable with
      columns := [{ bareColumn with
        rawType := sourceText source [firstLineToken .identifier "UInt8" 18] }] } ⟨7, []⟩ := rfl
  rw [hhead, h]
  rfl

theorem clear_identifier {t : Token} (h : t.kind = .identifier) :
    Clear (endsRun startsTableClause) [t] :=
  .single (by simp [h]) (by simp [h]) (by simp [endsRun, startsTableClause, h])

theorem declares_engineFirst : engineFirst.Declares engineThenOrder plainTable where
  tokens := by decide +kernel
  head := tableHead_plainHead (by decide +kernel)
  columns := List.cons_ne_nil _ _
  clauses := List.forall_mem_cons.2 ⟨⟨by decide, _, _, rfl, rfl, .inl rfl⟩,
    List.forall_mem_singleton.2 ⟨by decide, List.cons_ne_nil _ _, clear_identifier rfl⟩⟩
  kinds := by decide
  ending := endsClauses_nil

theorem declares_engineLast : engineLast.Declares orderThenEngine plainTable where
  tokens := by decide +kernel
  head := tableHead_plainHead (by decide +kernel)
  columns := List.cons_ne_nil _ _
  clauses := List.forall_mem_cons.2 ⟨⟨by decide, List.cons_ne_nil _ _, clear_identifier rfl⟩,
    List.forall_mem_singleton.2 ⟨by decide, _, _, rfl, rfl, .inl rfl⟩⟩
  kinds := by decide
  ending := by
    rintro _ ⟨⟩
    exact .inr rfl

theorem statement_rearranged_engine : ∃ c c',
    statement engineThenOrder (.ofTokens (tokenize engineThenOrder)) =
      .ok { plainTable with engine := some "Log", orderBy := some "a" } c ∧
    statement orderThenEngine (.ofTokens (tokenize orderThenEngine)) =
      .ok { plainTable with engine := some "Log", orderBy := some "a" } c' := by
  have hfirst : engineFirst.traits engineThenOrder = [⟨.engine, "Log"⟩, ⟨.orderBy, "a"⟩] := by
    decide +kernel
  have hlast : engineLast.traits orderThenEngine = [⟨.orderBy, "a"⟩, ⟨.engine, "Log"⟩] := by
    decide +kernel
  have hperm : (engineFirst.traits engineThenOrder).Perm (engineLast.traits orderThenEngine) := by
    rw [hfirst, hlast]
    exact .swap _ _ []
  have hengine : 0 ≤ (Ceiling.steps .balancedParentheses).limit + 1 := Nat.zero_le _
  have horder : 1 < (Ceiling.steps .expression).limit := by decide
  obtain ⟨read, c, c', hread, hread', heq, -⟩ :=
    statement_rearranged declares_engineFirst declares_engineLast hperm
      (List.forall_mem_cons.2 ⟨hengine, List.forall_mem_singleton.2 horder⟩)
      (List.forall_mem_cons.2 ⟨horder, List.forall_mem_singleton.2 hengine⟩)
  rw [hfirst] at heq
  rw [heq] at hread hread'
  exact ⟨c, c', hread, hread'⟩

end EngineAndOrder

section Overlong

open Lexeme

/-- `a` another `n` times, each time behind a comma. -/
def further (n : Nat) : List Char := (List.replicate n [',', 'a']).flatten

def furtherContents (n : Nat) : List (TokenKind × String) :=
  (List.replicate n [(.comma, ","), (.identifier, "a")]).flatten

def orderByMany (n : Nat) : String := "CREATE TABLE t (a UInt8) ORDER BY a" ++ String.ofList (further n)

theorem contents_further (n : Nat) :
    contents ("a".toList ++ further n) = (.identifier, "a") :: furtherContents n := by
  have hkind : wordKind "a" = .identifier := by decide +kernel
  have hword (n : Nat) : ∀ d ∈ (further n).head?, isWordPart d = false := by
    cases n with
    | zero => exact nofun
    | succ n =>
      rintro _ ⟨⟩
      rfl
  rw [contents_word (by decide +kernel) (hword n), hkind]
  induction n with
  | zero => rw [further, List.replicate_zero, List.flatten_nil, contents_nil]; rfl
  | succ n ih =>
    have hcons : further (n + 1) = ',' :: ("a".toList ++ further n) := rfl
    rw [hcons, contents_symbol (by decide) rfl, contents_word (by decide +kernel) (hword n), hkind,
      ih]
    rfl

theorem contents_orderByMany (n : Nat) : contents (orderByMany n).toList =
    plainHead.map Token.content ++ ([(.keyword .order, "ORDER"), (.keyword .by, "BY")] ++
      ((.identifier, "a") :: furtherContents n)) := by
  have hblank : Text.isBlank ' ' = true := Text.isBlank_iff.2 (by decide)
  have hname : (isWord "a" && wordKind "a" == .identifier) = true := by decide +kernel
  have htype : wordKind "UInt8" = .identifier := by decide +kernel
  have hclose (cs : List Char) : ∀ d ∈ (')' :: cs).head?, isWordPart d = false := by
    rintro _ ⟨⟩
    rfl
  have horder : (isWord "ORDER" && wordKind "ORDER" == .keyword .order) = true := by decide +kernel
  have hby : (isWord "BY" && wordKind "BY" == .keyword .by) = true := by decide +kernel
  have htext : (orderByMany n).toList = "CREATE TABLE t (".toList ++ ("a".toList ++ ' ' ::
      ("UInt8".toList ++ ')' :: ' ' :: ("ORDER".toList ++ ' ' :: ("BY".toList ++ ' ' ::
        ("a".toList ++ further n))))) := by
    have happend : (orderByMany n).toList =
        "CREATE TABLE t (a UInt8) ORDER BY a".toList ++ further n :=
      String.toList_append.trans (congrArg _ String.toList_ofList)
    have hliteral : "CREATE TABLE t (a UInt8) ORDER BY a".toList = "CREATE TABLE t (".toList ++
        ("a".toList ++ ' ' :: ("UInt8".toList ++ ')' :: ' ' :: ("ORDER".toList ++ ' ' ::
          ("BY".toList ++ ' ' :: "a".toList)))) := by decide +kernel
    rw [happend, hliteral]
    simp only [List.append_assoc, List.cons_append]
  have hclosing (cs : List Char) : contents (')' :: cs) = (.closeParen, ")") :: contents cs :=
    contents_symbol (by decide) rfl cs
  rw [htext, contents_header, contents_word_blank hname,
    contents_word (by decide +kernel) (hclose _), htype, hclosing, contents_blank hblank,
    contents_word_blank horder, contents_word_blank hby, contents_further]
  rfl

theorem tableHead_of_contents {ts : List Token} (source : String)
    (h : ts.map Token.content = plainHead.map Token.content) :
    ∃ table, tableHead source (.ofTokens ts) = .ok table ⟨ts.length, []⟩ ∧ table.columns ≠ [] := by
  obtain ⟨⟨_, _, _⟩, _, rfl, ⟨⟩, h₁⟩ := List.map_eq_cons_iff.1 h
  obtain ⟨⟨_, _, _⟩, _, rfl, ⟨⟩, h₂⟩ := List.map_eq_cons_iff.1 h₁
  obtain ⟨⟨_, _, _⟩, _, rfl, ⟨⟩, h₃⟩ := List.map_eq_cons_iff.1 h₂
  obtain ⟨⟨_, _, _⟩, _, rfl, ⟨⟩, h₄⟩ := List.map_eq_cons_iff.1 h₃
  obtain ⟨⟨_, _, _⟩, _, rfl, ⟨⟩, h₅⟩ := List.map_eq_cons_iff.1 h₄
  obtain ⟨⟨_, _, _⟩, _, rfl, ⟨⟩, h₆⟩ := List.map_eq_cons_iff.1 h₅
  obtain ⟨⟨_, _, _⟩, rfl, ⟨⟩⟩ := List.map_eq_singleton_iff.1 h₆
  exact ⟨_, rfl, List.cons_ne_nil _ _⟩

theorem kinds_further (n : Nat) : ∀ content ∈ furtherContents n,
    content.1 = .identifier ∨ content.1 = .comma := by
  intro content h
  obtain ⟨_, hpair, h⟩ := List.mem_flatten.1 h
  rw [(List.mem_replicate.1 hpair).2] at h
  simp only [List.mem_cons, List.not_mem_nil, or_false] at h
  obtain rfl | rfl := h
  · exact .inr rfl
  · exact .inl rfl

/-- If the steps do not suffice for its expression, a statement is not read. -/
theorem statement_orderByMany {n : Nat} (hn : (Ceiling.steps .expression).limit ≤ 2 * n) :
    ∃ w table, WrittenTable.Declares (orderByMany n) w table ∧ ∀ read c,
      statement (orderByMany n) (.ofTokens (tokenize (orderByMany n))) ≠ .ok read c := by
  have hts := map_content_tokenize (orderByMany n)
  rw [contents_orderByMany] at hts
  obtain ⟨head, _, htokens, hhead, hts⟩ := List.map_eq_append_iff.1 hts
  obtain ⟨words, body, rfl, hwords, hbody⟩ := List.map_eq_append_iff.1 hts
  obtain ⟨table, htable, hcolumns⟩ := tableHead_of_contents (orderByMany n) hhead
  have hkinds : ∀ t ∈ body, t.kind = .identifier ∨ t.kind = .comma := by
    intro t ht
    have hmem : t.content ∈ (TokenKind.identifier, "a") :: furtherContents n :=
      hbody ▸ List.mem_map_of_mem ht
    obtain heq | hmem := List.mem_cons.1 hmem
    · exact .inl (Prod.mk.inj heq).1
    · exact kinds_further n _ hmem
  have hclear : Clear (endsRun startsTableClause) body := .of_forall fun t ht => by
    obtain ht | ht := hkinds t ht <;> simp [endsRun, startsTableClause, ht]
  have hlength : body.length = 2 * n + 1 := by
    have hcontents := congrArg List.length hbody
    simp only [List.length_map, List.length_cons, furtherContents, List.length_flatten,
      List.map_replicate, List.sum_replicate, List.length_nil, smul_eq_mul] at hcontents
    omega
  have hne : body ≠ [] := List.ne_nil_of_length_eq_add_one hlength
  have hwritten : TableClause.IsWritten ⟨.orderBy, words, body⟩ := by
    refine ⟨List.mem_singleton.2 ?_, hne, hclear⟩
    have hkind := congrArg (List.map Prod.fst) hwords
    rwa [List.map_map] at hkind
  have hdeclares : WrittenTable.Declares (orderByMany n) ⟨head, [⟨.orderBy, words, body⟩], []⟩
      table := by
    refine ⟨?_, htable, hcolumns, List.forall_mem_singleton.2 hwritten, List.nodup_singleton _,
      endsClauses_nil⟩
    simpa [TableClause.tokens] using htokens
  refine ⟨_, table, hdeclares, hdeclares.statement_ne_ok rfl fun hfits => ?_⟩
  have hle : body.length ≤ (Ceiling.steps .expression).limit := hfits
  omega

/-- A table without columns is not declared, whatever its clauses. -/
def declaresNothing : String := "CREATE TABLE t () ENGINE = Log"

theorem statement_orderByMany_overlong :
    (∃ w table, WrittenTable.Declares (orderByMany 50000) w table ∧ ∀ read c,
      statement (orderByMany 50000) (.ofTokens (tokenize (orderByMany 50000))) ≠ .ok read c) ∧
    readColumns? declaresNothing = none := by
  have hlong : (Ceiling.steps .expression).limit ≤ 2 * 50000 := by decide
  exact ⟨statement_orderByMany hlong, by decide +kernel⟩

end Overlong

end Grammar

end TypedTables
