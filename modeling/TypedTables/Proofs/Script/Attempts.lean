import TypedTables.Proofs.Grammar.Clauses
import TypedTables.Proofs.Script
import TypedTables.Proofs.Token.Place

/-!
What becomes of each `CREATE` of a script. A statement that is kept is read in attempts, each at a
`CREATE`: a table takes the tokens it has been read from, and behind a failure reading goes on with
the next token. So attempts stand side by side in the order of the tokens, and every `CREATE` is
accounted for by one of them.
-/

namespace TypedTables

open Lexeme
open String (utf8Len)

/-- What came of reading a declaration at a token of a statement; tokens are counted from 0. -/
inductive Attempt
  /-- A table that takes the tokens from `first` on, up to the one at `behind`. -/
  | declared (first behind : Nat) (table : TableDecl)
  | failed (first : Nat) (diagnostic : Diagnostic)

namespace Attempt

/-- How an attempt accounts for a token. -/
inductive Fate
  /-- It is the first token of a table. -/
  | begins
  /-- It stands inside a table, behind its first token. -/
  | within
  /-- No table could be read from it. -/
  | fails
  deriving DecidableEq, Repr

def first : Attempt → Nat
  | declared first _ _ => first
  | failed first _ => first

/-- Where reading goes on. -/
def behind : Attempt → Nat
  | declared _ behind _ => behind
  | failed first _ => first + 1

def table? : Attempt → Option TableDecl
  | declared _ _ table => some table
  | failed _ _ => none

def diagnostic? : Attempt → Option Diagnostic
  | declared _ _ _ => none
  | failed _ diagnostic => some diagnostic

/-- How the attempt accounts for the token at `i`, if it does. -/
def fate? (i : Nat) : Attempt → Option Fate
  | declared first behind _ =>
    if i = first then some .begins
    else if first < i ∧ i < behind then some .within
    else none
  | failed first _ => if i = first then some .fails else none

/-- The attempt is one to read the statement. -/
inductive Made (s : Statement) : Attempt → Prop
  | declared {first : Nat} {table : TableDecl} {c : Cursor}
    (hread : Grammar.statement s.text (.ofTokens ((tokenize s.text).drop first)) = .ok table c) :
    Made s (.declared first (first + c.position) table)
  | failed {first : Nat} {cause : ParseError} {c : Cursor}
    (hread : Grammar.statement s.text (.ofTokens ((tokenize s.text).drop first)) =
      .error (.parse cause) c) :
    Made s (.failed first ⟨.unparsed cause, s.locate (cause.span?.getD s.span)⟩)

end Attempt

/-- The span lies inside the statement. -/
def Statement.Encloses (s : Statement) (span : Span) : Prop :=
  s.start.offset ≤ span.offset ∧
    span.offset + span.length ≤ s.start.offset + s.text.utf8ByteSize

/-- Attempts to read a statement from the token at `n` on, one behind the other. -/
structure Statement.ReadFrom (s : Statement) (n : Nat) (attempts : List Attempt) : Prop where
  made : ∀ a ∈ attempts, a.Made s
  /-- Each is made at a `CREATE`. -/
  creates : ∀ a ∈ attempts, ((tokenize s.text)[a.first]?.any (·.isKeyword .create)) = true
  /-- Each takes tokens that are there. -/
  extent : ∀ a ∈ attempts, n ≤ a.first ∧ a.first < a.behind ∧ a.behind ≤ (tokenize s.text).length
  ordered : attempts.Pairwise fun a b => a.behind ≤ b.first
  /-- Each failure is reported where the statement stands. -/
  reported : ∀ a ∈ attempts, ∀ d ∈ a.diagnostic?, d.kind.code = "W0001" ∧ s.Encloses d.span
  /-- No `CREATE` is passed over. -/
  complete : ∀ i t, n ≤ i → (tokenize s.text)[i]? = some t → t.isKeyword .create = true →
    ∃ a ∈ attempts, (a.fate? i).isSome = true

section Spans

variable {s : Statement}

theorem Statement.encloses_span : s.Encloses (s.locate s.span) :=
  ⟨Nat.le_add_right _ _, Nat.le_refl _⟩

theorem Statement.encloses_token {t : Token} (ht : t ∈ tokenize s.text) :
    s.Encloses (s.locate t.span) := by
  obtain ⟨before, c, cs, htext, hspan⟩ := exists_place ht
  have hsize : utf8Len before + utf8Len (c :: cs) = s.text.utf8ByteSize := by
    rw [← String.utf8Len_append, ← htext, String.utf8Len_toList]
  have hlength : utf8Len (c :: cs.take (head c cs).2) ≤ utf8Len (c :: cs) :=
    String.utf8Len_le_of_sublist ((List.take_sublist _ _).cons_cons c)
  rw [hspan, lexemeSpan_start]
  unfold Statement.Encloses Statement.locate
  dsimp only
  omega

end Spans

section Step

variable {s : Statement} {n : Nat} {attempts : List Attempt}

theorem Attempt.fate?_isSome_iff {a : Attempt} (h : a.first < a.behind) {i : Nat} :
    (a.fate? i).isSome = true ↔ a.first ≤ i ∧ i < a.behind := by
  cases a with
  | declared first behind table =>
    change first < behind at h
    simp only [fate?, Attempt.first, Attempt.behind]
    split_ifs <;> simp <;> omega
  | failed first diagnostic =>
    simp only [fate?, Attempt.first, Attempt.behind]
    split_ifs <;> simp <;> omega

namespace Statement.ReadFrom

theorem nil (h : (tokenize s.text).length ≤ n) : s.ReadFrom n [] where
  made := List.forall_mem_nil _
  creates := List.forall_mem_nil _
  extent := List.forall_mem_nil _
  ordered := .nil
  reported := List.forall_mem_nil _
  complete i t hi ht _ := by
    obtain ⟨hlt, -⟩ := List.getElem?_eq_some_iff.1 ht
    omega

/-- A token that is no `CREATE` is passed over. -/
theorem skip {t : Token} (ht : (tokenize s.text)[n]? = some t)
    (hcreate : ¬t.isKeyword .create = true) (h : s.ReadFrom (n + 1) attempts) :
    s.ReadFrom n attempts :=
  { h with
    extent := fun a ha => ⟨by have := (h.extent a ha).1; omega, (h.extent a ha).2⟩
    complete := fun i u hi hu hk => by
      obtain rfl | hlt := Nat.eq_or_lt_of_le hi
      · rw [ht] at hu
        cases hu
        exact absurd hk hcreate
      · exact h.complete i u hlt hu hk }

/-- An attempt at a `CREATE`, and those behind what it takes. -/
theorem cons {a : Attempt} {t : Token} (ht : (tokenize s.text)[a.first]? = some t)
    (hcreate : t.isKeyword .create = true) (hmade : a.Made s)
    (hextent : a.first < a.behind ∧ a.behind ≤ (tokenize s.text).length)
    (hreported : ∀ d ∈ a.diagnostic?, d.kind.code = "W0001" ∧ s.Encloses d.span)
    (h : s.ReadFrom a.behind attempts) : s.ReadFrom a.first (a :: attempts) where
  made := List.forall_mem_cons.2 ⟨hmade, h.made⟩
  creates := List.forall_mem_cons.2 ⟨by rw [ht]; exact hcreate, h.creates⟩
  extent := by
    refine List.forall_mem_cons.2 ⟨⟨Nat.le_refl _, hextent⟩, fun b hb => ?_⟩
    obtain ⟨hfirst, hrest⟩ := h.extent b hb
    exact ⟨by omega, hrest⟩
  ordered := List.pairwise_cons.2 ⟨fun b hb => (h.extent b hb).1, h.ordered⟩
  reported := List.forall_mem_cons.2 ⟨hreported, h.reported⟩
  complete i u hi hu hk := by
    by_cases hbehind : i < a.behind
    · exact ⟨a, List.mem_cons_self, (a.fate?_isSome_iff hextent.1).2 ⟨hi, hbehind⟩⟩
    · obtain ⟨b, hb, hfate⟩ := h.complete i u (Nat.le_of_not_lt hbehind) hu hk
      exact ⟨b, List.mem_cons_of_mem a hb, hfate⟩

/-- What two attempts account for is apart, so that a token has one fate only. -/
theorem existsUnique_fate (h : s.ReadFrom n attempts) {i : Nat} {t : Token} (hi : n ≤ i)
    (ht : (tokenize s.text)[i]? = some t) (hcreate : t.isKeyword .create = true) :
    ∃! p : Nat × Attempt.Fate, attempts[p.1]?.bind (·.fate? i) = some p.2 := by
  have hextent {k : Nat} {a : Attempt} {fate : Attempt.Fate} (hk : attempts[k]? = some a)
      (hfate : a.fate? i = some fate) : a.first ≤ i ∧ i < a.behind :=
    (a.fate?_isSome_iff (h.extent a (List.mem_of_getElem? hk)).2.1).1 (by rw [hfate]; rfl)
  have hapart {k l : Nat} {a b : Attempt} (hk : attempts[k]? = some a) (hl : attempts[l]? = some b)
      (hlt : k < l) : a.behind ≤ b.first := by
    obtain ⟨hk', rfl⟩ := List.getElem?_eq_some_iff.1 hk
    obtain ⟨hl', rfl⟩ := List.getElem?_eq_some_iff.1 hl
    exact List.pairwise_iff_getElem.1 h.ordered k l hk' hl' hlt
  obtain ⟨a, ha, hfate⟩ := h.complete i t hi ht hcreate
  obtain ⟨k, hk⟩ := List.mem_iff_getElem?.1 ha
  obtain ⟨fate, hfate⟩ := Option.isSome_iff_exists.1 hfate
  refine ⟨(k, fate), Option.bind_eq_some_iff.2 ⟨a, hk, hfate⟩, fun (l, fate') hp => ?_⟩
  obtain ⟨b, hl, hfate'⟩ := Option.bind_eq_some_iff.1 hp
  have hone := hextent hk hfate
  have hother := hextent hl hfate'
  obtain rfl : k = l := by
    refine Nat.le_antisymm (Nat.le_of_not_lt fun hlt => ?_) (Nat.le_of_not_lt fun hlt => ?_)
    · have := hapart hl hk hlt
      omega
    · have := hapart hk hl hlt
      omega
  obtain rfl : a = b := Option.some.inj (hk.symm.trans hl)
  obtain rfl : fate = fate' := Option.some.inj (hfate.symm.trans hfate')
  rfl

end Statement.ReadFrom

end Step

section Attempts

variable {s : Statement} {n : Nat} {t : Token} {rest : List Token} {attempts : List Attempt}

theorem getElem?_of_drop (h : t :: rest = (tokenize s.text).drop n) :
    (tokenize s.text)[n]? = some t := by
  rw [← List.head?_drop, ← h]
  rfl

theorem drop_of_drop (h : t :: rest = (tokenize s.text).drop n) (k : Nat) :
    rest.drop k = (tokenize s.text).drop (n + (k + 1)) := by
  rw [← List.drop_drop, ← h, List.drop_succ_cons]

/-- A table takes at least its `CREATE`, and no more tokens than there are. -/
theorem extent_of_statement (htokens : t :: rest = (tokenize s.text).drop n) {table : TableDecl}
    {c : Cursor} (hs : Grammar.statement s.text (.ofTokens (t :: rest)) = .ok table c) :
    0 < c.position ∧ n + c.position ≤ (tokenize s.text).length := by
  obtain ⟨taken, hmoved, create, more, rfl, -⟩ := (Grammar.moves_statement _).of_ok hs
  have hposition : c.position = 0 + (create :: more).length := hmoved.position
  have hrest : t :: rest = create :: more ++ c.rest := hmoved.rest
  have hlength := congrArg List.length (htokens.symm.trans hrest)
  have hlt := (List.getElem?_eq_some_iff.1 (getElem?_of_drop htokens)).1
  rw [List.length_drop, List.length_append, List.length_cons] at hlength
  rw [List.length_cons] at hposition
  omega

theorem Statement.ReadFrom.declared (htokens : t :: rest = (tokenize s.text).drop n)
    (hcreate : t.isKeyword .create = true) {table : TableDecl} {c : Cursor}
    (hs : Grammar.statement s.text (.ofTokens (t :: rest)) = .ok table c)
    (h : s.ReadFrom (n + c.position) attempts) :
    s.ReadFrom n (.declared n (n + c.position) table :: attempts) := by
  obtain ⟨hpos, hlength⟩ := extent_of_statement htokens hs
  have hmade : Attempt.Made s (.declared n (n + c.position) table) := by
    rw [htokens] at hs
    exact .declared hs
  have hextent : n < n + c.position ∧ n + c.position ≤ (tokenize s.text).length :=
    ⟨Nat.lt_add_of_pos_right hpos, hlength⟩
  exact .cons (getElem?_of_drop htokens) hcreate hmade hextent (fun _ hd => nomatch hd) h

/-- A failure is reported where the statement stands: at one of its tokens, or all over it. -/
theorem encloses_of_failed (htokens : t :: rest = (tokenize s.text).drop n) {cause : ParseError}
    {c : Cursor} (hs : Grammar.statement s.text (.ofTokens (t :: rest)) = .error (.parse cause) c) :
    s.Encloses (s.locate (cause.span?.getD s.span)) := by
  have hmoves := (Grammar.moves_statement (.ofTokens (t :: rest))).of_error hs cause rfl
  cases hspan : cause.span? with
  | none => exact Statement.encloses_span
  | some span =>
    obtain ⟨u, hu, hat⟩ := hmoves span hspan
    have hmem : u ∈ t :: rest := hu
    rw [htokens] at hmem
    rw [Option.getD_some, ← hat]
    exact Statement.encloses_token (List.mem_of_mem_drop hmem)

theorem Statement.ReadFrom.failed (htokens : t :: rest = (tokenize s.text).drop n)
    (hcreate : t.isKeyword .create = true) {cause : ParseError} {c : Cursor}
    (hs : Grammar.statement s.text (.ofTokens (t :: rest)) = .error (.parse cause) c)
    (h : s.ReadFrom (n + 1) attempts) :
    s.ReadFrom n
      (.failed n ⟨.unparsed cause, s.locate (cause.span?.getD s.span)⟩ :: attempts) := by
  have hencloses := encloses_of_failed htokens hs
  have hmade : Attempt.Made s
      (.failed n ⟨.unparsed cause, s.locate (cause.span?.getD s.span)⟩) := by
    rw [htokens] at hs
    exact .failed hs
  have hhead := getElem?_of_drop htokens
  refine .cons hhead hcreate hmade ?_ (fun d hd => ?_) h
  · exact ⟨Nat.lt_succ_self n, (List.getElem?_eq_some_iff.1 hhead).1⟩
  · cases hd
    exact ⟨rfl, hencloses⟩

end Attempts

section Run

variable {s : Statement} {report report' : Report}

/-- What the report has more than the other one. -/
structure Report.Adds (report report' : Report) (tables : List TableDecl)
    (diagnostics : List Diagnostic) : Prop where
  tables : report'.tables.toList = report.tables.toList ++ tables
  diagnostics : report'.diagnostics.toList = report.diagnostics.toList ++ diagnostics

namespace Report

/-- Reading from a token on adds what the attempts have come to, and nothing else. -/
theorem exists_attempts {tokens : List Token} (hok : addTokens s report tokens = .ok report') :
    ∀ n, tokens = (tokenize s.text).drop n → ∃ attempts, s.ReadFrom n attempts ∧
      report.Adds report' (attempts.filterMap Attempt.table?)
        (attempts.filterMap Attempt.diagnostic?) := by
  fun_induction addTokens s report tokens with
  | case1 report =>
    intro n htokens
    cases hok
    refine ⟨[], .nil (List.drop_eq_nil_iff.1 htokens.symm), ?_, ?_⟩ <;> simp
  | case2 report t rest hcreate table c hs report₁ ih =>
    intro n htokens
    obtain ⟨-, hok⟩ := Ceiling.check_bind_eq_ok.1 hok
    have hpos := (extent_of_statement htokens hs).1
    have hbehind : rest.drop (c.position - 1) = (tokenize s.text).drop (n + c.position) := by
      rw [drop_of_drop htokens, Nat.sub_add_cancel hpos]
    obtain ⟨attempts, hread, htables, hdiagnostics⟩ := ih hok _ hbehind
    refine ⟨_, hread.declared htokens hcreate hs, ?_, hdiagnostics⟩
    rw [htables]
    simp [report₁, declare, Attempt.table?]
  | case3 report t rest hcreate cause c hs ih =>
    intro n htokens
    obtain ⟨attempts, hread, htables, hdiagnostics⟩ := ih hok _ (drop_of_drop htokens 0)
    refine ⟨_, hread.failed htokens hcreate hs, htables, ?_⟩
    rw [hdiagnostics]
    simp [drop, Attempt.diagnostic?]
  | case4 => contradiction
  | case5 report t rest hcreate ih =>
    intro n htokens
    obtain ⟨attempts, hread, h⟩ := ih hok _ (drop_of_drop htokens 0)
    exact ⟨attempts, hread.skip (getElem?_of_drop htokens) hcreate, h⟩

end Report

end Run

/-- What becomes of a statement. -/
inductive Account
  /-- It is a view that is left out, and reported. -/
  | filtered (diagnostic : Diagnostic)
  | read (attempts : List Attempt)

namespace Account

def tables : Account → List TableDecl
  | filtered _ => []
  | read attempts => attempts.filterMap Attempt.table?

def diagnostics : Account → List Diagnostic
  | filtered diagnostic => [diagnostic]
  | read attempts => attempts.filterMap Attempt.diagnostic?

/-- The account is one of the statement: a view is left out as a whole, and any other statement is
read in attempts of which exactly one accounts, in one way, for each of its `CREATE`s. -/
inductive Of (s : Statement) : Account → Prop
  | filtered {diagnostic : Diagnostic} (hclass : Statement.classify (tokenize s.text) ≠ .keep)
    (hcode : diagnostic.kind.code = "W0002") (hspan : diagnostic.span = s.locate s.span) :
    Of s (.filtered diagnostic)
  | read {attempts : List Attempt} (hclass : Statement.classify (tokenize s.text) = .keep)
    (hread : s.ReadFrom 0 attempts)
    (hfate : ∀ i t, (tokenize s.text)[i]? = some t → t.isKeyword .create = true →
      ∃! p : Nat × Attempt.Fate, attempts[p.1]?.bind (·.fate? i) = some p.2) :
    Of s (.read attempts)

end Account

namespace Report

variable {s : Statement} {report report' : Report}

theorem adds_drop (cause : Dropped) (span : Option Span) :
    report.Adds (report.drop s cause span) [] [⟨cause, s.locate (span.getD s.span)⟩] :=
  ⟨(List.append_nil _).symm, Array.toList_push⟩

theorem Adds.trans {report₁ : Report} {tables tables' : List TableDecl}
    {diagnostics diagnostics' : List Diagnostic} (h : report.Adds report₁ tables diagnostics)
    (h' : report₁.Adds report' tables' diagnostics') :
    report.Adds report' (tables ++ tables') (diagnostics ++ diagnostics') where
  tables := by rw [h'.tables, h.tables, List.append_assoc]
  diagnostics := by rw [h'.diagnostics, h.diagnostics, List.append_assoc]

theorem exists_account (hok : addStatement report s = .ok report') :
    ∃ account, Account.Of s account ∧ report.Adds report' account.tables account.diagnostics := by
  obtain ⟨-, hok⟩ := Ceiling.check_bind_eq_ok.1 hok
  dsimp only at hok
  split at hok
  · next hclass =>
    obtain ⟨attempts, hread, hadds⟩ := exists_attempts hok 0 rfl
    exact ⟨.read attempts, .read hclass hread fun i t => hread.existsUnique_fate (Nat.zero_le i),
      hadds⟩
  · next hclass =>
    cases hok
    exact ⟨_, .filtered (by rw [hclass]; decide) rfl rfl, adds_drop _ _⟩
  · next hclass =>
    cases hok
    exact ⟨_, .filtered (by rw [hclass]; decide) rfl rfl, adds_drop _ _⟩

theorem exists_accounts (statements : List Statement)
    (hok : statements.foldlM addStatement report = .ok report') :
    ∃ accounts, List.Forall₂ Account.Of statements accounts ∧
      report.Adds report' (accounts.flatMap Account.tables)
        (accounts.flatMap Account.diagnostics) := by
  induction statements generalizing report with
  | nil =>
    cases hok
    exact ⟨[], .nil, (List.append_nil _).symm, (List.append_nil _).symm⟩
  | cons statement statements ih =>
    rw [List.foldlM_cons] at hok
    obtain ⟨report₁, h₁, hok⟩ := bind_eq_ok.1 hok
    obtain ⟨account, hof, hadds⟩ := exists_account h₁
    obtain ⟨accounts, hofs, hadds'⟩ := ih hok
    refine ⟨account :: accounts, .cons hof hofs, ?_⟩
    rw [List.flatMap_cons, List.flatMap_cons]
    exact hadds.trans hadds'

end Report

/-- What a script declares and what is dropped from it is, in the order of the text, what becomes of
its statements: nothing for a view but its report, and one table or one report for each attempt to
read another one, which account for all its `CREATE`s. -/
theorem creates_accounted {source : String} {report : Report}
    (hread : readScript source = .ok report) :
    ∃ accounts, List.Forall₂ Account.Of (Statement.split source) accounts ∧
      report.tables.toList = accounts.flatMap Account.tables ∧
      report.diagnostics.toList = accounts.flatMap Account.diagnostics := by
  obtain ⟨-, h⟩ := Ceiling.check_bind_eq_ok.1 hread
  obtain ⟨-, h⟩ := Ceiling.check_bind_eq_ok.1 h
  obtain ⟨accounts, hof, htables, hdiagnostics⟩ := Report.exists_accounts _ h
  exact ⟨accounts, hof, htables, hdiagnostics⟩

/-- A view that is left out, a `CREATE` that nothing can be read from, and a table with a `CREATE`
inside. -/
theorem creates_accounted_nested : ∃ report,
    readScript "CREATE VIEW p AS SELECT 1; CREATE CREATE TABLE t (create UInt8)" = .ok report ∧
      report.tables.toList.map (·.name) = ["t"] ∧
      report.diagnostics.toList.map (·.kind.code) = ["W0002", "W0001"] ∧
      ∃ accounts, List.Forall₂ Account.Of (Statement.split
          "CREATE VIEW p AS SELECT 1; CREATE CREATE TABLE t (create UInt8)") accounts ∧
        report.tables.toList = accounts.flatMap Account.tables ∧
        report.diagnostics.toList = accounts.flatMap Account.diagnostics := by
  have h : (readScript
      "CREATE VIEW p AS SELECT 1; CREATE CREATE TABLE t (create UInt8)").toOption.any
      (fun report => report.tables.toList.map (·.name) = ["t"] ∧
        report.diagnostics.toList.map (·.kind.code) = ["W0002", "W0001"]) = true := by
    decide +kernel
  obtain ⟨report, hread, h⟩ := exists_of_any h
  obtain ⟨hnames, hcodes⟩ := of_decide_eq_true h
  exact ⟨report, hread, hnames, hcodes, creates_accounted hread⟩

end TypedTables
