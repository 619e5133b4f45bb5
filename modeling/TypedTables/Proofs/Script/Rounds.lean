import TypedTables.Proofs.Grammar.Progress
import TypedTables.Proofs.Script.Attempts

/-!
Reading goes on. Statements read one after the other from the same tokens leave the cursor further
and further behind, and the scan for the next `CREATE` of a statement advances with every round,
whether a table has been read in it or not.
-/

namespace TypedTables

namespace Cursor

/-- The cursor is at its position in these tokens. -/
structure StandsIn (tokens : List Token) (c : Cursor) : Prop where
  rest : c.rest = tokens.drop c.position
  within : c.position ≤ tokens.length

variable {tokens taken : List Token} {c c₁ : Cursor}

theorem standsIn_ofTokens (tokens : List Token) : (ofTokens tokens).StandsIn tokens :=
  ⟨rfl, Nat.zero_le _⟩

theorem StandsIn.moved (h : c.StandsIn tokens) (hmoved : c.Moved taken c₁) :
    c₁.StandsIn tokens := by
  have hdrop : tokens.drop c.position = taken ++ c₁.rest := h.rest ▸ hmoved.rest
  constructor
  · rw [hmoved.position, ← List.drop_drop, hdrop, List.drop_left]
  · have hlength := congrArg List.length hdrop
    have hwithin := h.within
    rw [List.length_drop, List.length_append] at hlength
    rw [hmoved.position]
    omega

end Cursor

namespace Grammar

variable {α : Type} {source : String} {tokens : List Token}

/-- Where a step leaves the cursor, whether it succeeds or not. -/
def cursorOf : EStateM.Result Error Cursor α → Cursor
  | .ok _ c | .error _ c => c

/-- Why a step has come to nothing. -/
def errorOf? : EStateM.Result Error Cursor α → Option Error
  | .ok _ _ => none
  | .error e _ => some e

theorem errorOf?_eq_none {r : EStateM.Result Error Cursor α} :
    errorOf? r = none ↔ ∃ a c, r = .ok a c := by
  cases r <;> simp [errorOf?]

theorem errorOf?_eq_some {r : EStateM.Result Error Cursor α} {e : Error} :
    errorOf? r = some e ↔ ∃ c, r = .error e c := by
  cases r <;> simp [errorOf?, eq_comm]

theorem Arrives.exists_moved {room : Nat} {c : Cursor} {P : α → List Token → Prop}
    {r : EStateM.Result Error Cursor α} (h : Arrives room c P r) :
    ∃ taken, c.Moved taken (cursorOf r) := by
  cases r with
  | ok a c₁ => exact h.imp fun taken h => h.1
  | error e c₁ => exact h.1

/-- The cursor after `n` statements have been read, or not, one after the other. -/
def cursorAfter (source : String) (tokens : List Token) : Nat → Cursor
  | 0 => .ofTokens tokens
  | n + 1 => cursorOf (statement source (cursorAfter source tokens n))

theorem exists_moved_cursorAfter (source : String) (tokens : List Token) (n : Nat) : ∃ taken,
    (cursorAfter source tokens n).Moved taken (cursorAfter source tokens (n + 1)) :=
  Arrives.exists_moved (arrivesBy_statement (cursorAfter source tokens n))

theorem standsIn_cursorAfter (n : Nat) : (cursorAfter source tokens n).StandsIn tokens := by
  induction n with
  | zero => exact Cursor.standsIn_ofTokens tokens
  | succ n ih =>
    obtain ⟨taken, hmoved⟩ := exists_moved_cursorAfter source tokens n
    exact ih.moved hmoved

end Grammar

/-- The place of the next `CREATE` from the token at `n` on. -/
def nextCreate? (tokens : List Token) (n : Nat) : Option Nat :=
  ((tokens.drop n).findIdx? (·.isKeyword .create)).map (n + ·)

section Scan

variable {s : Statement} {n n' start : Nat} {report report' : Report}
  {positions : List Nat} {result : Except Error Report}

theorem nextCreate?_eq_some {tokens : List Token} (h : nextCreate? tokens n = some start) :
    n ≤ start ∧ start < tokens.length := by
  obtain ⟨i, hi, rfl⟩ := Option.map_eq_some_iff.1 h
  obtain ⟨hlt, -⟩ := List.findIdx?_eq_some_iff_getElem.1 hi
  rw [List.length_drop] at hlt
  omega

/-- One round of the scan for declarations: from the token at one place on the next `CREATE` is
looked for, and reading goes on at the other place. -/
inductive Round (s : Statement) (n : Nat) (report : Report) : Nat → Report → Prop
  /-- Behind a table, which is taken to have a token at least. -/
  | declared {start : Nat} {table : TableDecl} {c : Cursor}
    (hnext : nextCreate? (tokenize s.text) n = some start)
    (hread : Grammar.statement s.text (.ofTokens ((tokenize s.text).drop start)) = .ok table c)
    (hcount : (report.declare table).tables.size ≤ Ceiling.tableCount.limit) :
    Round s n report (start + max c.position 1) (report.declare table)
  /-- Behind the `CREATE` from which nothing could be read. -/
  | failed {start : Nat} {cause : ParseError} {c : Cursor}
    (hnext : nextCreate? (tokenize s.text) n = some start)
    (hread : Grammar.statement s.text (.ofTokens ((tokenize s.text).drop start)) =
      .error (.parse cause) c) :
    Round s n report (start + 1) (report.drop s (.unparsed cause) cause.span?)

/-- The scan from a place on: the places from which its rounds begin, apart from the first one, and
what it comes to. -/
inductive Scan (s : Statement) : Nat → Report → List Nat → Except Error Report → Prop
  | done {n : Nat} {report : Report} (hnext : nextCreate? (tokenize s.text) n = none) :
    Scan s n report [] (.ok report)
  | fatal {n start : Nat} {report : Report} {e : Error} {c : Cursor}
    (hnext : nextCreate? (tokenize s.text) n = some start)
    (hread : Grammar.statement s.text (.ofTokens ((tokenize s.text).drop start)) = .error e c)
    (hfatal : ∀ cause, e ≠ .parse cause) : Scan s n report [] (.error e)
  | full {n start : Nat} {report : Report} {table : TableDecl} {c : Cursor}
    (hnext : nextCreate? (tokenize s.text) n = some start)
    (hread : Grammar.statement s.text (.ofTokens ((tokenize s.text).drop start)) = .ok table c)
    (hcount : Ceiling.tableCount.limit < (report.declare table).tables.size) :
    Scan s n report [] (.error (.exceeded .tableCount))
  | round {n n' : Nat} {report report' : Report} {positions : List Nat}
    {result : Except Error Report} (hround : Round s n report n' report')
    (hrest : Scan s n' report' positions result) : Scan s n report (n' :: positions) result

/-- A round advances, and stays within the tokens. -/
theorem Round.advances (h : Round s n report n' report') :
    n < n' ∧ n' ≤ (tokenize s.text).length := by
  cases h with
  | @declared start table c hnext hread hcount =>
    obtain ⟨hle, hlt⟩ := nextCreate?_eq_some hnext
    have hcursor : Grammar.cursorOf (Grammar.statement s.text
        (.ofTokens ((tokenize s.text).drop start))) = c := by rw [hread]; rfl
    have harrives : Grammar.ArrivesBy _ _ (Grammar.statement s.text) _ :=
      Grammar.arrivesBy_statement (.ofTokens ((tokenize s.text).drop start))
    obtain ⟨taken, hmoved⟩ := Grammar.Arrives.exists_moved harrives
    rw [hcursor] at hmoved
    have hwithin := ((Cursor.standsIn_ofTokens _).moved hmoved).within
    rw [List.length_drop] at hwithin
    omega
  | failed hnext hread =>
    obtain ⟨hle, hlt⟩ := nextCreate?_eq_some hnext
    omega

theorem Scan.isChain (h : Scan s n report positions result) :
    (n :: positions).IsChain (· < ·) := by
  induction h with
  | done | fatal | full => exact List.isChain_singleton _
  | round hround _ ih => exact List.isChain_cons_cons.2 ⟨hround.advances.1, ih⟩

/-- A token that is no `CREATE` is passed over. -/
theorem Scan.skip (hnext : nextCreate? (tokenize s.text) n = nextCreate? (tokenize s.text) (n + 1))
    (h : Scan s (n + 1) report positions result) : Scan s n report positions result := by
  cases h with
  | done h => exact .done (hnext.trans h)
  | fatal h hread hfatal => exact .fatal (hnext.trans h) hread hfatal
  | full h hread hcount => exact .full (hnext.trans h) hread hcount
  | round hround hrest =>
    refine .round ?_ hrest
    cases hround with
    | declared h hread hcount => exact .declared (hnext.trans h) hread hcount
    | failed h hread => exact .failed (hnext.trans h) hread

theorem nextCreate?_cons {tokens rest : List Token} {t : Token} (h : t :: rest = tokens.drop n) :
    nextCreate? tokens n = if t.isKeyword .create then some n else nextCreate? tokens (n + 1) := by
  have hrest : tokens.drop (n + 1) = rest := by rw [← List.drop_drop, ← h]; rfl
  rw [nextCreate?, nextCreate?, hrest, ← h, List.findIdx?_cons]
  split_ifs
  · rfl
  · rw [Option.map_map]
    congr 1
    funext i
    exact Nat.add_right_comm n i 1

/-- Reading the tokens of a statement is such a scan. -/
theorem exists_scan (s : Statement) (report : Report) {tokens : List Token} (n : Nat)
    (h : tokens = (tokenize s.text).drop n) :
    ∃ positions, Scan s n report positions (report.addTokens s tokens) := by
  fun_induction Report.addTokens s report tokens generalizing n with
  | case1 report =>
    refine ⟨[], .done ?_⟩
    rw [nextCreate?, ← h]
    rfl
  | case2 report t rest hcreate table c hs report₁ ih =>
    have hnext := (nextCreate?_cons h).trans (if_pos hcreate)
    have hread := hs
    rw [h] at hread
    by_cases hcount : report₁.tables.size ≤ Ceiling.tableCount.limit
    · have hpos := (extent_of_statement h hs).1
      have hbehind : rest.drop (c.position - 1) =
          (tokenize s.text).drop (n + max c.position 1) := by
        rw [drop_of_drop h, Nat.sub_add_cancel hpos, Nat.max_eq_left hpos]
      obtain ⟨positions, hscan⟩ := ih _ hbehind
      rw [Ceiling.check_eq_ok.2 hcount]
      exact ⟨_, .round (.declared hnext hread hcount) hscan⟩
    · have hcount := Nat.lt_of_not_le hcount
      rw [Ceiling.check_eq_error.2 ⟨hcount, rfl⟩]
      exact ⟨[], .full hnext hread hcount⟩
  | case3 report t rest hcreate cause c hs ih =>
    have hnext := (nextCreate?_cons h).trans (if_pos hcreate)
    rw [h] at hs
    obtain ⟨positions, hscan⟩ := ih (n + 1) (drop_of_drop h 0)
    exact ⟨_, .round (.failed hnext hs) hscan⟩
  | case4 report t rest hcreate e c hfatal hs =>
    have hnext := (nextCreate?_cons h).trans (if_pos hcreate)
    rw [h] at hs
    exact ⟨[], .fatal hnext hs hfatal⟩
  | case5 report t rest hcreate ih =>
    have hnext := (nextCreate?_cons h).trans (if_neg hcreate)
    obtain ⟨positions, hscan⟩ := ih (n + 1) (drop_of_drop h 0)
    exact ⟨positions, hscan.skip hnext⟩

end Scan

namespace Grammar

/-- Statements are read from wherever the one before left off. The position never falls, stays
within the tokens, and rises with each statement that is read; no loop comes to the end of its steps
if there are no more tokens than steps. The scan of a statement for declarations rises with every
round. -/
theorem statement_progress :
    (∀ (source : String) (tokens : List Token) (n : Nat),
      let c := cursorAfter source tokens n
      let c' := cursorAfter source tokens (n + 1)
      c.rest = tokens.drop c.position ∧ c.position ≤ c'.position ∧ c'.position ≤ tokens.length ∧
      (∀ table c₁, statement source c = .ok table c₁ → c₁ = c' ∧ c.position < c'.position) ∧
      (tokens.length ≤ maxSteps → ∀ ceiling c₁,
        statement source c = .error (.exceeded ceiling) c₁ → ceiling ∈ countCeilings)) ∧
    (∀ (s : Statement) (n n' : Nat) (report report' : Report), Round s n report n' report' →
      n < n' ∧ n' ≤ (tokenize s.text).length) ∧
    ∀ (s : Statement) (report : Report), ∃ positions,
      Scan s 0 report positions (report.addTokens s (tokenize s.text)) ∧
        (0 :: positions).IsChain (· < ·) := by
  refine ⟨fun source tokens n => ?_, fun s n n' report report' => Round.advances, fun s report => ?_⟩
  · intro c c'
    have hstands : c.StandsIn tokens := standsIn_cursorAfter n
    have harrives : ArrivesBy (maxSteps + 1) c (statement source) _ := arrivesBy_statement c
    obtain ⟨taken, hmoved⟩ := exists_moved_cursorAfter source tokens n
    refine ⟨hstands.rest, ?_, (hstands.moved hmoved).within, fun table c₁ hok => ?_,
      fun hlength ceiling c₁ he => ?_⟩
    · rw [hmoved.position]
      exact Nat.le_add_right _ _
    · have hc : c' = c₁ := congrArg cursorOf hok
      unfold ArrivesBy at harrives
      rw [hok] at harrives
      obtain ⟨taken, hmoved, htaken⟩ := harrives
      rw [hc, hmoved.position]
      exact ⟨rfl, Nat.lt_add_of_pos_right (List.length_pos_iff.2 htaken)⟩
    · unfold ArrivesBy at harrives
      rw [he] at harrives
      refine harrives.2 ?_ ceiling rfl
      rw [hstands.rest, List.length_drop]
      omega
  · obtain ⟨positions, hscan⟩ := exists_scan s report 0 rfl
    exact ⟨positions, hscan, hscan.isChain⟩

/-- A table, and behind it a `CREATE` from which nothing can be read. -/
def tableAndName : Statement := ⟨"CREATE TABLE a (x Int8); CREATE TABLE b", .start⟩

theorem statement_progress_tableAndName :
    let source := tableAndName.text
    let tokens := tokenize source
    let c := cursorAfter source tokens
    (∃ table, statement source (c 0) = .ok table (c 1) ∧ (c 0).position < (c 1).position) ∧
    (∃ cause, statement source (c 1) = .error (.parse cause) (c 2) ∧
      (c 1).position ≤ (c 2).position ∧ (c 2).position ≤ tokens.length) ∧
    (∀ ceiling c₁, statement source (c 1) = .error (.exceeded ceiling) c₁ →
      ceiling ∈ countCeilings) ∧
    ∃ n' report', Round tableAndName 0 {} n' report' ∧ 0 < n' ∧ n' ≤ tokens.length := by
  intro source tokens c
  have hlength : tokens.length ≤ maxSteps := by decide +kernel
  have hnext : nextCreate? tokens 0 = some 0 := by decide +kernel
  have hfirst : errorOf? (statement source (c 0)) = none := by decide +kernel
  have hsecond : errorOf? (statement source (c 1)) = some (.parse (.noColumns "b")) := by
    decide +kernel
  obtain ⟨table, c₁, hok⟩ := errorOf?_eq_none.1 hfirst
  obtain ⟨c₂, he⟩ := errorOf?_eq_some.1 hsecond
  obtain rfl : c 2 = c₂ := congrArg cursorOf he
  obtain ⟨hparse, hround, -⟩ := statement_progress
  obtain ⟨-, -, -, hrises, -⟩ := hparse source tokens 0
  obtain ⟨-, hle, hwithin, -, hsteps⟩ := hparse source tokens 1
  obtain ⟨rfl, hlt⟩ := hrises table c₁ hok
  have hcount : (Report.declare {} table).tables.size ≤ Ceiling.tableCount.limit := by
    change 1 ≤ Ceiling.tableCount.limit
    decide
  have hdeclared := Round.declared hnext hok hcount
  exact ⟨⟨table, hok, hlt⟩, ⟨_, he, hle, hwithin⟩, hsteps hlength,
    _, _, hdeclared, hround _ _ _ _ _ hdeclared⟩

end Grammar

end TypedTables
