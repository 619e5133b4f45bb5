import TypedTables.Proofs.Checked.Split
import TypedTables.Proofs.Checked.Table
import TypedTables.Script

/-!
Scripts: where a statement stands is counted up to its offset, and its tokens are read from one
`CREATE` to the next.
-/

namespace TypedTables.Checked

open Statement (StandsIn)
open String (utf8Len)

/-- What comes out of a script, if no trap is sprung. -/
abbrev Outcome := Except Stop

instance : MonadLift Access Outcome where
  monadLift x := x.mapError .trapped

instance : MonadLift (Except Error) Outcome where
  monadLift x := x.mapError .failed

section Definitions

variable (largest : Nat) (source : String)

/-- The byte offset of the last line break. -/
def lastBreak? (cs : List Char) : Option Nat :=
  match cs.reverse.dropWhile (· != '\n') with
  | [] => none
  | _ :: before => some (utf8Len before.reverse)

/-- The byte offset at which the last line begins. -/
def lineStart (cs : List Char) : Access Nat :=
  match lastBreak? cs with
  | some i => add largest i 1
  | none => return 0

/-- A span of a statement that begins at `start` as a span of the text. -/
def spanFrom (start : Nat) (span : Span) : Access Span := do
  let before ← textSlice source 0 start
  let line ← add largest (before.toList.count '\n') 1
  let column ← add largest (← sub before.utf8ByteSize (← lineStart largest before.toList)) 1
  let offset ← add largest start span.offset
  let spanLine ← sub (← add largest line span.line) 1
  if span.line = 1 then
    return ⟨offset, span.length, spanLine, ← sub (← add largest column span.column) 1⟩
  else return ⟨offset, span.length, spanLine, span.column⟩

/-- A span of a statement, or all of it, as a span of the text. -/
def locate (statement : RawStatement) (span? : Option Span) : Access Span :=
  spanFrom largest source statement.offset
    (span?.getD ⟨0, statement.text.utf8ByteSize, 1, 1⟩)

def drop (report : Report) (statement : RawStatement) (cause : Dropped) (span? : Option Span) :
    Access Report := do
  let span ← locate largest source statement span?
  return { report with diagnostics := report.diagnostics.push ⟨cause, span⟩ }

/-- The position of the next `CREATE`. -/
def nextCreate? (tokens : List Token) (position : Nat) : Option Nat :=
  ((tokens.drop position).findIdx? (·.isKeyword .create)).map (position + ·)

/-- Reads a declaration at the first of the tokens. The result tells how many of them are passed. -/
def attempt (report : Report) (statement : RawStatement) (tokens : List Token) :
    Outcome (Report × Nat) :=
  match Checked.statement largest ⟨statement.text, tokens⟩ 0 with
  | .ok table taken => do
    let report := report.declare table
    Ceiling.tableCount.check report.tables.size
    return (report, max taken 1)
  | .error (.failed (.parse cause)) _ => do
    return (← drop largest source report statement (.unparsed cause) cause.span?, 1)
  | .error stop _ => throw stop

/-- Reads a declaration at each `CREATE` from `position` on. -/
def addTokens (statement : RawStatement) (tokens : List Token) :
    (fuel : Nat) → (position : Nat) → Report → Outcome Report
  | 0, _, _ => throw (.trapped .endless)
  | fuel + 1, position, report => do
    match nextCreate? tokens position with
    | none => return report
    | some start =>
      let next ← attempt largest source report statement (← partFrom tokens start)
      addTokens statement tokens fuel (start + next.2) next.1

def addStatement (report : Report) (statement : RawStatement) : Outcome Report := do
  Ceiling.statementLength.check statement.text.utf8ByteSize
  match Statement.classify (← tokenize largest statement.text) with
  | .keep =>
    let tokens ← tokenize largest statement.text
    addTokens largest source statement tokens (tokens.length + 1) 0 report
  | .plainView => drop largest source report statement .plainView none
  | .routedView => drop largest source report statement .routedView none

/-- Reads a script. -/
def readScript : Outcome Report := do
  Ceiling.inputLength.check source.utf8ByteSize
  let statements ← split largest source
  Ceiling.statementCount.check statements.length
  statements.foldlM (addStatement largest source) {}

end Definitions

section Places

variable {largest : Nat} {source : String} {s : Statement} {lead : List Char} {span? : Option Span}

theorem exists_lineStart {cs : List Char} (h : utf8Len cs ≤ largest) :
    ∃ n, lineStart largest cs = .ok n ∧ utf8Len cs = n + utf8Len (lastLine cs) := by
  by_cases hmem : '\n' ∈ cs
  · obtain ⟨front, hcs⟩ := exists_break hmem
    have hlast : ∀ c ∈ (lastLine cs).reverse, (c != '\n') = true := fun c hc =>
      bne_iff_ne.2 fun heq => not_mem_lastLine cs (heq ▸ List.mem_reverse.1 hc)
    have hbreak : lastBreak? cs = some (utf8Len front) := by
      rw [lastBreak?, hcs, List.reverse_append, List.reverse_cons, List.append_assoc,
        List.dropWhile_append_of_pos hlast]
      simp
    have hsize : utf8Len cs = utf8Len front + 1 + utf8Len (lastLine cs) := by
      conv_lhs => rw [hcs, String.utf8Len_append, String.utf8Len_cons]
      change _ + (_ + 1) = _
      omega
    refine ⟨utf8Len front + 1, ?_, hsize⟩
    rw [lineStart, hbreak]
    exact add_eq (by omega)
  · have hall : ∀ c ∈ cs.reverse, (c != '\n') = true := fun c hc =>
      bne_iff_ne.2 fun heq => hmem (heq ▸ List.mem_reverse.1 hc)
    have hlast : lastLine cs = cs := lastLine_append_of_not_mem hmem []
    refine ⟨0, ?_, by rw [hlast, Nat.zero_add]⟩
    rw [lineStart, lastBreak?, List.dropWhile_eq_nil_iff.2 hall]
    rfl

/-- Where a token of a statement stands in it; the statement begins where it begins. -/
theorem exists_before (hspan : ∀ span ∈ span?, ∃ t ∈ TypedTables.tokenize s.text, t.span = span) :
    ∃ before, before <+: s.text.toList ∧ (span?.getD s.span).offset = utf8Len before ∧
      (span?.getD s.span).line = 1 + before.count '\n' ∧
      (span?.getD s.span).column = 1 + (lastLine before).length := by
  cases span? with
  | none => exact ⟨[], List.nil_prefix, rfl, rfl, rfl⟩
  | some span =>
    obtain ⟨t, ht, rfl⟩ := hspan span rfl
    obtain ⟨before, c, rest, htext, hspan⟩ := exists_place ht
    rw [lexemeSpan_start] at hspan
    refine ⟨before, ⟨c :: rest, htext.symm⟩, ?_⟩
    rw [Option.getD_some, hspan]
    exact ⟨rfl, rfl, rfl⟩

theorem spanFrom_eq (hfits : Fits largest source) (hne : source ≠ "")
    (hs : s.StandsIn .start source.toList lead) {span : Span} {before : List Char}
    (hbefore : before <+: s.text.toList) (hoffset : span.offset = utf8Len before)
    (hline : span.line = 1 + before.count '\n')
    (hcolumn : span.column = 1 + (lastLine before).length) :
    spanFrom largest source s.start.offset span = .ok (s.locate span) := by
  obtain ⟨inside, hinside⟩ := hbefore
  obtain ⟨behind, hbehind⟩ := hs.text
  have hsource : source.toList = [] ++ lead ++ (before ++ (inside ++ behind)) := by
    rw [← hbehind, ← hinside]
    simp
  have hsize : utf8Len lead + utf8Len before ≤ source.utf8ByteSize := by
    rw [← String.utf8Len_toList, hsource]
    simp only [List.nil_append, String.utf8Len_append]
    omega
  have hslice : textSlice source 0 (utf8Len lead) = .ok (String.ofList lead) := by
    have hslice := textSlice_eq hsource
    rwa [String.utf8Len_nil, Nat.zero_add] at hslice
  have hstart : s.start = ⟨utf8Len lead, 1 + lead.count '\n', 1 + utf8Len (lastLine lead)⟩ :=
    hs.start.trans (Location.advanceBytes_start lead)
  have hpos : 0 < source.utf8ByteSize :=
    Nat.pos_of_ne_zero (mt String.utf8ByteSize_eq_zero_iff.1 hne)
  unfold Fits at hfits
  obtain ⟨n, hlineStart, hlead⟩ := exists_lineStart (by omega : utf8Len lead ≤ largest)
  have hlines := count_le_utf8Len '\n' lead
  have hlines' := count_le_utf8Len '\n' before
  have hcolumns := length_lastLine_le before
  rw [spanFrom, Statement.locate, hstart]
  dsimp only
  rw [Access.bind_eq hslice, String.toList_ofList, ← String.utf8Len_toList, String.toList_ofList,
    Access.bind_eq (add_eq (by omega)), Access.bind_eq hlineStart,
    Access.bind_eq (sub_eq (by omega)), Access.bind_eq (add_eq (by omega)),
    Access.bind_eq (add_eq (by omega)), Access.bind_eq (add_eq (by omega)),
    Access.bind_eq (sub_eq (by omega)), Access.bind_eq (add_eq (by omega)),
    Access.bind_eq (sub_eq (by omega))]
  have hlast : utf8Len lead - n = utf8Len (lastLine lead) := by omega
  rw [hlast, Nat.add_comm (lead.count '\n') 1, Nat.add_comm (utf8Len (lastLine lead)) 1]
  split_ifs <;> rfl

theorem locate_eq (hfits : Fits largest source) (hne : source ≠ "")
    (hs : s.StandsIn .start source.toList lead)
    (hspan : ∀ span ∈ span?, ∃ t ∈ TypedTables.tokenize s.text, t.span = span) :
    locate largest source (.of s) span? = .ok (s.locate (span?.getD s.span)) := by
  obtain ⟨before, hbefore, hoffset, hline, hcolumn⟩ := exists_before hspan
  exact spanFrom_eq hfits hne hs hbefore hoffset hline hcolumn

end Places

section Reports

variable {largest : Nat} {source : String} {s : Statement} {lead : List Char} {report : Report}

theorem drop_eq (hfits : Fits largest source) (hne : source ≠ "")
    (hs : s.StandsIn .start source.toList lead) (cause : Dropped) {span? : Option Span}
    (hspan : ∀ span ∈ span?, ∃ t ∈ TypedTables.tokenize s.text, t.span = span) :
    drop largest source report (.of s) cause span? = .ok (report.drop s cause span?) := by
  rw [drop, Access.bind_eq (locate_eq hfits hne hs hspan)]
  rfl

theorem nextCreate?_of_not {tokens rest : List Token} {t : Token} {position : Nat}
    (h : tokens.drop position = t :: rest) (ht : t.isKeyword .create = false) :
    nextCreate? tokens position = nextCreate? tokens (position + 1) := by
  have hrest : tokens.drop (position + 1) = rest := by
    rw [← List.drop_drop, h, List.drop_one, List.tail_cons]
  rw [nextCreate?, nextCreate?, h, hrest, List.findIdx?_cons, ht, if_neg Bool.false_ne_true,
    Option.map_map]
  refine congrArg (Option.map · _) (funext fun i => ?_)
  exact (Nat.add_right_comm position i 1).trans rfl

theorem nextCreate?_of_create {tokens rest : List Token} {t : Token} {position : Nat}
    (h : tokens.drop position = t :: rest) (ht : t.isKeyword .create = true) :
    nextCreate? tokens position = some position := by
  rw [nextCreate?, h, List.findIdx?_cons, if_pos ht]
  rfl

section Statements

variable {l : Listing} {c : Cursor}

theorem paired_statement (hl : Covers largest l) :
    Paired (At l) (fun e stop => stop = .failed e) Eq
      (Grammar.statement l.source (.ofTokens l.tokens)) (statement largest l 0) :=
  safe_statement hl _ 0 ⟨rfl, Nat.zero_le _⟩

theorem statement_of_ok (hl : Covers largest l) {table : TableDecl}
    (h : Grammar.statement l.source (.ofTokens l.tokens) = .ok table c) :
    statement largest l 0 = .ok table c.position := by
  have hpaired := paired_statement hl
  rw [h] at hpaired
  generalize statement largest l 0 = result at hpaired ⊢
  cases hpaired with
  | ok heq hat => rw [heq, hat.eq]

theorem statement_of_error (hl : Covers largest l) {e : Error}
    (h : Grammar.statement l.source (.ofTokens l.tokens) = .error e c) :
    statement largest l 0 = .error (.failed e) c.position := by
  have hpaired := paired_statement hl
  rw [h] at hpaired
  generalize statement largest l 0 = result at hpaired ⊢
  cases hpaired with
  | error heq hat => rw [heq, hat.eq]

end Statements

theorem mapError_bind {α β ε δ : Type} (x : Except ε α) (f : α → Except ε β) (g : ε → δ) :
    (x >>= f).mapError g = x.mapError g >>= fun a => (f a).mapError g := by
  cases x <;> rfl

theorem outcome_bind {α β : Type} {x : Access α} {a : α} (h : x = .ok a) (f : α → Outcome β) :
    (liftM x : Outcome α) >>= f = f a := by
  rw [h]
  rfl

section Tokens

variable {tokens rest : List Token} {t : Token} {fuel position : Nat} {statement : RawStatement}

theorem addTokens_of_create (h : tokens.drop position = t :: rest)
    (ht : t.isKeyword .create = true) :
    addTokens largest source statement tokens (fuel + 1) position report =
      attempt largest source report statement (t :: rest) >>= fun next =>
        addTokens largest source statement tokens fuel (position + next.2) next.1 := by
  have hle : position ≤ tokens.length := by
    refine Nat.le_of_not_lt fun hlt => ?_
    rw [List.drop_eq_nil_of_le (Nat.le_of_lt hlt)] at h
    contradiction
  rw [addTokens, nextCreate?_of_create h ht]
  dsimp only
  rw [outcome_bind (partFrom_eq hle), h]

theorem addTokens_of_not (h : tokens.drop position = t :: rest)
    (ht : t.isKeyword .create = false) :
    addTokens largest source statement tokens (fuel + 1) position report =
      addTokens largest source statement tokens (fuel + 1) (position + 1) report := by
  rw [addTokens, addTokens, nextCreate?_of_not h ht]

end Tokens

theorem covers_of_drop (hfits : Fits largest s.text) {position : Nat} {tokens : List Token}
    (h : (TypedTables.tokenize s.text).drop position = tokens) :
    Covers largest ⟨s.text, tokens⟩ := ⟨hfits, h ▸ List.drop_suffix _ _⟩

theorem addTokens_eq (hfits : Fits largest source) (hne : source ≠ "") (htext : Fits largest s.text)
    (hs : s.StandsIn .start source.toList lead) {fuel position : Nat} {rest : List Token}
    (hrest : (TypedTables.tokenize s.text).drop position = rest) (hfuel : rest.length < fuel + 1) :
    addTokens largest source (.of s) (TypedTables.tokenize s.text) (fuel + 1) position report =
      (report.addTokens s rest).mapError .failed := by
  fun_induction Report.addTokens s report rest generalizing fuel position with
  | case1 report =>
    rw [addTokens, nextCreate?, hrest]
    rfl
  | case2 report t rest hcreate table c hstatement report' =>
    rename_i ih
    obtain ⟨fuel, rfl, hlength⟩ := exists_fuel hfuel
    have hread : statement largest ⟨(RawStatement.of s).text, t :: rest⟩ 0 = .ok table c.position :=
      statement_of_ok (covers_of_drop htext hrest) hstatement
    have hnext : (TypedTables.tokenize s.text).drop (position + max c.position 1) =
        rest.drop (c.position - 1) := by
      obtain ⟨n, hn⟩ : ∃ n, max c.position 1 = n + 1 := ⟨max c.position 1 - 1, by omega⟩
      rw [← List.drop_drop, hrest, hn, List.drop_succ_cons]
      congr 1
      omega
    have hshort : (rest.drop (c.position - 1)).length < fuel + 1 :=
      lt_of_le_of_lt (by rw [List.length_drop]; exact Nat.sub_le _ _) hlength
    rw [addTokens_of_create hrest hcreate, attempt, hread, mapError_bind]
    dsimp only
    rw [bind_assoc]
    exact bind_congr fun _ => ih hnext hshort
  | case3 report t rest hcreate cause c hstatement ih =>
    obtain ⟨fuel, rfl, hlength⟩ := exists_fuel hfuel
    have hread : statement largest ⟨(RawStatement.of s).text, t :: rest⟩ 0 =
        .error (.failed (.parse cause)) c.position :=
      statement_of_error (covers_of_drop htext hrest) hstatement
    have hspan : ∀ span ∈ cause.span?, ∃ t ∈ TypedTables.tokenize s.text, t.span = span := by
      intro span hspan
      obtain ⟨u, hu, heq⟩ := (Grammar.moves_statement _).of_error hstatement cause rfl span hspan
      exact ⟨u, List.mem_of_mem_drop (hrest ▸ hu), heq⟩
    rw [addTokens_of_create hrest hcreate, attempt, hread]
    dsimp only
    rw [bind_assoc, outcome_bind (drop_eq hfits hne hs _ hspan), pure_bind]
    refine ih ?_ hlength
    rw [← List.drop_drop, hrest, List.drop_one, List.tail_cons]
  | case4 report t rest hcreate e c hfatal hstatement =>
    have hread : statement largest ⟨(RawStatement.of s).text, t :: rest⟩ 0 =
        .error (.failed e) c.position := statement_of_error (covers_of_drop htext hrest) hstatement
    rw [addTokens_of_create hrest hcreate, attempt, hread]
    cases e with
    | parse cause => exact absurd rfl (hfatal cause)
    | _ => rfl
  | case5 report t rest hcreate ih =>
    rw [addTokens_of_not hrest (by simpa using hcreate)]
    refine ih ?_ (Nat.lt_of_succ_lt hfuel)
    rw [← List.drop_drop, hrest, List.drop_one, List.tail_cons]

theorem addStatement_eq (hfits : Fits largest source) (hs : s ∈ Statement.split source) :
    addStatement largest source report (.of s) = (report.addStatement s).mapError .failed := by
  obtain ⟨lead, hlead⟩ := Statement.exists_standsIn_split hs
  have htext : Fits largest s.text := fits_of_mem hfits hs
  have hne : source ≠ "" := by
    rintro rfl
    rw [Statement.split_eq, String.toList_empty, Statement.pieces_nil] at hs
    contradiction
  have hdrop (cause : Dropped) : drop largest source report (.of s) cause none =
      .ok (report.drop s cause none) := drop_eq hfits hne hlead cause nofun
  have htokens : tokenize largest (RawStatement.of s).text = .ok (TypedTables.tokenize s.text) :=
    tokenize_eq htext
  rw [addStatement, Report.addStatement, mapError_bind]
  refine bind_congr fun _ => ?_
  rw [outcome_bind htokens]
  dsimp only
  cases Statement.classify (TypedTables.tokenize s.text) with
  | keep =>
    dsimp only
    rw [outcome_bind htokens]
    exact addTokens_eq hfits hne htext hlead rfl (Nat.lt_succ_self _)
  | plainView | routedView =>
    dsimp only
    rw [hdrop]
    rfl

theorem foldlM_addStatement_eq (hfits : Fits largest source) (statements : List Statement)
    (hstatements : ∀ s ∈ statements, s ∈ Statement.split source) (report : Report) :
    (statements.map RawStatement.of).foldlM (addStatement largest source) report =
      (statements.foldlM Report.addStatement report).mapError .failed := by
  induction statements generalizing report with
  | nil => rfl
  | cons s statements ih =>
    obtain ⟨hs, hrest⟩ := List.forall_mem_cons.1 hstatements
    rw [List.map_cons, List.foldlM_cons, List.foldlM_cons, mapError_bind,
      addStatement_eq hfits hs]
    exact bind_congr fun report => ih hrest report

theorem readScript_eq (hfits : Fits largest source) :
    readScript largest source = (TypedTables.readScript source).mapError .failed := by
  rw [readScript, TypedTables.readScript, mapError_bind]
  refine bind_congr fun _ => ?_
  rw [outcome_bind (split_eq hfits)]
  dsimp only
  rw [List.length_map, mapError_bind]
  exact bind_congr fun _ => foldlM_addStatement_eq hfits _ (fun _ hs => hs) {}

/-- What is too long is refused before anything else is done with it. -/
theorem readScript_of_long (h : Ceiling.inputLength.limit < source.utf8ByteSize) :
    readScript largest source = (TypedTables.readScript source).mapError .failed := by
  have hcheck : Ceiling.inputLength.check source.utf8ByteSize =
      .error (.exceeded .inputLength) := if_pos h
  rw [readScript, TypedTables.readScript, hcheck]
  rfl

end Reports

/-- No text springs a trap. Scripts of any size are read, or refused, as if nothing were checked, and
so are tokens and statements found in every text that counters can go through. -/
theorem springs_no_trap {largest : Nat} (h : 2 * Ceiling.inputLength.limit < largest)
    (source : String) :
    (Fits largest source → tokenize largest source = .ok (TypedTables.tokenize source) ∧
      splitStatements largest source = .ok (TypedTables.splitStatements source)) ∧
    readScript largest source = (TypedTables.readScript source).mapError .failed := by
  refine ⟨fun hfits => ⟨tokenize_eq hfits, splitStatements_eq hfits⟩, ?_⟩
  by_cases hlong : Ceiling.inputLength.limit < source.utf8ByteSize
  · exact readScript_of_long hlong
  · exact readScript_eq (by unfold Fits; omega)

/-- Characters of two bytes before a semicolon, behind a backslash and at the end of a quoted run that
is never closed; the smallest value that an enumeration member may have; and a nested index. -/
def accents : String :=
  "-- é;\nCREATE TABLE t (`é\\é;` Enum8('x' = -9223372036854775807), INDEX i (b) TYPE c);\n" ++
    "é; CREATE TABLE u (a) ORDER BY ((b); SELECT 'é\\"

theorem springs_no_trap_accents : 2 * Ceiling.inputLength.limit < 4294967295 ∧
    Fits 4294967295 accents ∧
    tokenize 4294967295 accents = .ok (TypedTables.tokenize accents) ∧
    splitStatements 4294967295 accents = .ok (TypedTables.splitStatements accents) ∧
    ∃ report, readScript 4294967295 accents = .ok report ∧ report.tables.size = 1 ∧
      report.diagnostics.size = 1 := by
  have hlargest : 2 * Ceiling.inputLength.limit < 4294967295 := by decide
  have hfits : Fits 4294967295 accents := by decide +kernel
  have hread : (TypedTables.readScript accents).toOption.any (fun report =>
      report.tables.size == 1 && report.diagnostics.size == 1) = true := by decide +kernel
  obtain ⟨report, hreport, hsizes⟩ := exists_of_any hread
  obtain ⟨htables, hdiagnostics⟩ := Bool.and_eq_true_iff.1 hsizes
  obtain ⟨hfound, hscript⟩ := springs_no_trap hlargest accents
  exact ⟨hlargest, hfits, (hfound hfits).1, (hfound hfits).2, report, by rw [hscript, hreport]; rfl,
    beq_iff_eq.1 htables, beq_iff_eq.1 hdiagnostics⟩

end TypedTables.Checked
