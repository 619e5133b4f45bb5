import TypedTables.Proofs.Grammar.Clauses
import TypedTables.Proofs.Script
import TypedTables.Proofs.Statement.Join

/-!
Reading two scripts with a semicolon between them. Nothing that one statement does matters to the
next one but the number of tables so far, so that the report is that of the first script, and that
of the second one with its places moved.
-/

namespace TypedTables

open Statement

/-- The place of something in a text that goes on with it behind `front`. -/
def Span.behind (front : String) (span : Span) : Span where
  offset := front.utf8ByteSize + span.offset
  length := span.length
  line := (Location.endOf front).line + span.line - 1
  column :=
    if span.line = 1 then (Location.endOf front).column + span.column - 1 else span.column

namespace Report

def behind (front : String) (report : Report) : Report :=
  { report with
    diagnostics := report.diagnostics.map fun d => { d with span := d.span.behind front } }

instance : Append Report :=
  ⟨fun r s => ⟨r.tables ++ s.tables, r.diagnostics ++ s.diagnostics⟩⟩

section Moved

variable {front : String} {s : Statement} {base report : Report}

theorem locate_moved (hs : s.start.Valid) {span : Span} (hspan : 1 ≤ span.line) :
    (s.moved (.endOf front)).locate span = (s.locate span).behind front := by
  obtain ⟨hline, hcolumn⟩ := hs
  have hoffset : (Location.endOf front).offset = front.utf8ByteSize := by
    rw [Location.endOf, Location.offset_advanceBytes, String.utf8Len_toList]
    exact Nat.zero_add _
  unfold Statement.locate Span.behind moved Location.within
  simp only [hoffset, Span.mk.injEq, true_and]
  refine ⟨Nat.add_assoc _ _ _, by omega, ?_⟩
  split_ifs <;> omega

theorem append_behind_declare (table : TableDecl) :
    (base ++ report.behind front).declare table = base ++ (report.declare table).behind front :=
  congrArg (Report.mk · _) Array.push_append

theorem append_behind_drop (hs : s.start.Valid) (cause : Dropped) {span : Option Span}
    (hspan : ∀ sp ∈ span, 1 ≤ sp.line) :
    (base ++ report.behind front).drop (s.moved (.endOf front)) cause span =
      base ++ (report.drop s cause span).behind front := by
  have hline : 1 ≤ (span.getD s.span).line := by
    cases span with
    | none => exact Nat.le_refl 1
    | some sp => exact hspan sp rfl
  have hlocate : (s.moved (.endOf front)).locate (span.getD s.span) = _ := locate_moved hs hline
  refine congrArg (Report.mk _) ?_
  change (base.diagnostics ++ Array.map _ report.diagnostics).push
    ⟨cause, (s.moved (.endOf front)).locate (span.getD s.span)⟩ = _ ++ Array.map _ (Array.push _ _)
  rw [Array.map_push, hlocate, Array.push_append]

/-- A result for a report that goes on with what the other result is for: it is found alike, moved
behind `front`, unless there are too many tables. -/
def Follows (base : Report) (front : String) (x y : Except Error Report) : Prop :=
  x = (fun report => base ++ report.behind front) <$> y ∨ x = .error (.exceeded .tableCount)

theorem follows_addTokens (hs : s.start.Valid) (tokens : List Token)
    (hlines : ∀ t ∈ tokens, 1 ≤ t.span.line) :
    Follows base front
      (addTokens (s.moved (.endOf front)) (base ++ report.behind front) tokens)
      (addTokens s report tokens) := by
  fun_induction addTokens s report tokens with
  | case1 report =>
    rw [addTokens]
    exact .inl rfl
  | case2 report t rest hcreate table c hok report₁ ih =>
    have hstatement : Grammar.statement (s.moved (.endOf front)).text (.ofTokens (t :: rest)) =
        .ok table c := hok
    rw [addTokens, if_pos hcreate, hstatement]
    dsimp only
    rw [append_behind_declare]
    cases hcount : Ceiling.tableCount.check (base ++ report₁.behind front).tables.size with
    | error e =>
      obtain ⟨-, rfl⟩ := Ceiling.check_eq_error.1 hcount
      exact .inr rfl
    | ok =>
      have hsize : report₁.tables.size ≤ Ceiling.tableCount.limit := by
        refine Nat.le_trans ?_ (Ceiling.check_eq_ok.1 hcount)
        change report₁.tables.size ≤ (base.tables ++ report₁.tables).size
        rw [Array.size_append]
        exact Nat.le_add_left _ _
      rw [Ceiling.check_eq_ok.2 hsize]
      exact ih fun u hu => hlines u (List.mem_cons_of_mem t (List.mem_of_mem_drop hu))
  | case3 report t rest hcreate cause c herror ih =>
    have hstatement : Grammar.statement (s.moved (.endOf front)).text (.ofTokens (t :: rest)) =
        .error (.parse cause) c := herror
    have hspan : ∀ span ∈ cause.span?, 1 ≤ span.line := fun span hmem => by
      have hpoints := (Grammar.takes_statement (.ofTokens (t :: rest))).of_error herror
      obtain ⟨u, hu, rfl⟩ := hpoints cause rfl span hmem
      exact hlines u hu
    rw [addTokens, if_pos hcreate, hstatement]
    dsimp only
    rw [append_behind_drop hs _ hspan]
    exact ih fun u hu => hlines u (List.mem_cons_of_mem t hu)
  | case4 report t rest hcreate e c hfatal herror =>
    have hstatement : Grammar.statement (s.moved (.endOf front)).text (.ofTokens (t :: rest)) =
        .error e c := herror
    rw [addTokens, if_pos hcreate, hstatement]
    cases e with
    | parse cause => exact absurd rfl (hfatal cause)
    | _ => exact .inl rfl
  | case5 report t rest hcreate ih =>
    rw [addTokens, if_neg hcreate]
    exact ih fun u hu => hlines u (List.mem_cons_of_mem t hu)

theorem follows_addStatement (hs : s.start.Valid) :
    Follows base front
      (addStatement (base ++ report.behind front) (s.moved (.endOf front)))
      (addStatement report s) := by
  unfold addStatement
  change Follows base front (Ceiling.statementLength.check s.text.utf8ByteSize >>= _) _
  cases Ceiling.statementLength.check s.text.utf8ByteSize with
  | error e => exact .inl rfl
  | ok =>
    have htext : (s.moved (.endOf front)).text = s.text := rfl
    dsimp only [bind, Except.bind]
    rw [htext]
    cases classify (tokenize s.text) with
    | keep => exact follows_addTokens hs _ (line_tokenize s.text)
    | plainView => exact .inl (congrArg Except.ok (append_behind_drop hs _ nofun))
    | routedView => exact .inl (congrArg Except.ok (append_behind_drop hs _ nofun))

theorem follows_foldlM (statements : List Statement) (hs : ∀ s ∈ statements, s.start.Valid) :
    Follows base front
      ((statements.map (moved (.endOf front))).foldlM addStatement (base ++ report.behind front))
      (statements.foldlM addStatement report) := by
  induction statements generalizing report with
  | nil => exact .inl rfl
  | cons s statements ih =>
    obtain ⟨hs, hrest⟩ := List.forall_mem_cons.1 hs
    rw [List.map_cons, List.foldlM_cons, List.foldlM_cons]
    obtain h | h := @follows_addStatement front s base report hs
    · rw [h]
      cases addStatement report s with
      | ok report => exact ih hrest
      | error e => exact .inl rfl
    · rw [h]
      exact .inr rfl

end Moved

end Report

theorem readScript_eq {source : String} (hlength : source.utf8ByteSize ≤ Ceiling.inputLength.limit)
    (hcount : (split source).length ≤ Ceiling.statementCount.limit) :
    readScript source = (split source).foldlM Report.addStatement {} := by
  unfold readScript
  dsimp only
  rw [Ceiling.check_eq_ok.2 hlength, Ceiling.check_eq_ok.2 hcount]
  rfl

/-- Statements are independent of each other. If the first script ends outside quotes and comments,
and there are neither too many statements nor too many tables, then together with a second one it
is read as the two of them are read alone. -/
theorem readScript_join {front back : String} (hopen : endsOpen front.toList = false)
    (hlength : (front ++ ";" ++ back).utf8ByteSize ≤ Ceiling.inputLength.limit)
    (hcount : (split (front ++ ";" ++ back)).length ≤ Ceiling.statementCount.limit)
    (htables : readScript (front ++ ";" ++ back) ≠ .error (.exceeded .tableCount)) :
    readScript (front ++ ";" ++ back) = do
      let report ← readScript front
      let report' ← readScript back
      return report ++ report'.behind (front ++ ";") := by
  have hsplit := split_join hopen back
  have hparts : (split front).length + (split back).length ≤ Ceiling.statementCount.limit := by
    simpa [hsplit] using hcount
  have hbytes : front.utf8ByteSize + 1 + back.utf8ByteSize ≤ Ceiling.inputLength.limit := by
    have hsemicolon : ";".utf8ByteSize = 1 := by decide
    simpa [String.utf8ByteSize_append, hsemicolon] using hlength
  have hfront := @readScript_eq front (by omega) (by omega)
  have hback := @readScript_eq back (by omega) (by omega)
  rw [readScript_eq hlength hcount, hsplit, List.foldlM_append] at htables ⊢
  rw [hfront, hback]
  cases hreport : (split front).foldlM Report.addStatement {} with
  | error e => rfl
  | ok report =>
    rw [hreport] at htables
    have hfollows := @Report.follows_foldlM (front ++ ";") report {} (split back) (valid_split back)
    have hempty : report ++ Report.behind (front ++ ";") {} = report := by
      change Report.mk (report.tables ++ #[]) (report.diagnostics ++ #[].map _) = report
      simp
    rw [hempty] at hfollows
    obtain h | h := hfollows
    · exact h.trans (by rw [map_eq_pure_bind]; rfl)
    · exact absurd h htables

/-- A table, and behind it a view that is left out with its place in the whole script. -/
theorem readScript_join_view :
    readScript ("CREATE TABLE t (a Int8)" ++ ";" ++ " CREATE VIEW v AS SELECT 1") = do
      let report ← readScript "CREATE TABLE t (a Int8)"
      let report' ← readScript " CREATE VIEW v AS SELECT 1"
      return report ++ report'.behind ("CREATE TABLE t (a Int8)" ++ ";") :=
  readScript_join (by decide +kernel) (by decide +kernel) (by decide +kernel) (by decide +kernel)

end TypedTables
