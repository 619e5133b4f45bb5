import TypedTables.Proofs.Grammar.Clauses
import TypedTables.Proofs.Script
import TypedTables.Proofs.Statement.Join
import TypedTables.Proofs.Token.Place

/-!
Where diagnostics stand in a script. Offsets, lengths and lines are those of the place that is meant;
columns are, too, unless the statement begins on the same line behind characters of several bytes.
-/

namespace TypedTables

open Lexeme Text
open String (utf8Len)

namespace Statement

variable {s : Statement} {here : Location} {ps : List (List Char)}

/-- A statement in a text that begins at `here`, with what is before it. -/
structure StandsIn (s : Statement) (here : Location) (cs lead : List Char) : Prop where
  text : lead ++ s.text.toList <+: cs
  start : s.start = here.advanceBytes lead
  trimmed : trimEnd s.text.toList = s.text.toList

theorem standsIn_ofPiece? {piece : List Char} (h : s ∈ ofPiece? here piece) :
    s.StandsIn here piece (piece.takeWhile isBlank) := by
  obtain ⟨tail, hpiece, -⟩ := exists_trim piece
  unfold ofPiece? at h
  dsimp only at h
  rw [drop_takeWhile] at h
  split at h
  · contradiction
  · next c rest hdrop =>
    obtain rfl := Option.some.inj h
    have htext : (String.ofList (trimEnd (c :: rest))).toList = trim piece := by
      rw [String.toList_ofList, trim, hdrop]
    refine ⟨?_, rfl, ?_⟩
    · rw [htext]
      conv_rhs => rw [hpiece, ← List.append_assoc]
      exact List.prefix_append ..
    · rw [String.toList_ofList, trimEnd_trimEnd]

theorem exists_standsIn (h : s ∈ ofPieces here [] ps) :
    ∃ lead, s.StandsIn here ([';'].intercalate ps) lead := by
  induction ps generalizing here with
  | nil => contradiction
  | cons p ps ih =>
    rw [ofPieces_cons, List.mem_append, Option.mem_toList] at h
    obtain h | h := h
    · have hs := standsIn_ofPiece? h
      refine ⟨_, hs.text.trans ?_, hs.start, hs.trimmed⟩
      cases ps with
      | nil => rw [List.intercalate_singleton]
      | cons q ps =>
        rw [List.intercalate_cons_cons, List.append_assoc]
        exact List.prefix_append ..
    · cases ps with
      | nil => contradiction
      | cons q ps =>
        obtain ⟨lead, hs⟩ := ih h
        refine ⟨p ++ [';'] ++ lead, ?_, ?_, hs.trimmed⟩
        · rw [List.intercalate_cons_cons, List.append_assoc (p ++ [';'])]
          exact List.prefix_append_right_inj _ |>.2 hs.text
        · rw [hs.start, Location.advanceBytes_append, Location.advanceBytes_append]

theorem exists_standsIn_split {source : String} (h : s ∈ split source) :
    ∃ lead, s.StandsIn .start source.toList lead := by
  rw [split_eq] at h
  have hs := exists_standsIn h
  rwa [intercalate_pieces] at hs

theorem locate_eq (hs : s.start.Valid) (before : List Char) (length : Nat) :
    let here := s.start.advance before
    s.locate ⟨(Location.start.advance before).offset, length,
      (Location.start.advance before).line, (Location.start.advance before).column⟩ =
      ⟨here.offset, length, here.line, here.column⟩ := by
  have hwithin : s.start.within (Location.start.advance before) = s.start.advance before := by
    rw [Location.advance, Location.within_after Location.valid_start, Location.within_start hs]
  dsimp only
  rw [← hwithin]
  rfl

end Statement

section Origin

/-- Whether the diagnostic points at a token. -/
def Diagnostic.pointsAtToken (d : Diagnostic) : Bool :=
  match d.cause with
  | .unparsed cause => cause.span?.isSome
  | .plainView | .routedView => false

/-- What a diagnostic of a statement is about: one of its tokens, or all of it. -/
inductive Diagnostic.Of (s : Statement) : Diagnostic → Prop
  | token {cause : ParseError} {t : Token} (ht : t ∈ tokenize s.text)
    (hspan : cause.span? = some t.span) : Of s ⟨.unparsed cause, s.locate t.span⟩
  | whole {cause : Dropped} (hcause : (Diagnostic.mk cause s.span).pointsAtToken = false) :
    Of s ⟨cause, s.locate s.span⟩

namespace Report

variable {report report' : Report} {statement : Statement} {P : Diagnostic → Prop}

theorem forall_drop (h : ∀ d ∈ report.diagnostics, P d) {cause : Dropped} {span : Option Span}
    (hd : P ⟨cause, statement.locate (span.getD statement.span)⟩) :
    ∀ d ∈ (report.drop statement cause span).diagnostics, P d := fun d hmem => by
  obtain hmem | rfl := Array.mem_push.1 hmem
  · exact h d hmem
  · exact hd

theorem of_addTokens (tokens : List Token) (hP : ∀ d, Diagnostic.Of statement d → P d)
    (hmem : ∀ t ∈ tokens, t ∈ tokenize statement.text) (h : ∀ d ∈ report.diagnostics, P d)
    (hok : addTokens statement report tokens = .ok report') : ∀ d ∈ report'.diagnostics, P d := by
  fun_induction addTokens statement report tokens with
  | case1 report =>
    cases hok
    exact h
  | case2 report t rest _ table c hs report₁ ih =>
    obtain ⟨-, hok⟩ := Ceiling.check_bind_eq_ok.1 hok
    exact ih (fun u hu => hmem u (List.mem_cons_of_mem t (List.mem_of_mem_drop hu))) h hok
  | case3 report t rest _ cause c hs ih =>
    refine ih (fun u hu => hmem u (List.mem_cons_of_mem t hu)) (forall_drop h (hP _ ?_)) hok
    cases hspan : cause.span? with
    | none => exact .whole (by simp [Diagnostic.pointsAtToken, hspan])
    | some span =>
      have hpoints := (Grammar.takes_statement (.ofTokens (t :: rest))).of_error hs
      obtain ⟨u, hu, rfl⟩ := hpoints cause rfl span hspan
      exact .token (hmem u hu) hspan
  | case4 => contradiction
  | case5 report t rest _ ih => exact ih (fun u hu => hmem u (List.mem_cons_of_mem t hu)) h hok

theorem of_addStatement (hP : ∀ d, Diagnostic.Of statement d → P d)
    (h : ∀ d ∈ report.diagnostics, P d) (hok : addStatement report statement = .ok report') :
    ∀ d ∈ report'.diagnostics, P d := by
  obtain ⟨-, hok⟩ := Ceiling.check_bind_eq_ok.1 hok
  dsimp only at hok
  split at hok
  · exact of_addTokens _ hP (fun _ ht => ht) h hok
  · cases hok
    exact forall_drop h (hP _ (.whole rfl))
  · cases hok
    exact forall_drop h (hP _ (.whole rfl))

theorem of_foldlM (statements : List Statement)
    (hP : ∀ s ∈ statements, ∀ d, Diagnostic.Of s d → P d) (h : ∀ d ∈ report.diagnostics, P d)
    (hok : statements.foldlM addStatement report = .ok report') :
    ∀ d ∈ report'.diagnostics, P d := by
  induction statements generalizing report with
  | nil =>
    cases hok
    exact h
  | cons statement statements ih =>
    obtain ⟨hstatement, hstatements⟩ := List.forall_mem_cons.1 hP
    rw [List.foldlM_cons] at hok
    obtain ⟨report₁, h₁, hok⟩ := bind_eq_ok.1 hok
    exact ih hstatements (of_addStatement hstatement h h₁) hok

end Report

/-- Every diagnostic is about a statement of the text. -/
theorem exists_of_readScript {source : String} {report : Report}
    (hread : readScript source = .ok report) :
    ∀ d ∈ report.diagnostics, ∃ s ∈ Statement.split source, Diagnostic.Of s d := by
  obtain ⟨-, h⟩ := Ceiling.check_bind_eq_ok.1 hread
  obtain ⟨-, h⟩ := Ceiling.check_bind_eq_ok.1 h
  exact Report.of_foldlM _ (fun s hs d hd => ⟨s, hs, hd⟩) (by simp) h

end Origin

section Columns

variable {lead before : List Char}

theorem length_le_utf8Len (cs : List Char) : cs.length ≤ utf8Len cs := by
  induction cs with
  | nil => exact Nat.le_refl 0
  | cons c cs ih =>
    have hc : 0 < c.utf8Size := c.utf8Size_pos
    rw [List.length_cons, String.utf8Len_cons]
    omega

theorem utf8Len_eq_length_iff (cs : List Char) :
    utf8Len cs = cs.length ↔ ∀ c ∈ cs, c.utf8Size = 1 := by
  induction cs with
  | nil => simp
  | cons c cs ih =>
    have hc : 0 < c.utf8Size := c.utf8Size_pos
    have hle := length_le_utf8Len cs
    rw [List.forall_mem_cons, ← ih, List.length_cons, String.utf8Len_cons]
    omega

/-- No character of several bytes stands before the statement on the line of the place, given what
is before the statement and what is between its beginning and the place. -/
def SingleBytes (lead before : List Char) : Prop :=
  '\n' ∈ before ∨ ∀ c ∈ lastLine lead, c.utf8Size = 1

theorem column_advance_iff (lead before : List Char) :
    ((Location.start.advanceBytes lead).advance before).column =
      1 + (lastLine (lead ++ before)).length ↔ SingleBytes lead before := by
  have hlead : (Location.start.advanceBytes lead).column = 1 + utf8Len (lastLine lead) := by
    rw [Location.advanceBytes_start]
  unfold SingleBytes
  by_cases h : '\n' ∈ before
  · rw [Location.advance, Location.column_after_of_mem h, lastLine_append_of_mem h]
    simp [h]
  · have hle := length_le_utf8Len (lastLine lead)
    rw [Location.advance, Location.column_after_of_not_mem h, lastLine_append_of_not_mem h, hlead,
      ← utf8Len_eq_length_iff, List.map_const', List.sum_replicate, List.length_append]
    simp only [h, false_or, smul_eq_mul]
    omega

end Columns

section Tokens

variable {source : String} {s : Statement} {lead before : List Char} {c : Char} {cs : List Char}

/-- A quoted run that starts behind `front` is open to the end of the text, where blanks stand. -/
def CutOff (source front : List Char) : Prop :=
  ∃ quote run, source = front ++ quote :: run ∧ isQuote quote = true ∧
    quoteCloses quote run = false ∧ trimEnd run ≠ run

theorem Span.eq_iff {a b : Span} : a = b ↔
    a.offset = b.offset ∧ a.length = b.length ∧ a.line = b.line ∧ a.column = b.column := by
  cases a
  cases b
  simp

theorem Trimmed.eq_or_last {offset : Nat} {cs : List Char} {rs ts : List Reading}
    (h : Trimmed offset cs rs ts) : rs = ts ∨ ∃ front quote run done,
      cs = front ++ quote :: run ∧ isQuote quote = true ∧ quoteCloses quote run = false ∧
      rs = done ++ [⟨quoteKind quote, unquote quote run, offset + utf8Len front,
        utf8Len (quote :: run)⟩] ∧
      ts = done ++ [⟨quoteKind quote, unquote quote (trimEnd run), offset + utf8Len front,
        utf8Len (quote :: trimEnd run)⟩] := by
  cases h with
  | same => exact .inl rfl
  | last done hquote hopen => exact .inr ⟨_, _, _, done, rfl, hquote, hopen, rfl, rfl⟩

theorem span_of_offset {front : List Char} (hsource : source.toList = front ++ c :: cs) {u : Token}
    (hu : u ∈ tokenize source) (hoffset : u.span.offset = utf8Len front) :
    u.span = lexemeSpan .start front c cs := by
  obtain ⟨front', c', cs', hsource', hspan⟩ := exists_place hu
  rw [hspan, lexemeSpan_start] at hoffset
  obtain rfl : front' = front := eq_of_utf8Len (hsource'.symm.trans hsource) hoffset
  obtain ⟨rfl, rfl⟩ := List.cons.inj (List.append_cancel_left (hsource'.symm.trans hsource))
  exact hspan

/-- A token that has been cut off goes to the end of the text. -/
theorem length_of_cutOff {front : List Char} (h : CutOff (front ++ c :: cs) front) :
    cs.take (head c cs).2 = cs ∧ trimEnd cs ≠ cs := by
  obtain ⟨quote, run, hsource, hquote, hopen, htrim⟩ := h
  obtain ⟨rfl, rfl⟩ := List.cons.inj (List.append_cancel_left hsource)
  have hstays : staysOpen c cs = true := by rw [Statement.staysOpen_of_quote hquote, hopen]; rfl
  rw [head_of_quote hquote, Statement.runLength_of_open hstays]
  exact ⟨List.take_length, htrim⟩

theorem utf8Len_trimEnd {run : List Char} (h : utf8Len (trimEnd run) = utf8Len run) :
    trimEnd run = run := by
  obtain ⟨tail, hrun, -⟩ := exists_trimEnd run
  have hlen := congrArg utf8Len hrun
  rw [String.utf8Len_append] at hlen
  obtain rfl : tail = [] := String.utf8Len_eq_zero.1 (by omega)
  exact (hrun.trans (List.append_nil _)).symm

theorem cutOff_iff {front run : List Char} {quote : Char} (hquote : isQuote quote = true)
    (hopen : quoteCloses quote run = false) :
    CutOff (front ++ quote :: run) front ↔ trimEnd run ≠ run := by
  constructor
  · rintro ⟨quote', run', hsource, -, -, htrim⟩
    rwa [(List.cons.inj (List.append_cancel_left hsource)).2]
  · exact fun htrim => ⟨quote, run, rfl, hquote, hopen, htrim⟩

/-- A token that is as long in the text has not been cut off, since a statement ends in no blank. -/
theorem not_cutOff {rest : List Char} (hlead : s.StandsIn .start source.toList lead)
    (htext : s.text.toList = before ++ c :: cs)
    (hsource : source.toList = lead ++ before ++ c :: (cs ++ rest)) {u : Token}
    (hu : u ∈ tokenize source) (hoffset : u.span.offset = utf8Len (lead ++ before))
    (hlen : u.span.length = (lexemeSpan .start before c cs).length) :
    ¬CutOff source.toList (lead ++ before) := by
  intro hcut
  rw [hsource] at hcut
  obtain ⟨htake, hblank⟩ := length_of_cutOff hcut
  rw [span_of_offset hsource hu hoffset, lexemeSpan_start, lexemeSpan_start, htake] at hlen
  have hle : utf8Len (cs.take (head c cs).2) ≤ utf8Len cs :=
    String.utf8Len_le_of_sublist (List.take_sublist _ _)
  simp only [String.utf8Len_cons, String.utf8Len_append] at hlen
  obtain rfl : rest = [] := String.utf8Len_eq_zero.1 (by omega)
  rw [List.append_nil] at hblank
  have htrim := hlead.trimmed
  rw [htext, List.append_cons] at htrim
  exact hblank (trimEnd_of_append htrim)

/-- A token of a statement is one of the text, at the same place. -/
theorem exists_token (hs : s ∈ Statement.split source)
    (hlead : s.StandsIn .start source.toList lead) {t : Token} (ht : t ∈ tokenize s.text)
    (htext : s.text.toList = before ++ c :: cs) (hspan : t.span = lexemeSpan .start before c cs) :
    ∃ u ∈ tokenize source, u.span.offset = utf8Len (lead ++ before) ∧
      (u.span.length = t.span.length ↔ ¬CutOff source.toList (lead ++ before)) := by
  obtain ⟨rest, hsource⟩ := hlead.text
  have hsource : source.toList = lead ++ before ++ c :: (cs ++ rest) := by
    rw [← hsource, htext]
    simp
  have hoffset : s.start.offset + t.span.offset = utf8Len (lead ++ before) := by
    rw [hlead.start, hspan, lexemeSpan_start, Location.offset_advanceBytes, Location.start,
      Nat.zero_add, String.utf8Len_append]
  have hreading : t.reading s.start.offset ∈ statementReadings (Statement.split source) :=
    List.mem_flatMap.2 ⟨s, hs, List.mem_map_of_mem ht⟩
  have htrimmed := trimmed_ofPieces .start source.toList
  rw [← Statement.split_eq] at htrimmed
  have hmem {r : Reading}
      (hr : r ∈ (readings 0 source.toList).filter (·.kind ≠ .semicolon)) :
      ∃ u ∈ tokenize source, u.reading 0 = r := by
    rw [← map_reading_tokenize] at hr
    exact List.mem_map.1 (List.mem_filter.1 hr).1
  have same (u : Token) (hu : u ∈ tokenize source)
      (heq : u.reading 0 = t.reading s.start.offset) :
      u.span.offset = utf8Len (lead ++ before) ∧
        (u.span.length = t.span.length ↔ ¬CutOff source.toList (lead ++ before)) := by
    have hplace := congrArg Reading.offset heq
    have hlen := congrArg Reading.length heq
    simp only [Token.reading, Nat.zero_add, hoffset] at hplace hlen
    have hcut := not_cutOff hlead htext hsource hu hplace (hlen.trans (congrArg Span.length hspan))
    exact ⟨hplace, iff_of_true hlen hcut⟩
  obtain heq | ⟨front, quote, run, done, hcs, hquote, hopen, hrs, hts⟩ := htrimmed.eq_or_last
  · rw [← heq] at hreading
    obtain ⟨u, hu, hr⟩ := hmem hreading
    exact ⟨u, hu, same u hu hr⟩
  · rw [hts, List.mem_append] at hreading
    obtain hreading | hreading := hreading
    · obtain ⟨u, hu, hr⟩ := hmem (hrs ▸ List.mem_append_left _ hreading)
      exact ⟨u, hu, same u hu hr⟩
    · obtain ⟨u, hu, hr⟩ := hmem (hrs ▸ List.mem_append_right _ (List.mem_singleton_self _))
      have ht := List.mem_singleton.1 hreading
      simp only [Token.reading, Reading.mk.injEq, Location.start, Nat.zero_add] at hr ht
      have hfront : front = lead ++ before :=
        eq_of_utf8Len (hcs.symm.trans hsource) (ht.2.2.1.symm.trans hoffset)
      refine ⟨u, hu, hr.2.2.1.trans (congrArg utf8Len hfront), ?_⟩
      rw [hr.2.2.2, ht.2.2.2, ← hfront, hcs, cutOff_iff hquote hopen, not_not,
        String.utf8Len_cons, String.utf8Len_cons, Nat.add_right_cancel_iff]
      exact ⟨fun h => utf8Len_trimEnd h.symm, fun h => by rw [h]⟩

end Tokens

/-- A diagnostic stands where its statement and the place in it say, in lines and in bytes. -/
structure Diagnostic.StandsAt (d : Diagnostic) (lead before inside : List Char) : Prop where
  offset : d.span.offset = utf8Len (lead ++ before)
  length : d.span.length = utf8Len inside
  line : d.span.line = 1 + (lead ++ before).count '\n'
  column : d.span.column = 1 + (lastLine (lead ++ before)).length ↔ SingleBytes lead before

theorem Diagnostic.standsAt {d : Diagnostic} {s : Statement} {cs lead before inside : List Char}
    (hlead : s.StandsIn .start cs lead)
    (hspan : d.span = s.locate ((Location.start.advance before).spanTo
      ((Location.start.advance before).advance inside))) : d.StandsAt lead before inside := by
  have hvalid : s.start.Valid := hlead.start ▸ Location.valid_start.advanceBytes lead
  have hlength : (((Location.start.advance before).advance inside).offset -
      (Location.start.advance before).offset) = utf8Len inside := by
    rw [Location.offset_advance, Nat.add_sub_cancel_left]
  have hplace := Statement.locate_eq hvalid before (utf8Len inside)
  rw [Location.spanTo, hlength, hplace, hlead.start] at hspan
  have hline : ((Location.start.advanceBytes lead).advance before).line =
      1 + (lead ++ before).count '\n' := by
    rw [Location.advance, Location.line_after, Location.advanceBytes, Location.line_after,
      List.count_append, Nat.add_assoc]
    rfl
  have hoffset : ((Location.start.advanceBytes lead).advance before).offset =
      utf8Len (lead ++ before) := by
    rw [Location.offset_advance, Location.offset_advanceBytes, String.utf8Len_append,
      Location.start, Nat.zero_add]
  exact {
    offset := by rw [hspan, hoffset]
    length := by rw [hspan]
    line := by rw [hspan, hline]
    column := by rw [hspan]; exact column_advance_iff lead before }

/-- Diagnostics stand where they say, and are at tokens of the whole text, except that columns count
the bytes before the statement and that a statement does not end with blanks of an open quoted
run. -/
theorem diagnostics_stand {report : Report} {source : String}
    (hread : readScript source = .ok report) :
    ∀ d ∈ report.diagnostics, ∃ s ∈ Statement.split source, ∃ lead before inside,
      lead ++ s.text.toList <+: source.toList ∧ before ++ inside <+: s.text.toList ∧
      d.StandsAt lead before inside ∧
      (d.pointsAtToken = true → ∃ t ∈ tokenize source, t.span.offset = d.span.offset ∧
        (t.span = d.span ↔ SingleBytes lead before ∧ ¬CutOff source.toList (lead ++ before))) := by
  intro d hd
  obtain ⟨s, hs, hof⟩ := exists_of_readScript hread d hd
  obtain ⟨lead, hlead⟩ := Statement.exists_standsIn_split hs
  refine ⟨s, hs, lead, ?_⟩
  cases hof with
  | whole hcause =>
    have hspan : s.span = (Location.start.advance []).spanTo
        ((Location.start.advance []).advance s.text.toList) := by
      simp [Statement.span, Location.spanTo, Location.offset_advance, Location.advance_start,
        lastLine]
    refine ⟨[], s.text.toList, hlead.text, List.prefix_rfl,
      Diagnostic.standsAt hlead (congrArg s.locate hspan), fun h => ?_⟩
    exact absurd (hcause.symm.trans h) Bool.false_ne_true
  | @token cause t ht hcause =>
    obtain ⟨before, c, cs, htext, hspan⟩ := exists_place ht
    have hstands : Diagnostic.StandsAt ⟨.unparsed cause, s.locate t.span⟩ lead before
        (c :: cs.take (head c cs).2) := Diagnostic.standsAt hlead (congrArg s.locate hspan)
    refine ⟨before, c :: cs.take (head c cs).2, hlead.text, ?_, hstands, fun _ => ?_⟩
    · rw [htext, List.prefix_append_right_inj, List.cons_prefix_cons]
      exact ⟨rfl, List.take_prefix _ _⟩
    · obtain ⟨u, hu, hoffset, hlength⟩ := exists_token hs hlead ht htext hspan
      refine ⟨u, hu, hoffset.trans hstands.offset.symm, ?_⟩
      obtain ⟨rest, hrest⟩ := hlead.text
      have hsource : source.toList = lead ++ before ++ c :: (cs ++ rest) := by
        rw [← hrest, htext]
        simp
      have hspan := span_of_offset hsource hu hoffset
      rw [lexemeSpan_start] at hspan
      have hline : u.span.line = (s.locate t.span).line := by rw [hspan, hstands.line]
      have hcolumn : u.span.column = (s.locate t.span).column ↔ SingleBytes lead before := by
        rw [← hstands.column, hspan]
        exact eq_comm
      have hoffset := hoffset.trans hstands.offset.symm
      rw [Span.eq_iff, hcolumn, ← hlength]
      exact ⟨fun h => ⟨h.2.2.2, h.2.1⟩, fun h => ⟨hoffset, h.2, hline, h.1⟩⟩

/-- A character of two bytes before the statement moves the column by one, away from the token. -/
theorem diagnostic_behind_accent : ∃ report d,
    readScript "SELECT 'é'; CREATE TABLE t (a)" = .ok report ∧ report.diagnostics.toList = [d] ∧
      d.pointsAtToken = true ∧ d.span = ⟨30, 1, 1, 31⟩ ∧
      (tokenize "SELECT 'é'; CREATE TABLE t (a)").getLast?.map Token.span = some ⟨30, 1, 1, 30⟩ := by
  have h : (readScript "SELECT 'é'; CREATE TABLE t (a)").toOption.any (fun report =>
      report.diagnostics.toList.map (fun d => (d.pointsAtToken, d.span)) =
        [(true, ⟨30, 1, 1, 31⟩)]) = true := by decide +kernel
  obtain ⟨report, hread, h⟩ := exists_of_any h
  obtain ⟨d, hd, hplace⟩ := List.map_eq_singleton_iff.1 (of_decide_eq_true h)
  obtain ⟨hpoints, hspan⟩ := Prod.mk.inj hplace
  exact ⟨report, d, hread, hd, hpoints, hspan, by decide +kernel⟩

theorem diagnostics_stand_tables : ∃ report d,
    readScript "SELECT 'é';\nCREATE TABLE t (a)" = .ok report ∧ d ∈ report.diagnostics ∧
      ∃ t ∈ tokenize "SELECT 'é';\nCREATE TABLE t (a)", t.span.offset = d.span.offset := by
  have h : (readScript "SELECT 'é';\nCREATE TABLE t (a)").toOption.any (fun report =>
      report.diagnostics.toList.any Diagnostic.pointsAtToken) = true := by decide +kernel
  obtain ⟨report, hread, h⟩ := exists_of_any h
  obtain ⟨d, hd, hpoints⟩ := List.any_eq_true.1 h
  have hd := Array.mem_toList_iff.1 hd
  obtain ⟨_, _, _, _, _, _, _, _, htoken⟩ := diagnostics_stand hread d hd
  obtain ⟨t, ht, hoffset, -⟩ := htoken hpoints
  exact ⟨report, d, hread, hd, t, ht, hoffset⟩

end TypedTables
