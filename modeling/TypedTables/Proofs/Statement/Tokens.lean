import TypedTables.Proofs.Statement.Bytes
import TypedTables.Proofs.Token.Trimmed

/-!
Statements hold the tokens of their text and no others: a text is one piece when no token of it is a
semicolon, and a statement is a piece without the blanks around it.
-/

namespace TypedTables

open Lexeme Statement Text

section Semicolon

variable {c : Char} {cs : List Char}

theorem symbol?_ne_semicolon (hc : c ≠ ';') {kind : TokenKind} (h : symbol? c = some kind) :
    kind ≠ .semicolon := by
  rintro rfl
  fun_cases symbol? c <;> simp_all [symbol?]

theorem wordKind_ne_semicolon (word : String) : wordKind word ≠ .semicolon := by
  unfold wordKind
  split <;> simp

theorem quoteKind_ne_semicolon (quote : Char) : quoteKind quote ≠ .semicolon := by
  unfold quoteKind
  split <;> simp

theorem kind_ne_semicolon (hc : c ≠ ';') {offset : Nat} {run : List Char} {r : Reading}
    (h : (head c cs).1.reading? offset c run = some r) : r.kind ≠ .semicolon := by
  rw [reading?, Option.map_eq_some_iff] at h
  obtain ⟨⟨kind, text⟩, h, rfl⟩ := h
  cases runStart c cs with
  | quote hq =>
    rw [head_of_quote hq] at h
    obtain ⟨rfl, -⟩ : quoteKind c = kind ∧ _ := by simpa [token?] using h
    exact quoteKind_ne_semicolon c
  | hash | dashes | block =>
    rw [head_of_comment rfl] at h
    contradiction
  | plain hq hn =>
    rw [head_of_plain hq hn] at h
    split_ifs at h
    · contradiction
    · obtain ⟨rfl, -⟩ : TokenKind.number = kind ∧ _ := by simpa [token?] using h
      simp
    · obtain ⟨rfl, -⟩ : wordKind _ = kind ∧ _ := by simpa [token?] using h
      exact wordKind_ne_semicolon _
    · cases hs : symbol? c with
      | none => rw [hs] at h; contradiction
      | some kind' =>
        obtain ⟨rfl, -⟩ : kind' = kind ∧ _ := by simpa [hs, token?] using h
        exact symbol?_ne_semicolon hc hs

theorem readings_of_piece (offset : Nat) : (cs : List Char) → pieces cs = [cs] →
    ∀ r ∈ readings offset cs, r.kind ≠ .semicolon
  | [], _, r, hr => by simp [readings_nil] at hr
  | c :: cs, h, r, hr => by
    obtain ⟨hc, -⟩ := pieces_drop h
    have hdrop : pieces (cs.drop (head c cs).2) = [cs.drop (head c cs).2] := by
      rw [pieces_head hc] at h
      exact pieces_of_length (by simpa using congrArg List.length h)
    rw [readings_cons, List.mem_append, Option.mem_toList] at hr
    obtain hr | hr := hr
    · exact kind_ne_semicolon hc hr
    · exact readings_of_piece _ _ hdrop r hr
  termination_by cs => cs.length
  decreasing_by simp only [List.length_drop, List.length_cons]; omega

theorem readings_semicolon (offset : Nat) (cs : List Char) :
    readings offset (';' :: cs) = ⟨.semicolon, ";", offset, 1⟩ :: readings (offset + 1) cs := by
  rw [readings_cons, head_semicolon]
  rfl

theorem readings_cut {piece : List Char} (h : endsOpen piece = false) (offset : Nat)
    (rest : List Char) :
    readings offset (piece ++ ';' :: rest) = readings offset piece ++
      ⟨.semicolon, ";", offset + String.utf8Len piece, 1⟩ ::
        readings (offset + String.utf8Len piece + 1) rest := by
  rw [readings_append (by decide) offset piece h, readings_semicolon]

/-- A text is one piece when no token of it is a semicolon. -/
theorem pieces_iff (offset : Nat) : pieces cs = [cs] ↔
    ∀ r ∈ readings offset cs, r.kind ≠ .semicolon := by
  refine ⟨readings_of_piece offset cs, fun h => ?_⟩
  obtain hp | ⟨piece, rest, rfl, hopen, -, -⟩ := cut cs
  · exact hp
  · rw [readings_cut hopen] at h
    exact absurd rfl (h ⟨.semicolon, ";", offset + String.utf8Len piece, 1⟩ (by simp))

end Semicolon

section Statements

variable {cs : List Char}

def statementReadings (statements : List Statement) : List Reading :=
  statements.flatMap fun s => (tokenize s.text).map (Token.reading s.start.offset)

theorem ofPieces_eq (here : Location) (done : List Statement) (ps : List (List Char)) :
    ofPieces here done ps = done.reverse ++ ofPieces here [] ps := by
  induction ps generalizing here done with
  | nil => simp [ofPieces]
  | cons p ps ih =>
    simp only [ofPieces]
    cases ofPiece? here p with
    | none => exact ih _ done
    | some s =>
      dsimp only
      rw [ih _ (s :: done), ih _ [s]]
      simp

theorem ofPieces_cons (here : Location) (p : List Char) (ps : List (List Char)) :
    ofPieces here [] (p :: ps) = (ofPiece? here p).toList ++
      ofPieces ((here.advanceBytes p).advanceBytes [';']) [] ps := by
  simp only [ofPieces]
  cases ofPiece? here p with
  | none => rfl
  | some s => exact ofPieces_eq _ [s] ps

theorem readings_ofPiece (here : Location) (piece : List Char) :
    statementReadings (ofPiece? here piece).toList =
      readings (here.offset + String.utf8Len (piece.takeWhile isBlank)) (trim piece) := by
  rw [ofPiece?, drop_takeWhile, trim]
  cases piece.dropWhile isBlank with
  | nil => simp [trimEnd, readings_nil, statementReadings]
  | cons c rest =>
    simp [statementReadings, map_reading_tokenize, Location.offset_advanceBytes]

theorem endsOpen_of_blanks {tail : List Char} (hb : ∀ c ∈ tail, isBlank c = true) (cs : List Char) :
    endsOpen (tail ++ cs) = endsOpen cs := by
  induction tail with
  | nil => rfl
  | cons c tail ih =>
    have hc : isBlank c = true := hb c List.mem_cons_self
    rw [List.cons_append, endsOpen_head, head_of_blank hc,
      staysOpen_of_separates (separates_of_isBlank hc), List.drop_zero, Bool.false_or,
      ih fun d hd => hb d (List.mem_cons_of_mem c hd)]

theorem trimmed_piece (here : Location) (piece : List Char) :
    Trimmed here.offset piece (readings here.offset piece)
      (statementReadings (ofPiece? here piece).toList) := by
  have hlead : ∀ c ∈ piece.takeWhile isBlank, isBlank c = true := fun c => List.mem_takeWhile_imp
  obtain ⟨tail, hpiece, hb⟩ := exists_trim piece
  have h := trimmed_append hb (here.offset + String.utf8Len (piece.takeWhile isBlank))
    (trim piece) (trimEnd_trimEnd _)
  have h := h.prepend (endsOpen_of_blanks hlead _) []
  rw [← readings_of_blanks hlead, ← hpiece] at h
  rw [readings_ofPiece]
  exact h

theorem trimmed_ofPieces (here : Location) (cs : List Char) :
    Trimmed here.offset cs ((readings here.offset cs).filter (·.kind ≠ .semicolon))
      (statementReadings (ofPieces here [] (pieces cs))) := by
  induction cs using cut_induction generalizing here with
  | whole cs hp =>
    have hnone := readings_of_piece here.offset cs hp
    rw [List.filter_eq_self.2 (by simpa using hnone), hp, ofPieces_cons]
    simpa [ofPieces] using trimmed_piece here cs
  | parted piece rest hopen hp hpieces ih =>
    have hpiece := (trimmed_piece here piece).eq_of_closed hopen
    have hnone := readings_of_piece here.offset piece hp
    have ih := ih ((here.advanceBytes piece).advanceBytes [';'])
    have hoffset : ((here.advanceBytes piece).advanceBytes [';']).offset =
        here.offset + String.utf8Len (piece ++ [';']) := by
      rw [Location.offset_advanceBytes, Location.offset_advanceBytes, Nat.add_assoc,
        ← String.utf8Len_append]
    have hend : endsOpen (piece ++ [';'] ++ rest) = endsOpen rest := by
      rw [List.append_assoc, List.singleton_append, endsOpen_append (by decide) piece hopen,
        endsOpen_cons, staysOpen_of_separates (by decide)]
      rfl
    rw [hoffset] at ih
    have h := ih.prepend hend (readings here.offset piece)
    rw [List.append_assoc, List.singleton_append] at h
    rw [String.utf8Len_append, ← Nat.add_assoc] at h
    rw [readings_cut hopen, List.filter_append, List.filter_eq_self.2 (by simpa using hnone),
      List.filter_cons_of_neg (by simp), hpieces, ofPieces_cons, statementReadings,
      List.flatMap_append, ← statementReadings, ← statementReadings, ← hpiece]
    exact h

/-- The statements of a text hold its tokens in order, all but the semicolons. -/
theorem trimmed_split (source : String) :
    (∀ s ∈ split source, ∀ t ∈ tokenize s.text, t.kind ≠ .semicolon) ∧
    Trimmed 0 source.toList
      (((tokenize source).filter (·.kind ≠ .semicolon)).map (Token.reading 0))
      ((split source).flatMap fun s => (tokenize s.text).map (Token.reading s.start.offset)) := by
  have h := trimmed_ofPieces .start source.toList
  rw [← split_eq] at h
  have hmap : ((tokenize source).filter (·.kind ≠ .semicolon)).map (Token.reading 0) =
      (readings 0 source.toList).filter (·.kind ≠ .semicolon) := by
    rw [← map_reading_tokenize, List.filter_map]
    rfl
  rw [hmap]
  refine ⟨fun s hs t ht => ?_, h⟩
  have hkinds := h.map_kind
  have hmem : t.kind ∈ (statementReadings (split source)).map (·.kind) :=
    List.mem_map.2 ⟨t.reading s.start.offset,
      List.mem_flatMap.2 ⟨s, hs, List.mem_map_of_mem ht⟩, rfl⟩
  rw [← hkinds] at hmem
  obtain ⟨r, hr, hk⟩ := List.mem_map.1 hmem
  rw [← hk]
  simpa using (List.mem_filter.1 hr).2

end Statements

end TypedTables
