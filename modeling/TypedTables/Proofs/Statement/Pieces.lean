import TypedTables.Proofs.Token.Head

/-!
The pieces of a text between its semicolons. A text either is one piece or has a first piece, which
ends outside quotes and comments; and a text that ends outside them is cut at a semicolon behind it.
-/

namespace TypedTables.Statement

open Lexeme

/-- The pieces of a text between the semicolons outside quotes and comments. -/
def pieces : List Char → List (List Char)
  | [] => [[]]
  | c :: cs =>
    if c = ';' then [] :: pieces cs
    else (pieces (cs.drop (runLength c cs))).modifyHead (c :: cs.take (runLength c cs) ++ ·)
  termination_by cs => cs.length
  decreasing_by all_goals simp only [List.length_drop, List.length_cons]; omega

/-- Whether a text ends inside a quoted run or a comment. -/
def endsOpen : List Char → Bool
  | [] => false
  | c :: cs => staysOpen c cs || endsOpen (cs.drop (runLength c cs))
  termination_by cs => cs.length
  decreasing_by simp only [List.length_drop, List.length_cons]; omega

theorem endsOpen_nil : endsOpen [] = false := by rw [endsOpen]

theorem endsOpen_cons (c : Char) (cs : List Char) :
    endsOpen (c :: cs) = (staysOpen c cs || endsOpen (cs.drop (runLength c cs))) := by
  rw [endsOpen]

theorem endsOpen_cons_eq_false {c : Char} {cs : List Char} : endsOpen (c :: cs) = false ↔
    staysOpen c cs = false ∧ endsOpen (cs.drop (runLength c cs)) = false := by
  rw [endsOpen_cons, Bool.or_eq_false_iff]

theorem pieces_nil : pieces [] = [[]] := by rw [pieces]

theorem pieces_semicolon (cs : List Char) : pieces (';' :: cs) = [] :: pieces cs := by
  rw [pieces, if_pos rfl]

theorem pieces_cons {c : Char} (hc : c ≠ ';') (cs : List Char) :
    pieces (c :: cs) = (pieces (cs.drop (runLength c cs))).modifyHead
      (c :: cs.take (runLength c cs) ++ ·) := by
  rw [pieces, if_neg hc]

theorem pieces_ne_nil (cs : List Char) : pieces cs ≠ [] := by
  induction cs using endsOpen.induct with
  | case1 => simp [pieces_nil]
  | case2 c cs ih =>
    by_cases hc : c = ';'
    · simp [hc, pieces_semicolon]
    · rw [pieces_cons hc]
      simpa [List.modifyHead_eq_nil_iff] using ih

/-- Nothing is lost: the pieces with the semicolons between them are the text. -/
theorem intercalate_pieces (cs : List Char) : [';'].intercalate (pieces cs) = cs := by
  induction cs using endsOpen.induct with
  | case1 => simp [pieces_nil]
  | case2 c cs ih =>
    obtain ⟨piece, rest, h⟩ := List.exists_cons_of_ne_nil (pieces_ne_nil (cs.drop (runLength c cs)))
    by_cases hc : c = ';'
    · subst hc
      have hn : runLength ';' cs = 0 := rfl
      rw [hn, List.drop_zero] at ih h
      rw [pieces_semicolon, h, List.intercalate_cons_cons, ← h, ih]
      rfl
    · have hjoin : [';'].intercalate ((c :: cs.take (runLength c cs) ++ piece) :: rest) =
          c :: cs.take (runLength c cs) ++ [';'].intercalate (piece :: rest) := by
        cases rest <;> simp
      rw [pieces_cons hc, h, List.modifyHead_cons, hjoin, ← h, ih, List.cons_append,
        List.take_append_drop]

theorem pieces_of_length {cs : List Char} (h : (pieces cs).length = 1) :
    pieces cs = [cs] := by
  obtain ⟨piece, hp⟩ := List.length_eq_one_iff.1 h
  have hcs := intercalate_pieces cs
  rw [hp] at hcs ⊢
  simpa using hcs

section Cut

variable {c : Char} {cs piece rest : List Char}

/-- A run that does not reach the semicolon is the same run without what follows. -/
theorem runLength_of_le (h : runLength c (cs ++ ';' :: rest) ≤ cs.length) :
    staysOpen c cs = false ∧ runLength c (cs ++ ';' :: rest) = runLength c cs := by
  have hopen : staysOpen c cs = false := by
    rw [← Bool.not_eq_true]
    exact fun ho => absurd (lt_runLength_append ho (by decide) rest) (Nat.not_lt.2 h)
  exact ⟨hopen, runLength_append hopen (by decide) rest⟩

theorem cut (cs : List Char) : pieces cs = [cs] ∨
    ∃ piece rest, cs = piece ++ ';' :: rest ∧ endsOpen piece = false ∧
      pieces piece = [piece] ∧ pieces cs = piece :: pieces rest := by
  induction cs using endsOpen.induct with
  | case1 => exact .inl pieces_nil
  | case2 c cs ih =>
    by_cases hc : c = ';'
    · subst hc
      exact .inr ⟨[], cs, rfl, endsOpen_nil, pieces_nil, pieces_semicolon cs⟩
    rw [pieces_cons hc]
    obtain ⟨n, hn⟩ : ∃ n, n = runLength c cs := ⟨_, rfl⟩
    rw [← hn] at ih ⊢
    obtain h | ⟨piece, rest, hcs, hopen, hpiece, hpieces⟩ := ih
    · left
      simp [h]
    · right
      have hsplit : cs = (cs.take n ++ piece) ++ ';' :: rest := by
        rw [List.append_assoc, ← hcs, List.take_append_drop]
      have hle : n ≤ cs.length := hn ▸ runLength_le c cs
      have hlen : (cs.take n).length = n := List.length_take_of_le hle
      have hrun := @runLength_of_le c (cs.take n ++ piece) rest (by
        rw [← hsplit, ← hn, List.length_append, hlen]
        exact Nat.le_add_right _ _)
      rw [← hsplit, ← hn] at hrun
      refine ⟨c :: (cs.take n ++ piece), rest, ?_, ?_, ?_, ?_⟩
      · rw [List.cons_append, ← hsplit]
      · rw [endsOpen_cons, hrun.1, ← hrun.2, List.drop_left' hlen, hopen, Bool.or_false]
      · rw [pieces_cons hc, ← hrun.2, List.drop_left' hlen, List.take_left' hlen, hpiece]
        rfl
      · rw [hpieces]
        rfl

/-- A text is whole, or a whole piece outside quotes and comments, a semicolon and a text. -/
theorem cut_induction {P : List Char → Prop} (whole : ∀ cs, pieces cs = [cs] → P cs)
    (parted : ∀ piece rest, endsOpen piece = false → pieces piece = [piece] →
      pieces (piece ++ ';' :: rest) = piece :: pieces rest → P rest → P (piece ++ ';' :: rest))
    (cs : List Char) : P cs := by
  obtain h | ⟨piece, rest, hcs, hopen, hpiece, hpieces⟩ := cut cs
  · exact whole cs h
  · have ih := cut_induction whole parted rest
    rw [hcs] at hpieces ⊢
    exact parted piece rest hopen hpiece hpieces ih
  termination_by cs.length
  decreasing_by
    rw [hcs, List.length_append, List.length_cons]
    omega

theorem pieces_drop (h : pieces (c :: cs) = [c :: cs]) :
    c ≠ ';' ∧ pieces (cs.drop (runLength c cs)) = [cs.drop (runLength c cs)] := by
  have hc : c ≠ ';' := by
    rintro rfl
    rw [pieces_semicolon] at h
    simp at h
  refine ⟨hc, pieces_of_length ?_⟩
  rw [pieces_cons hc] at h
  simpa using congrArg List.length h

theorem pieces_append (hopen : endsOpen piece = false) (h : pieces piece = [piece])
    (rest : List Char) : pieces (piece ++ ';' :: rest) = piece :: pieces rest := by
  induction piece using endsOpen.induct with
  | case1 => exact pieces_semicolon rest
  | case2 c cs ih =>
    obtain ⟨hc, hdrop⟩ := pieces_drop h
    obtain ⟨hstays, hopen⟩ := endsOpen_cons_eq_false.1 hopen
    rw [List.cons_append, pieces_cons hc, runLength_append hstays (by decide),
      List.drop_append_of_le_length (runLength_le c cs),
      List.take_append_of_le_length (runLength_le c cs), ih hopen hdrop]
    simp

/-- A text that ends inside a run takes the semicolon behind it into its last piece. -/
theorem pieces_append_of_open (hopen : endsOpen piece = true) (h : pieces piece = [piece])
    (rest : List Char) :
    ∃ more others, pieces (piece ++ ';' :: rest) = (piece ++ ';' :: more) :: others := by
  induction piece using endsOpen.induct with
  | case1 => rw [endsOpen_nil] at hopen; contradiction
  | case2 c cs ih =>
    obtain ⟨hc, hdrop⟩ := pieces_drop h
    rw [List.cons_append, pieces_cons hc]
    cases hstays : staysOpen c cs with
    | true =>
      have hlt := lt_runLength_append (s := ';') hstays (by decide) rest
      obtain ⟨n, hn⟩ := Nat.exists_eq_add_of_lt hlt
      obtain ⟨more, others, hm⟩ := List.exists_cons_of_ne_nil
        (pieces_ne_nil ((cs ++ ';' :: rest).drop (runLength c (cs ++ ';' :: rest))))
      refine ⟨rest.take n ++ more, others, ?_⟩
      rw [hm, hn, Nat.add_assoc, List.take_append]
      simp
    | false =>
      have hopen : endsOpen (cs.drop (runLength c cs)) = true := by
        simpa [endsOpen_cons, hstays] using hopen
      obtain ⟨more, others, hm⟩ := ih hopen hdrop
      refine ⟨more, others, ?_⟩
      rw [runLength_append hstays (by decide),
        List.drop_append_of_le_length (runLength_le c cs),
        List.take_append_of_le_length (runLength_le c cs), hm, List.modifyHead_cons,
        List.cons_append, ← List.append_assoc, List.take_append_drop]
      rfl

end Cut

section Head

variable {c : Char} {cs run rest : List Char}

theorem endsOpen_plainRun (h : PlainRun run rest) : endsOpen (run ++ rest) = endsOpen rest := by
  induction run with
  | nil => rfl
  | cons c run ih =>
    obtain ⟨-, hq, hc, hrun⟩ := h
    rw [List.cons_append, endsOpen_cons, staysOpen_of_plain hq hc, runLength_of_plain hq hc]
    simpa using ih hrun

theorem pieces_plainRun (h : PlainRun run rest) :
    pieces (run ++ rest) = (pieces rest).modifyHead (run ++ ·) := by
  induction run with
  | nil => cases hp : pieces rest <;> simp [hp]
  | cons c run ih =>
    obtain ⟨hs, hq, hc, hrun⟩ := h
    rw [List.cons_append, pieces_cons hs, runLength_of_plain hq hc, List.drop_zero, ih hrun,
      List.modifyHead_modifyHead]
    rfl

/-- Going lexeme by lexeme in place of run by run makes no difference. -/
theorem endsOpen_head (c : Char) (cs : List Char) :
    endsOpen (c :: cs) = (staysOpen c cs || endsOpen (cs.drop (head c cs).2)) := by
  rw [endsOpen_cons]
  cases runStart c cs with
  | quote hq => rw [head_of_quote hq]
  | hash | dashes | block => rw [head_of_comment rfl]; rfl
  | plain hq hc =>
    have hrun := endsOpen_plainRun (plainRun_head hq hc (cs.drop (head c cs).2))
    rw [List.take_append_drop] at hrun
    rw [runLength_of_plain hq hc, List.drop_zero, hrun]

theorem pieces_head (hs : c ≠ ';') :
    pieces (c :: cs) = (pieces (cs.drop (head c cs).2)).modifyHead
      (c :: cs.take (head c cs).2 ++ ·) := by
  rw [pieces_cons hs]
  cases runStart c cs with
  | quote hq => rw [head_of_quote hq]
  | hash | dashes | block => rw [head_of_comment rfl]; rfl
  | plain hq hc =>
    have hrun := pieces_plainRun (plainRun_head hq hc (cs.drop (head c cs).2))
    rw [List.take_append_drop] at hrun
    rw [runLength_of_plain hq hc, List.drop_zero, hrun, List.modifyHead_modifyHead]
    rfl

end Head

end TypedTables.Statement
