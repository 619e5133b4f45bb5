import TypedTables.Proofs.Token.Reading

/-!
Trimming a text changes its readings only where it ends in a quoted run that is never closed.
-/

namespace TypedTables

open Lexeme Statement Text

/-- Readings of a text that starts at `offset`, beside the same readings but for a last one: a
quoted run that is open to the end of the text may have lost the blanks at its end. -/
inductive Trimmed (offset : Nat) : List Char → List Reading → List Reading → Prop
  | same {cs} (rs : List Reading) : Trimmed offset cs rs rs
  | last {before quote run} (rs : List Reading) : isQuote quote = true →
      quoteCloses quote run = false → endsOpen (before ++ quote :: run) = true →
      Trimmed offset (before ++ quote :: run)
        (rs ++ [⟨quoteKind quote, unquote quote run, offset + String.utf8Len before,
          String.utf8Len (quote :: run)⟩])
        (rs ++ [⟨quoteKind quote, unquote quote (trimEnd run), offset + String.utf8Len before,
          String.utf8Len (quote :: trimEnd run)⟩])

namespace Trimmed

variable {offset : Nat} {cs front : List Char} {rs ts : List Reading}

theorem prepend (h : Trimmed (offset + String.utf8Len front) cs rs ts)
    (hopen : endsOpen (front ++ cs) = endsOpen cs) (before : List Reading) :
    Trimmed offset (front ++ cs) (before ++ rs) (before ++ ts) := by
  cases h with
  | same => exact same _
  | @last first quote run rs hq hc ho =>
    rw [← hopen, ← List.append_assoc] at ho
    have h : Trimmed offset _ _ _ := last (before ++ rs) hq hc ho
    simpa [Nat.add_assoc, String.utf8Len_append] using h

theorem eq_of_closed (h : Trimmed offset cs rs ts) (hopen : endsOpen cs = false) : rs = ts := by
  cases h with
  | same => rfl
  | last rs hq hc ho => rw [ho] at hopen; contradiction

/-- Kinds stay as they are. -/
theorem map_kind (h : Trimmed offset cs rs ts) : rs.map (·.kind) = ts.map (·.kind) := by
  cases h <;> simp

end Trimmed

section Trim

variable {c : Char} {cs tail : List Char}

theorem readings_of_blanks (hb : ∀ c ∈ tail, isBlank c = true) (offset : Nat) (cs : List Char) :
    readings offset (tail ++ cs) = readings (offset + String.utf8Len tail) cs := by
  induction tail generalizing offset with
  | nil => rfl
  | cons c tail ih =>
    rw [List.cons_append, readings_cons, head_of_blank (hb c List.mem_cons_self), List.drop_zero,
      ih fun d hd => hb d (List.mem_cons_of_mem c hd)]
    simp [reading?, token?, Nat.add_assoc, Nat.add_comm]

theorem readings_blanks (hb : ∀ c ∈ tail, isBlank c = true) (offset : Nat) :
    readings offset tail = [] := by
  rw [← List.append_nil tail, readings_of_blanks hb, readings_nil]

theorem head_of_open_comment (hq : isQuote c = false) (h : staysOpen c cs = true)
    (tail : List Char) : head c (cs ++ tail) = (.gap, runLength c (cs ++ tail)) := by
  cases runStart c cs with
  | quote hq' => rw [hq] at hq'; contradiction
  | hash | dashes | block => exact head_of_comment rfl
  | plain _ hc => rw [staysOpen_of_plain hq hc] at h; contradiction

theorem readings_of_open_comment (hq : isQuote c = false) (h : staysOpen c cs = true)
    (hb : ∀ c ∈ tail, isBlank c = true) (offset : Nat) : readings offset (c :: cs ++ tail) = [] := by
  have hdrop : (cs ++ tail).drop (runLength c (cs ++ tail)) =
      tail.drop (runLength c (cs ++ tail) - cs.length) := by
    rw [List.drop_append, List.drop_eq_nil_of_le (le_runLength_append h tail), List.nil_append]
  rw [List.cons_append, readings_cons, head_of_open_comment hq h, hdrop,
    readings_blanks fun d hd => hb d (List.mem_of_mem_drop hd)]
  rfl

theorem readings_of_open_quote (hq : isQuote c = true) (h : quoteCloses c cs = false)
    (offset : Nat) :
    readings offset (c :: cs) =
      [⟨quoteKind c, unquote c cs, offset, String.utf8Len (c :: cs)⟩] := by
  have hopen : staysOpen c cs = true := by rw [staysOpen_of_quote hq, h]; rfl
  rw [readings_cons, head_of_quote hq, runLength_of_open hopen, List.take_length, List.drop_length,
    readings_nil]
  rfl

/-- A run that is open to the end of the text. -/
theorem trimmed_of_open (h : staysOpen c cs = true) (hc : trimEnd cs = cs)
    (hb : ∀ c ∈ tail, isBlank c = true) (offset : Nat) :
    Trimmed offset (c :: cs ++ tail) (readings offset (c :: cs ++ tail))
      (readings offset (c :: cs)) := by
  cases hq : isQuote c with
  | false =>
    have hcs := @readings_of_open_comment c cs [] hq h (by simp) offset
    rw [List.append_nil] at hcs
    rw [readings_of_open_comment hq h hb, hcs]
    exact .same []
  | true =>
    have hcs : quoteCloses c cs = false := by simpa [staysOpen_of_quote hq] using h
    have hct : quoteCloses c (cs ++ tail) = false := quoteCloses_append hcs fun hm =>
      absurd rfl (ne_of_separates_of_isQuote (separates_of_isBlank (hb c hm)) hq)
    have hopen : endsOpen (c :: (cs ++ tail)) = true := by
      rw [endsOpen_cons, staysOpen_of_quote hq, hct]
      rfl
    have hlast : Trimmed offset ([] ++ c :: (cs ++ tail)) _ _ := .last [] hq hct hopen
    rw [trimEnd_append_of_blank hb, hc] at hlast
    rw [List.cons_append, readings_of_open_quote hq hcs, readings_of_open_quote hq hct]
    exact hlast

theorem trimmed_append {tail : List Char} (hb : ∀ c ∈ tail, isBlank c = true) (offset : Nat) :
    (cs : List Char) → trimEnd cs = cs →
    Trimmed offset (cs ++ tail) (readings offset (cs ++ tail)) (readings offset cs)
  | [], _ => by
    rw [List.nil_append, readings_blanks hb, readings_nil]
    exact .same []
  | c :: cs, hc => by
    -- lexeme by lexeme, until one stays open where the text ends
    cases hstays : staysOpen c cs with
    | true => exact trimmed_of_open hstays (@trimEnd_of_append [c] cs hc) hb offset
    | false =>
      cases tail with
      | nil => rw [List.append_nil]; exact .same _
      | cons s tail =>
        have hs : separates s = true := separates_of_isBlank (hb s List.mem_cons_self)
        have hsplit : c :: cs = (c :: cs.take (head c cs).2) ++ cs.drop (head c cs).2 := by simp
        rw [hsplit] at hc
        have ih := trimmed_append hb (offset + String.utf8Len (c :: cs.take (head c cs).2))
          (cs.drop (head c cs).2) (trimEnd_of_append hc)
        have hopen : endsOpen (c :: cs.take (head c cs).2 ++ (cs.drop (head c cs).2 ++ s :: tail)) =
            endsOpen (cs.drop (head c cs).2 ++ s :: tail) := by
          rw [List.cons_append, ← List.append_assoc, List.take_append_drop, endsOpen_head,
            staysOpen_append hstays hs, head_append hstays hs,
            List.drop_append_of_le_length (head_le c cs), Bool.false_or]
        have h := ih.prepend hopen (((head c cs).1.reading? offset c (cs.take (head c cs).2)).toList)
        rw [List.cons_append, readings_cons, readings_cons, head_append hstays hs,
          List.take_append_of_le_length (head_le c cs),
          List.drop_append_of_le_length (head_le c cs)]
        rwa [List.cons_append, ← List.append_assoc, List.take_append_drop] at h
  termination_by cs => cs.length
  decreasing_by simp only [List.length_drop, List.length_cons]; omega

end Trim

end TypedTables
