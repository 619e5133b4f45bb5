import TypedTables.Proofs.Statement.Pieces

/-!
Readings: what tokens say apart from lines and columns. The readings of a text are those of its
front and of its rest wherever it is parted before a blank or a semicolon outside quotes and
comments, and trimming changes none but those of a quoted run that is never closed.
-/

namespace TypedTables

open Lexeme Statement

/-- A token without its line and column. -/
structure Reading where
  kind : TokenKind
  text : String
  offset : Nat
  length : Nat
  deriving DecidableEq, Repr

/-- The reading of a token of a text that starts at `base`. -/
def Token.reading (base : Nat) (t : Token) : Reading :=
  ⟨t.kind, t.text, base + t.span.offset, t.span.length⟩

/-- The reading that a lexeme makes, given its characters behind the first. -/
def Lexeme.reading? (offset : Nat) (lexeme : Lexeme) (c : Char) (run : List Char) :
    Option Reading :=
  (lexeme.token? c run).map fun (kind, text) => ⟨kind, text, offset, String.utf8Len (c :: run)⟩

/-- The readings of a text that starts at `offset`. -/
def readings (offset : Nat) : List Char → List Reading
  | [] => []
  | c :: cs =>
    let run := cs.take (head c cs).2
    ((head c cs).1.reading? offset c run).toList ++
      readings (offset + String.utf8Len (c :: run)) (cs.drop (head c cs).2)
  termination_by cs => cs.length
  decreasing_by simp only [List.length_drop, List.length_cons]; omega

theorem readings_nil (offset : Nat) : readings offset [] = [] := by rw [readings]

theorem readings_cons (offset : Nat) (c : Char) (cs : List Char) :
    readings offset (c :: cs) =
      ((head c cs).1.reading? offset c (cs.take (head c cs).2)).toList ++
        readings (offset + String.utf8Len (c :: cs.take (head c cs).2)) (cs.drop (head c cs).2) := by
  rw [readings]

theorem Location.offset_after (width : Char → Nat) (here : Location) (cs : List Char) :
    (here.after width cs).offset = here.offset + String.utf8Len cs := by
  induction cs generalizing here with
  | nil => rfl
  | cons c cs ih =>
    have hstep : (here.step width c).offset = here.offset + c.utf8Size := by
      unfold Location.step
      split <;> rfl
    rw [Location.after, List.foldl_cons, ← Location.after, ih, hstep, String.utf8Len_cons]
    omega

theorem Location.offset_advance (here : Location) (cs : List Char) :
    (here.advance cs).offset = here.offset + String.utf8Len cs :=
  here.offset_after _ cs

theorem Location.offset_advanceBytes (here : Location) (cs : List Char) :
    (here.advanceBytes cs).offset = here.offset + String.utf8Len cs :=
  here.offset_after _ cs

namespace Location

variable {here : Location}

/-- A place that a text can have: lines and columns count from 1. -/
structure Valid (here : Location) : Prop where
  line : 1 ≤ here.line
  column : 1 ≤ here.column

theorem valid_start : start.Valid := ⟨Nat.le_refl 1, Nat.le_refl 1⟩

theorem Valid.step (h : here.Valid) (width : Char → Nat) (c : Char) : (here.step width c).Valid := by
  unfold Location.step
  split_ifs
  · exact ⟨Nat.le_add_left 1 here.line, Nat.le_refl 1⟩
  · exact ⟨h.line, Nat.le_add_right_of_le h.column⟩

theorem Valid.after (h : here.Valid) (width : Char → Nat) (cs : List Char) :
    (here.after width cs).Valid := by
  induction cs generalizing here with
  | nil => exact h
  | cons c cs ih => exact ih (h.step width c)

theorem Valid.advance (h : here.Valid) (cs : List Char) : (here.advance cs).Valid := h.after _ cs

theorem Valid.advanceBytes (h : here.Valid) (cs : List Char) : (here.advanceBytes cs).Valid :=
  h.after _ cs

end Location

theorem lexFrom_cons (here : Location) (done : List Token) (c : Char) (cs : List Char) :
    lexFrom here done (c :: cs) =
      let run := cs.take (head c cs).2
      let next := here.advance (c :: run)
      lexFrom next
        ((((head c cs).1.token? c run).map fun (kind, text) =>
          Token.mk kind text (here.spanTo next)).toList ++ done) (cs.drop (head c cs).2) := by
  rw [lexFrom]
  cases h : (head c cs).1.token? c (cs.take (head c cs).2) <;> simp [h]

theorem line_lexFrom {here : Location} (h : here.Valid) {done : List Token}
    (hdone : ∀ t ∈ done, 1 ≤ t.span.line) : (cs : List Char) →
    ∀ t ∈ lexFrom here done cs, 1 ≤ t.span.line
  | [] => by simpa [lexFrom] using hdone
  | c :: cs => by
    rw [lexFrom_cons]
    refine line_lexFrom (h.advance _) (fun t ht => ?_) (cs.drop _)
    obtain ht | ht := List.mem_append.1 ht
    · obtain ⟨token, -, rfl⟩ := Option.mem_map.1 (Option.mem_toList.1 ht)
      exact h.line
    · exact hdone t ht
  termination_by cs => cs.length
  decreasing_by simp only [List.length_drop, List.length_cons]; omega

theorem line_tokenize (source : String) : ∀ t ∈ tokenize source, 1 ≤ t.span.line :=
  line_lexFrom Location.valid_start (by simp) source.toList

theorem map_reading_lexFrom (base : Nat) (here : Location) (done : List Token) : (cs : List Char) →
    (lexFrom here done cs).map (Token.reading base) =
      done.reverse.map (Token.reading base) ++ readings (base + here.offset) cs
  | [] => by simp [lexFrom, readings_nil]
  | c :: cs => by
    rw [lexFrom_cons, readings_cons, map_reading_lexFrom base _ _ (cs.drop _), reading?]
    cases (head c cs).1.token? c (cs.take (head c cs).2) with
    | none => simp [Location.offset_advance, Nat.add_assoc]
    | some token =>
      simp [Location.offset_advance, Nat.add_assoc, Token.reading, Location.spanTo]
  termination_by cs => cs.length
  decreasing_by simp only [List.length_drop, List.length_cons]; omega

theorem map_reading_tokenize (base : Nat) (source : String) :
    (tokenize source).map (Token.reading base) = readings base source.toList := by
  simpa [tokenize, Location.start] using map_reading_lexFrom base .start [] source.toList

section Append

variable {s : Char}

theorem readings_append (hs : separates s = true) (offset : Nat) : (cs : List Char) →
    endsOpen cs = false → (rest : List Char) →
    readings offset (cs ++ s :: rest) =
      readings offset cs ++ readings (offset + String.utf8Len cs) (s :: rest)
  | [], _, rest => by simp [readings_nil]
  | c :: cs, hopen, rest => by
    obtain ⟨hstays, hdrop⟩ : staysOpen c cs = false ∧ endsOpen (cs.drop (head c cs).2) = false := by
      simpa [endsOpen_head] using hopen
    have hlen : String.utf8Len cs =
        String.utf8Len (cs.take (head c cs).2) + String.utf8Len (cs.drop (head c cs).2) := by
      rw [← String.utf8Len_append, List.take_append_drop]
    rw [List.cons_append, readings_cons, readings_cons, head_append hstays hs,
      List.take_append_of_le_length (head_le c cs), List.drop_append_of_le_length (head_le c cs),
      readings_append hs _ (cs.drop (head c cs).2) hdrop, List.append_assoc]
    simp only [String.utf8Len_cons, hlen, Nat.add_comm, Nat.add_left_comm]
  termination_by cs => cs.length
  decreasing_by simp only [List.length_drop, List.length_cons]; omega

theorem endsOpen_append (hs : separates s = true) : (cs : List Char) → endsOpen cs = false →
    (rest : List Char) → endsOpen (cs ++ s :: rest) = endsOpen (s :: rest)
  | [], _, rest => rfl
  | c :: cs, hopen, rest => by
    obtain ⟨hstays, hdrop⟩ := endsOpen_cons_eq_false.1 hopen
    rw [List.cons_append, endsOpen_cons, runLength_append hstays hs,
      List.drop_append_of_le_length (runLength_le c cs), endsOpen_append hs _ hdrop,
      staysOpen_append hstays hs, Bool.false_or]
  termination_by cs => cs.length
  decreasing_by simp only [List.length_drop, List.length_cons]; omega

end Append

end TypedTables
