import TypedTables.Proofs.Token.Reading

/-!
Places in closed form: a line is one more than the line breaks before the place, and a column is one
more than what stands behind the last of them. Tokens stand where they are said to stand.
-/

namespace TypedTables

open Lexeme
open String (utf8Len)

/-- What stands behind the last line break of a text. -/
def lastLine (cs : List Char) : List Char := (cs.reverse.takeWhile (· != '\n')).reverse

section LastLine

variable {cs ds : List Char}

theorem lastLine_of_break (h : '\n' ∉ ds) (cs : List Char) : lastLine (cs ++ '\n' :: ds) = ds := by
  have hds : ∀ c ∈ ds.reverse, (c != '\n') = true := fun c hc =>
    bne_iff_ne.2 fun heq => h (heq ▸ List.mem_reverse.1 hc)
  rw [lastLine, List.reverse_append, List.reverse_cons, List.append_assoc,
    List.takeWhile_append_of_pos hds]
  simp

theorem exists_break (h : '\n' ∈ cs) : ∃ front, cs = front ++ '\n' :: lastLine cs := by
  obtain ⟨back, front, hcs, hback⟩ := List.eq_append_cons_of_mem (List.mem_reverse.2 h)
  have hsplit : cs = front.reverse ++ '\n' :: back.reverse := by
    rw [← List.reverse_reverse cs, hcs]
    simp
  refine ⟨front.reverse, ?_⟩
  conv_rhs => rw [hsplit, lastLine_of_break (mt List.mem_reverse.1 hback)]
  exact hsplit

theorem lastLine_append_of_not_mem (h : '\n' ∉ ds) (cs : List Char) :
    lastLine (cs ++ ds) = lastLine cs ++ ds := by
  have hds : ∀ c ∈ ds.reverse, (c != '\n') = true := fun c hc =>
    bne_iff_ne.2 fun heq => h (heq ▸ List.mem_reverse.1 hc)
  rw [lastLine, List.reverse_append, List.takeWhile_append_of_pos hds, List.reverse_append,
    List.reverse_reverse, lastLine]

theorem not_mem_lastLine (cs : List Char) : '\n' ∉ lastLine cs := fun h => by
  have hne := List.mem_takeWhile_imp (List.mem_reverse.1 h)
  simp at hne

theorem lastLine_append_of_mem (h : '\n' ∈ ds) (cs : List Char) :
    lastLine (cs ++ ds) = lastLine ds := by
  obtain ⟨front, hds⟩ := exists_break h
  conv_lhs => rw [hds, ← List.append_assoc, lastLine_of_break (not_mem_lastLine ds)]

end LastLine

namespace Location

variable {width : Char → Nat} {here : Location}

theorem after_append (width : Char → Nat) (here : Location) (cs ds : List Char) :
    here.after width (cs ++ ds) = (here.after width cs).after width ds := List.foldl_append

theorem advance_append (here : Location) (cs ds : List Char) :
    here.advance (cs ++ ds) = (here.advance cs).advance ds := List.foldl_append

theorem line_after (width : Char → Nat) (here : Location) (cs : List Char) :
    (here.after width cs).line = here.line + cs.count '\n' := by
  induction cs generalizing here with
  | nil => rfl
  | cons c cs ih =>
    rw [after, List.foldl_cons, ← after, ih, List.count_cons, step]
    by_cases hc : c = '\n'
    · simp [hc]
      omega
    · simp [hc]

theorem column_after_of_not_mem {cs : List Char} (h : '\n' ∉ cs) (width : Char → Nat)
    (here : Location) : (here.after width cs).column = here.column + (cs.map width).sum := by
  induction cs generalizing here with
  | nil => rfl
  | cons c cs ih =>
    obtain ⟨hc, hcs⟩ := not_or.1 (mt List.mem_cons.2 h)
    rw [after, List.foldl_cons, ← after, ih hcs, step, if_neg (Ne.symm hc), List.map_cons,
      List.sum_cons, Nat.add_assoc]

theorem column_after_of_mem {cs : List Char} (h : '\n' ∈ cs) (width : Char → Nat)
    (here : Location) :
    (here.after width cs).column = 1 + ((lastLine cs).map width).sum := by
  obtain ⟨front, hcs⟩ := exists_break h
  conv_lhs =>
    rw [hcs, after_append, after, List.foldl_cons, ← after,
      column_after_of_not_mem (not_mem_lastLine cs), step, if_pos rfl]

theorem column_start_after (width : Char → Nat) (cs : List Char) :
    (start.after width cs).column = 1 + ((lastLine cs).map width).sum := by
  by_cases h : '\n' ∈ cs
  · exact column_after_of_mem h width start
  · have hcs : lastLine cs = cs := lastLine_append_of_not_mem h []
    rw [column_after_of_not_mem h, hcs]
    rfl

theorem advance_start (cs : List Char) :
    start.advance cs = ⟨utf8Len cs, 1 + cs.count '\n', 1 + (lastLine cs).length⟩ := by
  have hline : (start.advance cs).line = 1 + cs.count '\n' := line_after _ start cs
  have hcolumn : (start.advance cs).column = 1 + (lastLine cs).length := by
    rw [advance, column_start_after, List.map_const', List.sum_replicate, smul_eq_mul, Nat.mul_one]
  have hoffset : (start.advance cs).offset = utf8Len cs := by
    rw [offset_advance, start, Nat.zero_add]
  rw [← hoffset, ← hline, ← hcolumn]

theorem sum_map_utf8Size (cs : List Char) : (cs.map Char.utf8Size).sum = utf8Len cs := by
  induction cs with
  | nil => rfl
  | cons c cs ih => rw [List.map_cons, List.sum_cons, ih, String.utf8Len_cons, Nat.add_comm]

theorem advanceBytes_start (cs : List Char) :
    start.advanceBytes cs = ⟨utf8Len cs, 1 + cs.count '\n', 1 + utf8Len (lastLine cs)⟩ := by
  have hline : (start.advanceBytes cs).line = 1 + cs.count '\n' := line_after _ start cs
  have hcolumn : (start.advanceBytes cs).column = 1 + utf8Len (lastLine cs) := by
    rw [advanceBytes, column_start_after, sum_map_utf8Size]
  have hoffset : (start.advanceBytes cs).offset = utf8Len cs := by
    rw [offset_advanceBytes, start, Nat.zero_add]
  rw [← hoffset, ← hline, ← hcolumn]

end Location

section Tokens

/-- Two fronts of one text that take the same number of bytes are the same. -/
theorem eq_of_utf8Len {xs ys xs' ys' : List Char} (h : xs ++ ys = xs' ++ ys')
    (hlen : utf8Len xs = utf8Len xs') : xs = xs' := by
  induction xs generalizing xs' with
  | nil => exact (String.utf8Len_eq_zero.1 hlen.symm).symm
  | cons c xs ih =>
    cases xs' with
    | nil => exact String.utf8Len_eq_zero.1 hlen
    | cons c' xs' =>
      obtain ⟨rfl, hrest⟩ := List.cons.inj h
      rw [String.utf8Len_cons, String.utf8Len_cons, Nat.add_right_cancel_iff] at hlen
      rw [ih hrest hlen]

/-- The lexeme that starts with `c`, and where it is if it stands behind `before`. -/
def lexemeSpan (here : Location) (before : List Char) (c : Char) (cs : List Char) : Span :=
  (here.advance before).spanTo ((here.advance before).advance (c :: cs.take (head c cs).2))

theorem exists_place_lexFrom {here : Location} {done : List Token} : (cs : List Char) →
    ∀ t ∈ lexFrom here done cs, t ∈ done ∨ ∃ before c rest, cs = before ++ c :: rest ∧
      t.span = lexemeSpan here before c rest
  | [], t, ht => .inl (by simpa [lexFrom] using ht)
  | c :: cs, t, ht => by
    rw [lexFrom_cons] at ht
    obtain ht | ⟨before, d, rest, hcs, hspan⟩ := exists_place_lexFrom (cs.drop _) t ht
    · obtain ht | ht := List.mem_append.1 ht
      · obtain ⟨token, -, rfl⟩ := Option.mem_map.1 (Option.mem_toList.1 ht)
        exact .inr ⟨[], c, cs, rfl, rfl⟩
      · exact .inl ht
    · refine .inr ⟨c :: cs.take (head c cs).2 ++ before, d, rest, ?_, ?_⟩
      · rw [List.append_assoc, ← hcs, List.cons_append, List.take_append_drop]
      · rw [hspan, lexemeSpan, lexemeSpan, Location.advance_append here]
  termination_by cs => cs.length
  decreasing_by simp only [List.length_drop, List.length_cons]; omega

/-- Each token has the span of the lexeme that it is made of. -/
theorem exists_place {source : String} {t : Token} (ht : t ∈ tokenize source) :
    ∃ before c cs, source.toList = before ++ c :: cs ∧ t.span = lexemeSpan .start before c cs := by
  obtain h | h := exists_place_lexFrom source.toList t ht
  · contradiction
  · exact h

theorem lexemeSpan_start (before : List Char) (c : Char) (cs : List Char) :
    lexemeSpan .start before c cs = ⟨utf8Len before, utf8Len (c :: cs.take (head c cs).2),
      1 + before.count '\n', 1 + (lastLine before).length⟩ := by
  rw [lexemeSpan, Location.advance_start, Location.spanTo, Location.offset_advance,
    Nat.add_sub_cancel_left]

end Tokens

end TypedTables
