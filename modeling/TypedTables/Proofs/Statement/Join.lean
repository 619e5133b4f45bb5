import TypedTables.Proofs.Statement.Tokens

/-!
Two texts with a semicolon between them. If the first one ends outside quotes and comments, the
statements are those of the first text, and those of the second one moved behind it.
-/

namespace TypedTables

namespace Location

variable {here there : Location} {cs ds : List Char}

theorem advanceBytes_append (here : Location) (cs ds : List Char) :
    here.advanceBytes (cs ++ ds) = (here.advanceBytes cs).advanceBytes ds := List.foldl_append

/-- A place of a text that begins at `here`, given the place `there` in the text itself. -/
def within (here there : Location) : Location where
  offset := here.offset + there.offset
  line := here.line + there.line - 1
  column := if there.line = 1 then here.column + there.column - 1 else there.column

/-- The place behind a text. -/
def endOf (front : String) : Location := start.advanceBytes front.toList

theorem within_step (h : there.Valid) (width : Char → Nat) (c : Char) :
    here.within (there.step width c) = (here.within there).step width c := by
  obtain ⟨hline, hcolumn⟩ := h
  unfold Location.step within
  by_cases hc : c = '\n'
  · have hnext : there.line + 1 ≠ 1 := by omega
    simp only [if_pos hc, if_neg hnext, mk.injEq, and_true]
    omega
  · simp only [if_neg hc, mk.injEq, true_and]
    split_ifs <;> omega

theorem within_after (h : there.Valid) (width : Char → Nat) (cs : List Char) :
    here.within (there.after width cs) = (here.within there).after width cs := by
  induction cs generalizing there with
  | nil => rfl
  | cons c cs ih =>
    have hstep : here.within ((there.step width c).after width cs) = _ := ih (h.step width c)
    rw [within_step h] at hstep
    exact hstep

theorem within_advanceBytes (h : there.Valid) (cs : List Char) :
    here.within (there.advanceBytes cs) = (here.within there).advanceBytes cs :=
  within_after h _ cs

theorem within_start (h : here.Valid) : here.within start = here := by
  obtain ⟨offset, line, column⟩ := here
  obtain ⟨hline, hcolumn⟩ := h
  simp [within, start]

end Location

namespace Statement

section Pieces

/-- A semicolon behind a text that ends outside quotes and comments parts what follows from it. -/
theorem pieces_join {front : List Char} (h : endsOpen front = false) (back : List Char) :
    pieces (front ++ ';' :: back) = pieces front ++ pieces back := by
  induction front using cut_induction with
  | whole front hp => rw [pieces_append h hp, hp, List.singleton_append]
  | parted piece rest hopen hp hpieces ih =>
    have hrest : endsOpen rest = false := by
      rw [endsOpen_append (by decide) piece hopen, endsOpen_cons_eq_false] at h
      exact h.2
    rw [List.append_assoc, List.cons_append, pieces_append hopen hp, ih hrest, hpieces,
      List.cons_append]

end Pieces

section Moved

/-- A statement of a text, in a text that goes on with that text from `here` on. -/
def moved (here : Location) (statement : Statement) : Statement :=
  { statement with start := here.within statement.start }

variable {here there : Location} {ps qs : List (List Char)}

theorem ofPiece?_within (h : there.Valid) (piece : List Char) :
    ofPiece? (here.within there) piece = (ofPiece? there piece).map (moved here) := by
  unfold ofPiece?
  dsimp only
  split
  · rfl
  · rw [Option.map_some, moved, Location.within_advanceBytes h]

theorem ofPieces_within (h : there.Valid) (ps : List (List Char)) :
    ofPieces (here.within there) [] ps = (ofPieces there [] ps).map (moved here) := by
  induction ps generalizing there with
  | nil => rfl
  | cons p ps ih =>
    have hnext := ih ((h.advanceBytes p).advanceBytes [';'])
    rw [Location.within_advanceBytes (h.advanceBytes p), Location.within_advanceBytes h] at hnext
    rw [ofPieces_cons, ofPieces_cons, ofPiece?_within h, hnext, List.map_append, Option.toList_map]

theorem ofPieces_append (here : Location) (hne : ps ≠ []) (qs : List (List Char)) :
    ofPieces here [] (ps ++ qs) = ofPieces here [] ps ++
      ofPieces (here.advanceBytes ([';'].intercalate ps ++ [';'])) [] qs := by
  induction ps generalizing here with
  | nil => contradiction
  | cons p ps ih =>
    rw [List.cons_append, ofPieces_cons, ofPieces_cons, ← Location.advanceBytes_append]
    cases ps with
    | nil => simp [ofPieces]
    | cons q ps =>
      rw [ih _ (by simp), ← Location.advanceBytes_append, List.intercalate_cons_cons]
      simp

/-- The statements of two texts with a semicolon between them. -/
theorem split_join {front : String} (h : endsOpen front.toList = false) (back : String) :
    split (front ++ ";" ++ back) =
      split front ++ (split back).map (moved (.endOf (front ++ ";"))) := by
  have htext : (front ++ ";" ++ back).toList = front.toList ++ ';' :: back.toList := by simp
  rw [split_eq, htext, pieces_join h, ofPieces_append _ (pieces_ne_nil _), intercalate_pieces,
    split_eq front, split_eq back, Location.endOf, String.toList_append]
  congr 1
  exact ofPieces_within Location.valid_start (pieces back.toList)

/-- Where a statement begins. -/
theorem valid_ofPieces (h : here.Valid) (ps : List (List Char)) :
    ∀ s ∈ ofPieces here [] ps, s.start.Valid := by
  induction ps generalizing here with
  | nil => nofun
  | cons p ps ih =>
    rw [ofPieces_cons]
    refine fun s hs => (List.mem_append.1 hs).elim (fun hs => ?_) fun hs =>
      ih ((h.advanceBytes p).advanceBytes [';']) s hs
    unfold ofPiece? at hs
    dsimp only at hs
    split at hs
    · contradiction
    · obtain rfl := List.mem_singleton.1 hs
      exact h.advanceBytes _

theorem valid_split (source : String) : ∀ s ∈ split source, s.start.Valid := by
  rw [split_eq]
  exact valid_ofPieces Location.valid_start (pieces source.toList)

end Moved

end Statement

end TypedTables
