import TypedTables.Proofs.Statement.Tokens

/-!
Splitting a text that splitting has made. A kept statement comes back as it is when it ends outside
quotes and comments; one that ends inside takes its semicolon, and what follows it, into itself.
-/

namespace TypedTables.Statement

open Lexeme Text

/-- Whether a statement with this text is kept. -/
def isKept (cs : List Char) : Bool :=
  classify (tokenize (String.ofList cs)) == .keep && !cs.isEmpty

/-- The texts of the statements of a text that are kept. -/
def keptTexts (cs : List Char) : List (List Char) :=
  ((pieces cs).map trim).filter isKept

/-- Kept statements as one text, a line each. -/
def joined (texts : List (List Char)) : List Char :=
  ['\n'].intercalate (texts.map (· ++ [';']))

section Texts

variable {cs piece : List Char}

theorem ofPiece?_texts (here : Location) (piece : List Char) :
    (ofPiece? here piece).toList.map (·.text.toList) = [trim piece].filter (!·.isEmpty) := by
  rw [ofPiece?, drop_takeWhile, trim]
  cases h : piece.dropWhile isBlank with
  | nil => rfl
  | cons c rest =>
    have hc : isBlank c = false := by
      have hhead := List.head_dropWhile_not isBlank (l := piece) (by simp [h])
      simpa [h] using hhead
    have hne : trimEnd (c :: rest) ≠ [] := trimEnd_ne_nil hc rest
    simp [hne]

theorem ofPieces_texts (here : Location) (ps : List (List Char)) :
    (ofPieces here [] ps).map (·.text.toList) = (ps.map trim).filter (!·.isEmpty) := by
  induction ps generalizing here with
  | nil => rfl
  | cons p ps ih =>
    rw [ofPieces_cons, List.map_append, ofPiece?_texts, ih, List.map_cons,
      ← List.singleton_append (l := ps.map trim), List.filter_append]

theorem keptTexts_eq (source : String) :
    keptTexts source.toList =
      ((split source).filter fun s => classify (tokenize s.text) == .keep).map (·.text.toList) := by
  have h := ofPieces_texts .start (pieces source.toList)
  rw [keptTexts]
  unfold isKept
  rw [← List.filter_filter, ← h, List.filter_map, split_eq]
  simp [Function.comp_def]

theorem splitStatements_eq (source : String) :
    splitStatements source = (keptTexts source.toList).map fun t => String.ofList (t ++ [';']) := by
  rw [splitStatements, keptTexts_eq, List.map_map]
  apply List.map_congr_left
  intro s _
  apply String.toList_inj.1
  simp

theorem toList_joined (source : String) :
    ("\n".intercalate (splitStatements source)).toList = joined (keptTexts source.toList) := by
  rw [String.toList_intercalate, splitStatements_eq, List.map_map, joined]
  congr 1
  apply List.map_congr_left
  intro t _
  simp

theorem pieces_of_mem (cs : List Char) : ∀ p ∈ pieces cs, pieces p = [p] := by
  induction cs using cut_induction with
  | whole cs h =>
    rw [h]
    exact List.forall_mem_singleton.2 h
  | parted piece rest hopen hpiece hpieces ih =>
    rw [hpieces]
    exact List.forall_mem_cons.2 ⟨hpiece, ih⟩

theorem pieces_trim (h : pieces piece = [piece]) :
    pieces (trim piece) = [trim piece] := by
  have hkinds := (trimmed_piece .start piece).map_kind
  rw [readings_ofPiece] at hkinds
  rw [pieces_iff] at h ⊢
  intro r hr
  have hmem : r.kind ∈ (readings Location.start.offset piece).map (·.kind) := by
    rw [hkinds]
    exact List.mem_map_of_mem hr
  obtain ⟨r', hr', hk⟩ := List.mem_map.1 hmem
  rw [← hk]
  exact h r' hr'

end Texts

section Ink

variable {cs : List Char}

/-- Characters that no trimming takes away. -/
def ink (cs : List Char) : Nat := cs.countP (!isBlank ·)

/-- Characters of texts that no trimming takes away, with a semicolon for each text. -/
def inkOfAll (texts : List (List Char)) : Nat := (texts.map fun t => ink t + 1).sum

theorem ink_append (xs ys : List Char) : ink (xs ++ ys) = ink xs + ink ys := List.countP_append

theorem ink_of_blanks (h : ∀ c ∈ cs, isBlank c = true) : ink cs = 0 := by
  rw [ink, List.countP_eq_zero]
  simpa using h

theorem ink_semicolon (cs : List Char) : ink (';' :: cs) = ink cs + 1 := by
  have h : isBlank ';' = false := isBlank_eq_false_iff.2 (by decide)
  simp [ink, h]

theorem ink_trim (cs : List Char) : ink (trim cs) = ink cs := by
  obtain ⟨tail, hcs, hb⟩ := exists_trim cs
  have hlead : ∀ c ∈ cs.takeWhile isBlank, isBlank c = true := fun c => List.mem_takeWhile_imp
  calc ink (trim cs) = ink (cs.takeWhile isBlank ++ (trim cs ++ tail)) := by
        rw [ink_append, ink_append, ink_of_blanks hlead, ink_of_blanks hb, Nat.zero_add,
          Nat.add_zero]
    _ = ink cs := by rw [← hcs]

theorem inkOfAll_cons (t : List Char) (texts : List (List Char)) :
    inkOfAll (t :: texts) = ink t + 1 + inkOfAll texts := by
  simp [inkOfAll]

theorem inkOfAll_pieces (cs : List Char) : inkOfAll (pieces cs) = ink cs + 1 := by
  induction cs using cut_induction with
  | whole cs h => simp [h, inkOfAll]
  | parted piece rest hopen hpiece hpieces ih =>
    rw [hpieces, inkOfAll_cons, ih, ink_append, ink_semicolon, Nat.add_right_comm, Nat.add_assoc]

theorem inkOfAll_filter_le (ps : List (List Char)) :
    inkOfAll ((ps.map trim).filter isKept) ≤ inkOfAll ps := by
  have htrim : inkOfAll (ps.map trim) = inkOfAll ps := by
    simp [inkOfAll, ink_trim, Function.comp_def]
  rw [← htrim]
  exact (List.filter_sublist.map _).sum_le_sum fun _ _ => Nat.zero_le _

end Ink

section Joined

variable {t : List Char} {texts : List (List Char)}

/-- A text that is a kept statement of itself. -/
structure Stands (t : List Char) : Prop where
  trimmed : trim t = t
  whole : pieces t = [t]
  kept : isKept t = true

theorem stands_of_mem_keptTexts {cs : List Char} (h : t ∈ keptTexts cs) : Stands t := by
  obtain ⟨hmem, hkept⟩ := List.mem_filter.1 h
  obtain ⟨piece, hpiece, rfl⟩ := List.mem_map.1 hmem
  exact ⟨trim_trim piece, pieces_trim (pieces_of_mem cs piece hpiece), hkept⟩

theorem keptTexts_append (h : Stands t) (hopen : endsOpen t = false) (rest : List Char) :
    keptTexts (t ++ ';' :: rest) = t :: keptTexts rest := by
  rw [keptTexts, pieces_append hopen h.whole, List.map_cons, h.trimmed,
    List.filter_cons_of_pos h.kept, keptTexts]

/-- A statement that ends inside a run is not the first of what it becomes. -/
theorem keptTexts_append_of_open (h : Stands t) (hopen : endsOpen t = true) {rest : List Char}
    (hink : inkOfAll texts = ink rest) : keptTexts (t ++ ';' :: rest) ≠ t :: texts := by
  obtain ⟨more, others, hp⟩ := pieces_append_of_open hopen h.whole rest
  have hall := inkOfAll_pieces (t ++ ';' :: rest)
  rw [hp, inkOfAll_cons] at hall
  simp only [ink_append, ink_semicolon] at hall
  rw [keptTexts, hp, List.map_cons]
  intro heq
  -- kept, the first piece has too much ink to be `t`; dropped, it leaves too little for all texts
  cases hkept : isKept (trim (t ++ ';' :: more)) with
  | true =>
    rw [List.filter_cons_of_pos hkept] at heq
    have hfirst := congrArg ink (List.cons.inj heq).1
    rw [ink_trim, ink_append, ink_semicolon] at hfirst
    omega
  | false =>
    rw [List.filter_cons_of_neg (by simp [hkept])] at heq
    have hle := inkOfAll_filter_le others
    rw [heq, inkOfAll_cons] at hle
    omega

theorem keptTexts_newline (cs : List Char) : keptTexts ('\n' :: cs) = keptTexts cs := by
  obtain ⟨piece, others, h⟩ := List.exists_cons_of_ne_nil (pieces_ne_nil cs)
  have hb : isBlank '\n' = true := isBlank_iff.2 (by decide)
  have hp : pieces ('\n' :: cs) = ('\n' :: piece) :: others := by
    rw [pieces_head (by decide), head_of_blank hb, List.drop_zero, h]
    rfl
  rw [keptTexts, hp, keptTexts, h, List.map_cons, trim_cons_of_blank hb, List.map_cons]

theorem joined_cons (t : List Char) (texts : List (List Char)) :
    ∃ rest, joined (t :: texts) = t ++ ';' :: rest ∧ keptTexts rest = keptTexts (joined texts) ∧
      ink rest = ink (joined texts) := by
  cases texts with
  | nil => exact ⟨[], by simp [joined], rfl, rfl⟩
  | cons u texts =>
    refine ⟨'\n' :: joined (u :: texts), by simp [joined], keptTexts_newline _, ?_⟩
    have hb : isBlank '\n' = true := isBlank_iff.2 (by decide)
    simp [ink, hb]

theorem ink_joined (texts : List (List Char)) : ink (joined texts) = inkOfAll texts := by
  induction texts with
  | nil => rfl
  | cons t texts ih =>
    obtain ⟨rest, hjoined, -, hink⟩ := joined_cons t texts
    rw [hjoined, ink_append, ink_semicolon, hink, ih, inkOfAll_cons]
    omega

theorem keptTexts_joined_iff (h : ∀ t ∈ texts, Stands t) :
    keptTexts (joined texts) = texts ↔ ∀ t ∈ texts, endsOpen t = false := by
  induction texts with
  | nil => simp [joined, keptTexts, pieces_nil, isKept, trim, trimEnd]
  | cons t texts ih =>
    obtain ⟨ht, htexts⟩ := List.forall_mem_cons.1 h
    obtain ⟨rest, hjoined, hkept, hink⟩ := joined_cons t texts
    rw [hjoined, List.forall_mem_cons]
    cases hopen : endsOpen t with
    | false => simp [keptTexts_append ht hopen, hkept, ih htexts]
    | true =>
      have hne := keptTexts_append_of_open ht hopen (hink.trans (ink_joined texts)).symm
      simp [hne]

/-- Splitting again what splitting has made changes nothing exactly when each kept statement ends
outside quotes and comments. -/
theorem splitStatements_join_iff (source : String) :
    splitStatements ("\n".intercalate (splitStatements source)) = splitStatements source ↔
      ∀ s ∈ split source, classify (tokenize s.text) = .keep → endsOpen s.text.toList = false := by
  have hinj : Function.Injective fun t => String.ofList (t ++ [';']) := fun t t' h => by
    simpa using congrArg String.toList h
  rw [splitStatements_eq ("\n".intercalate _), toList_joined, splitStatements_eq source,
    (List.map_injective_iff.2 hinj).eq_iff,
    keptTexts_joined_iff fun _ => stands_of_mem_keptTexts, keptTexts_eq, List.forall_mem_map]
  simp

/-- A comment to the end of the text takes the semicolon behind it. -/
theorem splitStatements_join_of_comment :
    splitStatements "a -- c" = ["a -- c;"] ∧
      splitStatements ("\n".intercalate (splitStatements "a -- c")) = ["a -- c;;"] := by
  decide +kernel

end Joined

end TypedTables.Statement
