import TypedTables.Proofs.Token.Content
import TypedTables.Proofs.Token.Place

/-!
Parts of a text. A text that has been read up to the beginning of a word may end there, or go on with
another word, and is read alike; so it falls into parts wherever such a word begins.
-/

namespace TypedTables

open Lexeme

namespace Lexeme

variable {c d w : Char} {cs rest behind : List Char}

/-- Letters that start a word and that no number goes on with. -/
def startsWord (c : Char) : Bool := isWordStart c && c != 'e' && c != 'E'

theorem isWordStart_of_startsWord (h : startsWord c = true) : isWordStart c = true :=
  (Bool.and_elim_left (Bool.and_elim_left h))

theorem ne_of_startsWord (h : startsWord w = true) (hc : startsWord c = false) : w ≠ c := by
  rintro rfl
  rw [h] at hc
  contradiction

theorem ne_of_startsWord_of_isQuote (h : startsWord w = true) (hc : isQuote c = true) : w ≠ c := by
  obtain rfl | rfl | rfl := isQuote_iff.1 hc <;> exact ne_of_startsWord h (by decide)

theorem endsNumber_of_startsWord (h : startsWord w = true) : endsNumber w = true := by
  have all : ['.', 'e', 'E', '+', '-'].all (!startsWord ·) = true := by decide
  refine endsNumber_iff.2 ⟨isDigit_of_isWordStart (isWordStart_of_startsWord h), fun hm => ?_⟩
  simpa [h] using List.all_eq_true.1 all w hm

/-- What may stand behind a text that has been read up to the beginning of a word: a word, or
nothing. -/
def AtWord (rest : List Char) : Prop := ∀ d ∈ rest.head?, startsWord d = true

theorem atWord_nil : AtWord [] := nofun

theorem atWord_cons (h : startsWord w = true) : AtWord (w :: rest) := fun _ hd => by
  cases hd
  exact h

section Head

variable (hw : startsWord w = true)

theorem quotedLength_atWord (hrest : AtWord rest) (hq : isQuote c = true)
    (h : quotedLength c (cs ++ w :: behind) ≤ cs.length) :
    quotedLength c (cs ++ rest) = quotedLength c cs := by
  have hcloses : quoteCloses c cs = true := by
    rw [← Bool.not_eq_false]
    exact fun hopen => absurd (lt_quotedLength_append hopen w behind) (Nat.not_lt.2 h)
  cases rest with
  | nil => rw [List.append_nil]
  | cons d rest =>
    exact quotedLength_append (ne_backslash_of_isQuote hq)
      (ne_of_startsWord_of_isQuote (hrest d rfl) hq) hcloses rest

theorem commentLength?_atWord (hrest : AtWord rest)
    (h : commentLength? c (cs ++ w :: behind) = none) :
    commentLength? c (cs ++ rest) = none := by
  have hcomment : c ≠ '#' ∧ (∀ tail, c = '-' → cs ++ rest = '-' :: tail → False) ∧
      ∀ tail, c = '/' → cs ++ rest = '*' :: tail → False := by
    cases cs with
    | nil =>
      have hne (d : Char) (hd : startsWord d = false) (tail : List Char) : rest ≠ d :: tail := by
        rintro rfl
        exact ne_of_startsWord (hrest d rfl) hd rfl
      refine ⟨?_, fun tail _ => hne '-' (by decide) tail,
        fun tail _ => hne '*' (by decide) tail⟩
      rintro rfl
      contradiction
    | cons d cs =>
      refine ⟨?_, ?_, ?_⟩
      · rintro rfl
        contradiction
      · rintro tail rfl heq
        cases heq
        contradiction
      · rintro tail rfl heq
        cases heq
        contradiction
  rw [commentLength?]
  exacts [hcomment.1, hcomment.2.1, hcomment.2.2]

include hw

theorem lineLength_atWord (h : lineLength (cs ++ w :: behind) ≤ cs.length) (rest : List Char) :
    lineLength (cs ++ rest) = lineLength cs := by
  refine lineLength_append ?_ rest
  by_contra hmem
  have hne : w ≠ '\n' := ne_of_startsWord hw (by decide)
  rw [lineLength_append_of_open hmem, lineLength, List.takeWhile_cons,
    if_pos (by simpa using hne), List.length_cons] at h
  omega

theorem blockLength_atWord (h : blockLength (cs ++ w :: behind) ≤ cs.length) (rest : List Char) :
    blockLength (cs ++ rest) = blockLength cs := by
  refine blockLength_append ?_ rest
  have hne : w ≠ '/' := ne_of_startsWord hw (by decide)
  rw [← Bool.not_eq_false]
  exact fun hopen => absurd (lt_blockLength_append hopen hne behind) (Nat.not_lt.2 h)

theorem numberLength_atWord (hrest : AtWord rest) :
    numberLength (cs ++ rest) = numberLength (cs ++ w :: behind) := by
  rw [numberLength_append (endsNumber_of_startsWord hw)]
  cases rest with
  | nil => rw [List.append_nil]
  | cons d rest => exact numberLength_append (endsNumber_of_startsWord (hrest d rfl)) cs rest

theorem wordLength_atWord (h : wordLength (cs ++ w :: behind) ≤ cs.length) (rest : List Char) :
    wordLength (cs ++ rest) = wordLength cs := by
  have hpart : isWordPart w = true := isWordPart_of_isWordStart (isWordStart_of_startsWord hw)
  obtain ⟨d, hd, hstop⟩ : ∃ d ∈ cs, isWordPart d = false := by
    by_contra hall
    have hall : ∀ d ∈ cs, isWordPart d = true := by simpa using hall
    rw [wordLength, List.takeWhile_append_of_pos hall, List.takeWhile_cons, if_pos hpart,
      List.length_append, List.length_cons] at h
    omega
  obtain ⟨before, after, rfl⟩ := List.append_of_mem hd
  rw [List.append_assoc, List.cons_append, wordLength, wordLength, takeWhile_append_stop hstop,
    takeWhile_append_stop hstop]

/-- The lexeme at the head of a text that has been read up to the beginning of a word. -/
theorem head_atWord (hrest : AtWord rest)
    (h : (head c (cs ++ w :: behind)).2 ≤ cs.length) :
    head c (cs ++ rest) = head c (cs ++ w :: behind) := by
  generalize htext : cs ++ w :: behind = text at h ⊢
  cases runStart c text with
  | quote hq =>
    subst htext
    rw [head_of_quote hq] at h ⊢
    rw [head_of_quote hq]
    rw [Statement.runLength_of_quote hq] at h ⊢
    rw [Statement.runLength_of_quote hq, quotedLength_atWord hrest hq h,
      quotedLength_atWord (atWord_cons hw) hq h]
  | hash =>
    subst htext
    rw [head_of_comment rfl] at h ⊢
    rw [head_of_comment rfl, lineLength_atWord hw h, lineLength_atWord hw h]
  | @dashes tail =>
    cases cs with
    | nil => exact absurd (List.cons.inj htext).1 (ne_of_startsWord hw (by decide))
    | cons d cs =>
      obtain ⟨rfl, rfl⟩ := List.cons.inj htext
      rw [head_of_comment rfl] at h
      have hlength : lineLength ('-' :: cs ++ rest) = lineLength ('-' :: cs ++ w :: behind) := by
        rw [lineLength_atWord hw h, lineLength_atWord hw h]
      have hcomment : commentLength? '-' ('-' :: cs ++ rest) =
          some (lineLength ('-' :: cs ++ rest)) := rfl
      rw [head_of_comment hcomment, hlength]
      exact (head_of_comment rfl).symm
  | @block tail =>
    cases cs with
    | nil => exact absurd (List.cons.inj htext).1 (ne_of_startsWord hw (by decide))
    | cons d cs =>
      obtain ⟨rfl, rfl⟩ := List.cons.inj htext
      rw [head_of_comment rfl] at h
      have h : blockLength (cs ++ w :: behind) ≤ cs.length := Nat.le_of_succ_le_succ h
      have hlength : blockLength (cs ++ rest) = blockLength (cs ++ w :: behind) := by
        rw [blockLength_atWord hw h, blockLength_atWord hw h]
      have hcomment : commentLength? '/' ('*' :: cs ++ rest) =
          some (blockLength (cs ++ rest) + 1) := rfl
      rw [head_of_comment hcomment, hlength]
      exact (head_of_comment rfl).symm
  | plain hq hc =>
    subst htext
    rw [head_of_plain hq hc] at h ⊢
    rw [head_of_plain hq (commentLength?_atWord hrest hc), numberLength_atWord hw hrest]
    split_ifs with hblank hdigit hword
    · rfl
    · rfl
    · rw [if_neg hblank, if_neg hdigit, if_pos hword] at h
      rw [wordLength_atWord hw h, wordLength_atWord hw h]
    · rfl

end Head

section Keyword

variable {word text : String} {k : Keyword}

theorem upper_of_wordKind (h : wordKind word = .keyword k) : Text.upper word = k.text := by
  unfold wordKind at h
  split at h
  · next k' hk =>
    cases h
    have hfound := List.find?_some hk
    exact (beq_iff_eq.1 hfound).symm
  · contradiction

theorem startsWord_of_wordKind (hc : isWordStart c = true)
    (h : wordKind (String.ofList (c :: cs)) = .keyword k) (hk : k.text.toList.head? ≠ some 'E') :
    startsWord c = true := by
  rw [← upper_of_wordKind h, Text.upper, String.toList_ofList, String.toList_ofList] at hk
  have he : c ≠ 'e' := by
    rintro rfl
    exact hk rfl
  have hupper : c ≠ 'E' := by
    rintro rfl
    exact hk rfl
  simp [startsWord, hc, he, hupper]

/-- A keyword starts a word. -/
theorem startsWord_of_token?
    (h : (head c cs).1.token? c (cs.take (head c cs).2) = some (.keyword k, text))
    (hk : k.text.toList.head? ≠ some 'E') : startsWord c = true := by
  cases runStart c cs with
  | quote hq =>
    rw [head_of_quote hq, quoteKind] at h
    split_ifs at h <;> cases h
  | hash | dashes | block =>
    rw [head_of_comment rfl] at h
    contradiction
  | plain hq hn =>
    rw [head_of_plain hq hn] at h
    split_ifs at h with hblank hdigit hword
    · contradiction
    · cases h
    · exact startsWord_of_wordKind hword (Prod.mk.inj (Option.some.inj h)).1 hk
    · cases hs : symbol? c with
      | none => simp [hs, token?] at h
      | some kind =>
        have hkind : kind = .keyword k := by
          rw [hs] at h
          exact (Prod.mk.inj (Option.some.inj h)).1
        rw [hkind] at hs
        unfold symbol? at hs
        split at hs <;> cases hs

end Keyword

end Lexeme

section Whole

variable {here : Location} {w : Char} {cs rest behind : List Char} {us : List Token} {t : Token}

/-- With `rest` behind it, a text is made of whole lexemes. -/
inductive Whole : (cs rest : List Char) → Prop
  | nil {rest : List Char} : Whole [] rest
  | cons {c : Char} {run cs rest : List Char} : (head c (run ++ (cs ++ rest))).2 = run.length →
      Whole cs rest → Whole (c :: (run ++ cs)) rest

/-- The token that the lexeme at `here` makes, given its characters and those behind it. -/
def lexemeToken? (here : Location) (c : Char) (cs : List Char) : Option Token :=
  let run := cs.take (head c cs).2
  ((head c cs).1.token? c run).map fun (kind, text) =>
    ⟨kind, text, here.spanTo (here.advance (c :: run))⟩

theorem lexFrom_done (here : Location) (done : List Token) : (cs : List Char) →
    lexFrom here done cs = done.reverse ++ lexFrom here [] cs
  | [] => by simp [lexFrom]
  | c :: cs => by
    rw [lexFrom_cons, lexFrom_cons, lexFrom_done _ _ (cs.drop _)]
    conv_rhs => rw [lexFrom_done _ _ (cs.drop _)]
    simp
  termination_by cs => cs.length
  decreasing_by all_goals simp only [List.length_drop, List.length_cons]; omega

theorem lexFrom_nil_cons (here : Location) (c : Char) (cs : List Char) :
    lexFrom here [] (c :: cs) = (lexemeToken? here c cs).toList ++
      lexFrom (here.advance (c :: cs.take (head c cs).2)) [] (cs.drop (head c cs).2) := by
  rw [lexFrom_cons, lexFrom_done, List.append_nil]
  congr 1
  rw [lexemeToken?]
  cases (head c cs).1.token? c (cs.take (head c cs).2) <;> rfl

/-- A text made of whole lexemes before a word is read part by part, whatever word comes then. -/
theorem Whole.lexFrom_append (h : Whole cs (w :: behind)) (hw : startsWord w = true)
    (hrest : AtWord rest) (here : Location) :
    lexFrom here [] (cs ++ rest) = lexFrom here [] cs ++ lexFrom (here.advance cs) [] rest := by
  generalize hbehind : w :: behind = text at h
  induction h generalizing here with
  | nil => simp [lexFrom, Location.advance, Location.after]
  | @cons c run cs text hrun h ih =>
    subst hbehind
    have hle : (head c (run ++ cs ++ w :: behind)).2 ≤ (run ++ cs).length := by
      rw [List.append_assoc, hrun, List.length_append]
      exact Nat.le_add_right _ _
    have hhead : head c (run ++ cs ++ rest) = head c (run ++ (cs ++ w :: behind)) := by
      rw [head_atWord hw hrest hle, List.append_assoc]
    have halone : head c (run ++ cs) = head c (run ++ (cs ++ w :: behind)) := by
      rw [← List.append_nil (run ++ cs), head_atWord hw atWord_nil hle, List.append_assoc]
    have htoken : lexemeToken? here c (run ++ cs ++ rest) = lexemeToken? here c (run ++ cs) := by
      rw [lexemeToken?, lexemeToken?, hhead, halone, hrun, List.append_assoc, List.take_left,
        List.take_left]
    rw [List.cons_append, lexFrom_nil_cons, lexFrom_nil_cons, htoken, hhead, halone, hrun,
      List.append_assoc, List.take_left, List.drop_left, List.take_left, List.drop_left, ih _ rfl,
      List.append_assoc, ← List.cons_append, Location.advance_append]

/-- Behind whole lexemes starts the one that a token is made of. -/
theorem exists_whole (here : Location) (ts : List Token) : (cs : List Char) →
    lexFrom here [] cs = ts ++ t :: us →
    ∃ front c rest, cs = front ++ c :: rest ∧ Whole front (c :: rest) ∧
      lexFrom (here.advance front) [] (c :: rest) = t :: us ∧
      (head c rest).1.token? c (rest.take (head c rest).2) = some t.content
  | [], h => by simp [lexFrom] at h
  | c :: cs, h => by
    have hcons := h
    rw [lexFrom_nil_cons] at hcons
    have hcases : lexemeToken? here c cs = some t ∧ ts = [] ∨
        ∃ ts, lexFrom (here.advance (c :: cs.take (head c cs).2)) [] (cs.drop (head c cs).2) =
          ts ++ t :: us := by
      cases htoken : lexemeToken? here c cs with
      | none => exact .inr ⟨ts, by simpa [htoken] using hcons⟩
      | some token =>
        rw [htoken] at hcons
        cases ts with
        | nil => exact .inl ⟨congrArg some (List.cons.inj hcons).1, rfl⟩
        | cons u ts => exact .inr ⟨ts, (List.cons.inj hcons).2⟩
    obtain ⟨htoken, rfl⟩ | ⟨ts, hrest⟩ := hcases
    · obtain ⟨_, hcontent, rfl⟩ := Option.map_eq_some_iff.1 htoken
      exact ⟨[], c, cs, rfl, .nil, h, hcontent⟩
    · obtain ⟨front, d, rest, heq, hwhole, hlex, hd⟩ := exists_whole _ ts (cs.drop _) hrest
      refine ⟨c :: (cs.take (head c cs).2 ++ front), d, rest, ?_, .cons ?_ hwhole, ?_, hd⟩
      · rw [List.cons_append, List.append_assoc, ← heq, List.take_append_drop]
      · rw [← heq, List.take_append_drop, List.length_take, Nat.min_eq_left (head_le c cs)]
      · rw [← List.cons_append, Location.advance_append, hlex]
  termination_by cs => cs.length
  decreasing_by all_goals simp only [List.length_drop, List.length_cons]; omega

/-- A text falls into two where a keyword begins, and the first part is read alike whatever word
stands behind it. -/
theorem exists_parts {ts us : List Token} (hlex : lexFrom here [] cs = ts ++ t :: us) {k : Keyword}
    (ht : t.kind = .keyword k) (hk : k.text.toList.head? ≠ some 'E') :
    ∃ front back, cs = front ++ back ∧ AtWord back ∧ lexFrom here [] front = ts ∧
      lexFrom (here.advance front) [] back = t :: us ∧
      ∀ rest, AtWord rest →
        lexFrom here [] (front ++ rest) = ts ++ lexFrom (here.advance front) [] rest := by
  obtain ⟨front, c, behind, rfl, hwhole, hback, hcontent⟩ := exists_whole here ts cs hlex
  rw [Token.content, ht] at hcontent
  have hc : startsWord c = true := startsWord_of_token? hcontent hk
  have happend (rest : List Char) (hrest : AtWord rest) :=
    hwhole.lexFrom_append hc hrest here
  have hfront : lexFrom here [] front = ts := by
    rw [happend _ (atWord_cons hc), hback] at hlex
    exact List.append_cancel_right hlex
  refine ⟨front, c :: behind, rfl, atWord_cons hc, hfront, hback, fun rest hrest => ?_⟩
  rw [happend rest hrest, hfront]

end Whole

end TypedTables
