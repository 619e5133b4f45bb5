import TypedTables.Proofs.Token.Run

/-!
The lexeme at the head of a text. It is the same whatever follows a separator, unless it is a run
that is still open; and a number or a word holds nothing that could start a run or end a statement.
-/

namespace TypedTables.Lexeme

variable {c s : Char} {cs : List Char}

theorem isWordPart_of_separates (h : separates s = true) : isWordPart s = false := by
  obtain hs | hs := List.mem_append.1 (separates_iff.1 h)
  · have all : separators.all (!isWordPart ·) = true := by decide
    simpa using List.all_eq_true.1 all s hs
  · rw [← Bool.not_eq_true, isWordPart, Bool.or_eq_true, beq_iff_eq]
    rintro (ha | rfl)
    · exact Text.isBlank_eq_false_iff.1 (Text.isBlank_of_isAlphanumeric ha) hs
    · exact absurd hs (by decide)

theorem takeWhile_append_stop {p : Char → Bool} (h : p s = false) (cs rest : List Char) :
    (cs ++ s :: rest).takeWhile p = cs.takeWhile p := by
  induction cs with
  | nil => simp [h]
  | cons c cs ih => by_cases hc : p c <;> simp [hc, ih]

section Number

/-- Characters that no number goes on with. -/
def endsNumber (c : Char) : Bool := !(c.isDigit || ['.', 'e', 'E', '+', '-'].contains c)

theorem endsNumber_of_separates (h : separates s = true) : endsNumber s = true := by
  have all : (separators ++ Text.blanks).all endsNumber = true := by decide
  exact List.all_eq_true.1 all s (separates_iff.1 h)

theorem endsNumber_iff :
    endsNumber s = true ↔ s.isDigit = false ∧ s ∉ ['.', 'e', 'E', '+', '-'] := by
  simp [endsNumber]

theorem digitsLength_append (hs : endsNumber s = true) (cs rest : List Char) :
    digitsLength (cs ++ s :: rest) = digitsLength cs := by
  rw [digitsLength, takeWhile_append_stop (endsNumber_iff.1 hs).1, digitsLength]

theorem digitsLength_le (cs : List Char) : digitsLength cs ≤ cs.length :=
  (List.takeWhile_sublist _).length_le

theorem digitsLength_take {n : Nat} {cs : List Char} (h : digitsLength cs ≤ n) :
    digitsLength (cs.take n) = digitsLength cs := by
  rw [digitsLength, ← List.take_takeWhile, List.take_of_length_le h, digitsLength]

theorem fractionLength_le (cs : List Char) : fractionLength cs ≤ cs.length := by
  fun_cases fractionLength cs with
  | case1 d rest h => simpa using digitsLength_le rest
  | case2 d rest h => exact Nat.zero_le _
  | case3 cs h => exact Nat.zero_le _

theorem fractionLength_append (hs : endsNumber s = true) (cs rest : List Char) :
    fractionLength (cs ++ s :: rest) = fractionLength cs := by
  obtain ⟨hd, hn⟩ := endsNumber_iff.1 hs
  have hp : s ≠ '.' := fun h => hn (by simp [h])
  match cs with
  | [] => simp [fractionLength, hp]
  | [c] => by_cases hc : c = '.' <;> simp [fractionLength, hc, hd]
  | c :: d :: cs => by_cases hc : c = '.' <;> simp [fractionLength, hc, digitsLength_append hs]

theorem fractionLength_take {n : Nat} {cs : List Char} (h : fractionLength cs ≤ n) :
    fractionLength (cs.take n) = fractionLength cs := by
  match cs, n with
  | [], n => rw [List.take_nil]
  | _ :: _, 0 => exact (Nat.le_zero.1 h).symm
  | [c], n + 1 => simp
  | c :: d :: cs, 1 =>
    by_cases hc : c = '.' <;> by_cases hd : d.isDigit <;> simp_all [fractionLength]
  | c :: d :: cs, n + 2 =>
    by_cases hc : c = '.' <;> by_cases hd : d.isDigit <;>
      simp_all [fractionLength, digitsLength_take]

theorem exponentLength_le (cs : List Char) : exponentLength cs ≤ cs.length := by
  fun_cases exponentLength cs with
  | case1 e he a b cs h => have := digitsLength_le (b :: cs); simp_all
  | case2 e he a b cs h h' => have := digitsLength_le cs; simp_all
  | case4 e he d h => simp
  | _ => exact Nat.zero_le _

theorem exponentLength_append (hs : endsNumber s = true) (cs rest : List Char) :
    exponentLength (cs ++ s :: rest) = exponentLength cs := by
  obtain ⟨hd, hn⟩ := endsNumber_iff.1 hs
  simp only [List.mem_cons, List.not_mem_nil, or_false, not_or] at hn
  obtain ⟨-, hl, hu, hp, hm⟩ := hn
  match cs with
  | [] => simp [exponentLength, hl, hu]
  | [e] => cases rest <;> simp [exponentLength, hd, hp, hm]
  | [e, d] => simp [exponentLength, digitsLength, hd]
  | e :: a :: b :: cs =>
    have h₁ := digitsLength_append hs (b :: cs) rest
    simp [exponentLength, digitsLength_append hs cs rest, ← h₁]

theorem exponentLength_unsigned {e d : Char} (he : (e = 'e' || e = 'E') = true)
    (hd : d.isDigit = true) (cs : List Char) :
    exponentLength (e :: d :: cs) = digitsLength cs + 2 := by
  cases cs <;> simp [exponentLength, digitsLength, he, hd]

theorem exponentLength_take (cs : List Char) :
    exponentLength (cs.take (exponentLength cs)) = exponentLength cs := by
  fun_cases exponentLength cs with
  | case1 e he a b cs ha =>
    rw [List.take_succ_cons, List.take_succ_cons, exponentLength_unsigned he ha,
      digitsLength_take (Nat.le_refl _)]
  | case2 e he a b cs ha hs =>
    simp [exponentLength, he, ha, hs, digitsLength_take]
  | case4 e he d hd => exact exponentLength_unsigned he hd []
  | _ => rfl

theorem numberLength_append (hs : endsNumber s = true) (cs rest : List Char) :
    numberLength (cs ++ s :: rest) = numberLength cs := by
  have h₁ := digitsLength_le cs
  have h₂ := fractionLength_le (cs.drop (digitsLength cs))
  rw [List.length_drop] at h₂
  simp only [numberLength, digitsLength_append hs]
  rw [List.drop_append_of_le_length h₁, fractionLength_append hs,
    List.drop_append_of_le_length (by omega), exponentLength_append hs]

theorem numberLength_le (cs : List Char) : numberLength cs ≤ cs.length := by
  have h₁ := digitsLength_le cs
  have h₂ := fractionLength_le (cs.drop (digitsLength cs))
  have h₃ := exponentLength_le
    (cs.drop (digitsLength cs + fractionLength (cs.drop (digitsLength cs))))
  simp only [List.length_drop] at h₂ h₃
  simp only [numberLength]
  omega

/-- A number stays as it is without what is behind it. -/
theorem numberLength_take (cs : List Char) :
    numberLength (cs.take (numberLength cs)) = numberLength cs := by
  have hd : digitsLength (cs.take (numberLength cs)) = digitsLength cs :=
    digitsLength_take (by simp only [numberLength]; omega)
  have hf : fractionLength ((cs.take (numberLength cs)).drop (digitsLength cs)) =
      fractionLength (cs.drop (digitsLength cs)) := by
    rw [List.drop_take]
    exact fractionLength_take (by simp only [numberLength]; omega)
  have he : (cs.take (numberLength cs)).drop (digitsLength cs +
      fractionLength (cs.drop (digitsLength cs))) =
      (cs.drop (digitsLength cs + fractionLength (cs.drop (digitsLength cs)))).take
        (exponentLength (cs.drop (digitsLength cs + fractionLength (cs.drop (digitsLength cs))))) := by
    rw [List.drop_take]
    congr 1
    simp only [numberLength]
    omega
  conv_lhs => rw [numberLength]
  simp only [hd, hf, he, exponentLength_take]
  rfl

end Number

theorem wordLength_append (hs : separates s = true) (cs rest : List Char) :
    wordLength (cs ++ s :: rest) = wordLength cs := by
  rw [wordLength, takeWhile_append_stop (isWordPart_of_separates hs), wordLength]

theorem wordLength_le (cs : List Char) : wordLength cs ≤ cs.length :=
  (List.takeWhile_sublist _).length_le

section Head

/-- What a quoted run becomes. -/
def quoteKind (quote : Char) : TokenKind := if quote = singleQuote then .string else .quotedIdentifier

theorem head_of_quote (h : isQuote c = true) :
    head c cs = (.quoted (quoteKind c) c, Statement.runLength c cs) := by
  have hb : Text.isBlank c = false := by
    obtain rfl | rfl | rfl := isQuote_iff.1 h <;> exact Text.isBlank_eq_false_iff.2 (by decide)
  obtain rfl | rfl | rfl := isQuote_iff.1 h <;> simp only [head, hb] <;> rfl

theorem head_of_comment {n : Nat} (h : commentLength? c cs = some n) : head c cs = (.gap, n) := by
  have hb : Text.isBlank c = false := by
    fun_cases commentLength? c cs with
    | case1 | case2 | case3 => exact Text.isBlank_eq_false_iff.2 (by decide)
    | case4 c cs h₁ h₂ h₃ =>
      rw [commentLength?] at h
      · contradiction
      all_goals assumption
  rw [head, hb, h]
  rfl

theorem head_of_plain (hq : isQuote c = false) (h : commentLength? c cs = none) :
    head c cs =
      if Text.isBlank c then (.gap, 0)
      else if c.isDigit then (.number, numberLength cs)
      else if isWordStart c then (.word, wordLength cs)
      else match symbol? c with
        | some kind => (.symbol kind, 0)
        | none => (.gap, 0) := by
  have hn : ¬ (c = singleQuote ∨ c = doubleQuote ∨ c = backQuote) := by
    rw [← isQuote_iff, hq]
    exact Bool.false_ne_true
  simp only [not_or] at hn
  simp only [head, h, hn, if_false, Bool.or_false, decide_false]
  rfl

theorem head_le (c : Char) (cs : List Char) : (head c cs).2 ≤ cs.length := by
  have hrun := Statement.runLength_le c cs
  cases runStart c cs with
  | quote hq => rwa [head_of_quote hq]
  | hash | dashes | block => rw [head_of_comment rfl]; exact hrun
  | plain hq hc =>
    rw [head_of_plain hq hc]
    split_ifs
    · exact Nat.zero_le _
    · exact numberLength_le cs
    · exact wordLength_le cs
    · split <;> exact Nat.zero_le _

theorem head_append (h : staysOpen c cs = false) (hs : separates s = true) (rest : List Char) :
    head c (cs ++ s :: rest) = head c cs := by
  have hrun := Statement.runLength_append h hs rest
  cases runStart c cs with
  | quote hq => rw [head_of_quote hq, head_of_quote hq, hrun]
  | hash | dashes | block =>
    rw [head_of_comment rfl, head_of_comment rfl]
    exact congrArg (Prod.mk gap) hrun
  | plain hq hc =>
    rw [head_of_plain hq hc, head_of_plain hq (commentLength?_append_of_none hc hs rest),
      numberLength_append (endsNumber_of_separates hs), wordLength_append hs]

theorem head_of_blank (h : Text.isBlank c = true) : head c cs = (.gap, 0) := by
  rw [head, if_pos h]

theorem head_semicolon : head ';' cs = (.symbol .semicolon, 0) := by
  have hb : Text.isBlank ';' = false := Text.isBlank_eq_false_iff.2 (by decide)
  rw [head, hb]
  rfl

end Head

section Plain

/-- A run without a character that ends a statement or starts a quoted run or a comment, whatever
stands around it. -/
def PlainRun : List Char → List Char → Prop
  | [], _ => True
  | c :: run, rest =>
    c ≠ ';' ∧ isQuote c = false ∧ commentLength? c (run ++ rest) = none ∧ PlainRun run rest

theorem plainRun_append {run run' rest : List Char} :
    PlainRun (run ++ run') rest ↔ PlainRun run (run' ++ rest) ∧ PlainRun run' rest := by
  induction run with
  | nil => simp [PlainRun]
  | cons c run ih => simp only [List.cons_append, PlainRun, ih, List.append_assoc, and_assoc]

/-- Characters that end a statement or may start a quoted run or a comment. -/
def marks : List Char := [';', singleQuote, doubleQuote, backQuote, '#', '-', '/']

def isPlain (c : Char) : Bool := !marks.contains c

theorem isPlain_of_all {p : Char → Bool} (all : marks.all (!p ·) = true) (h : p c = true) :
    isPlain c = true := by
  rw [isPlain, Bool.not_eq_true', ← Bool.not_eq_true, List.contains_iff_mem]
  intro hm
  simpa [h] using List.all_eq_true.1 all c hm

/-- A plain character starts no run. -/
theorem not_run_of_isPlain (hc : isPlain c = true) (cs : List Char) :
    c ≠ ';' ∧ isQuote c = false ∧ commentLength? c cs = none := by
  simp only [isPlain, marks, List.contains_cons, List.contains_nil, Bool.or_false, Bool.not_or,
    Bool.and_eq_true, Bool.not_eq_true', beq_eq_false_iff_ne] at hc
  refine ⟨hc.1, by simp [isQuote, hc], ?_⟩
  rw [commentLength?]
  · exact hc.2.2.2.2.1
  · exact fun _ h => absurd h hc.2.2.2.2.2.1
  · exact fun _ h => absurd h hc.2.2.2.2.2.2

theorem plainRun_cons {run rest : List Char} (hc : isPlain c = true) :
    PlainRun (c :: run) rest ↔ PlainRun run rest := by
  obtain ⟨hs, hq, hn⟩ := not_run_of_isPlain hc (run ++ rest)
  simp [PlainRun, hs, hq, hn]

theorem plainRun_of_forall {run : List Char} (h : ∀ c ∈ run, isPlain c = true) (rest : List Char) :
    PlainRun run rest := by
  induction run with
  | nil => trivial
  | cons c run ih =>
    rw [plainRun_cons (h c List.mem_cons_self)]
    exact ih fun d hd => h d (List.mem_cons_of_mem c hd)

theorem isPlain_of_isDigit (h : c.isDigit = true) : isPlain c = true :=
  isPlain_of_all (p := Char.isDigit) (by decide) h

theorem isPlain_of_isWordPart (h : isWordPart c = true) : isPlain c = true :=
  isPlain_of_all (p := isWordPart) (by decide) h

theorem take_takeWhile (p : Char → Bool) (cs : List Char) :
    cs.take (cs.takeWhile p).length = cs.takeWhile p :=
  (List.prefix_iff_eq_take.1 (List.takeWhile_prefix p)).symm

theorem plainRun_digits (cs rest : List Char) : PlainRun (cs.take (digitsLength cs)) rest := by
  rw [digitsLength, take_takeWhile]
  exact plainRun_of_forall (fun c hc => isPlain_of_isDigit (List.mem_takeWhile_imp hc)) rest

theorem plainRun_word (cs rest : List Char) : PlainRun (cs.take (wordLength cs)) rest := by
  rw [wordLength, take_takeWhile]
  exact plainRun_of_forall (fun c hc => isPlain_of_isWordPart (List.mem_takeWhile_imp hc)) rest

theorem plainRun_fraction (cs rest : List Char) : PlainRun (cs.take (fractionLength cs)) rest := by
  fun_cases fractionLength cs with
  | case1 d cs h =>
    rw [List.take_succ_cons, List.take_succ_cons, plainRun_cons (by decide),
      plainRun_cons (isPlain_of_isDigit h)]
    exact plainRun_digits cs rest
  | case2 | case3 => exact trivial

/-- A minus that a digit follows starts no comment. -/
theorem plainRun_minus {d : Char} (hd : d.isDigit = true) (cs rest : List Char) :
    PlainRun ('-' :: d :: cs.take (digitsLength cs)) rest := by
  have hm : d ≠ '-' := by
    rintro rfl
    contradiction
  refine ⟨by decide, by decide, ?_, ?_⟩
  · simp [commentLength?, hm]
  · rw [plainRun_cons (isPlain_of_isDigit hd)]
    exact plainRun_digits cs rest

theorem plainRun_exponent (cs rest : List Char) : PlainRun (cs.take (exponentLength cs)) rest := by
  have isPlain_letter {e : Char} (he : (e = 'e' || e = 'E') = true) : isPlain e = true := by
    obtain rfl | rfl : e = 'e' ∨ e = 'E' := by simpa using he
    all_goals decide
  fun_cases exponentLength cs with
  | case1 e he a b cs ha =>
    rw [List.take_succ_cons, List.take_succ_cons, plainRun_cons (isPlain_letter he),
      plainRun_cons (isPlain_of_isDigit ha)]
    exact plainRun_digits (b :: cs) rest
  | case2 e he a b cs ha hs =>
    obtain ⟨hs, hb⟩ : (a = '+' ∨ a = '-') ∧ b.isDigit = true := by simpa using hs
    rw [List.take_succ_cons, List.take_succ_cons, List.take_succ_cons,
      plainRun_cons (isPlain_letter he)]
    obtain rfl | rfl := hs
    · rw [plainRun_cons (by decide), plainRun_cons (isPlain_of_isDigit hb)]
      exact plainRun_digits cs rest
    · exact plainRun_minus hb cs rest
  | case4 e he d hd =>
    rw [List.take_succ_cons, List.take_succ_cons, plainRun_cons (isPlain_letter he),
      plainRun_cons (isPlain_of_isDigit hd)]
    trivial
  | _ => exact trivial

theorem plainRun_number (cs rest : List Char) : PlainRun (cs.take (numberLength cs)) rest := by
  rw [numberLength, List.take_add, List.take_add, plainRun_append, plainRun_append]
  exact ⟨⟨plainRun_digits _ _, plainRun_fraction _ _⟩, plainRun_exponent _ _⟩

/-- What a lexeme takes that is neither a quoted run nor a comment. -/
theorem plainRun_head (hq : isQuote c = false) (hc : commentLength? c cs = none) (rest : List Char) :
    PlainRun (cs.take (head c cs).2) rest := by
  rw [head_of_plain hq hc]
  split_ifs
  · trivial
  · exact plainRun_number cs rest
  · exact plainRun_word cs rest
  · split <;> trivial

end Plain

end TypedTables.Lexeme
