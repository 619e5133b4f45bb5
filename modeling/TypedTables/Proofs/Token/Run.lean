import Mathlib
import TypedTables.Proofs.Text.Blank
import TypedTables.Statement

/-!
Quoted runs and comments in a text that goes on: a run that is closed stays as it is whatever
follows it, and a run that is still open takes a semicolon behind the text with it.
-/

namespace TypedTables

namespace Lexeme

/-- Whether a quoted run is closed, given the characters behind its opening quote. -/
def quoteCloses (quote : Char) : List Char → Bool
  | [] => false
  | [c] => c == quote
  | c :: d :: rest =>
    if c = '\\' then quoteCloses quote rest
    else if c = quote then
      if d = quote then quoteCloses quote rest else true
    else quoteCloses quote (d :: rest)

/-- Whether a block comment is closed, given the characters behind its opening. -/
def blockCloses : List Char → Bool
  | '*' :: '/' :: _ => true
  | _ :: rest => blockCloses rest
  | [] => false

def isQuote (c : Char) : Bool := c == singleQuote || c == doubleQuote || c == backQuote

/-- Whether the quoted run or comment that starts with `c` is still open where the text ends. -/
def staysOpen (c : Char) (cs : List Char) : Bool :=
  if isQuote c then !quoteCloses c cs
  else match c, cs with
    | '#', cs => !cs.contains '\n'
    | '-', '-' :: cs => !cs.contains '\n'
    | '/', '*' :: cs => !blockCloses cs
    | _, _ => false

section Quoted

variable {quote : Char}

theorem quotedLength_go (n : Nat) (cs : List Char) :
    quotedLength.go quote n cs = quotedLength quote cs + n := by
  have add (k : Nat) : quotedLength.go quote (n + k) cs = quotedLength.go quote k cs + n := by
    fun_induction quotedLength.go quote k cs with
    | case1 k => exact Nat.add_comm n k
    | case2 k c => simp only [quotedLength.go]; omega
    | case3 k d rest ih => rw [quotedLength.go, if_pos rfl, ← ih, Nat.add_assoc]
    | case4 k rest h ih =>
      rw [quotedLength.go, if_neg h, if_pos rfl, if_pos rfl, ← ih, Nat.add_assoc]
    | case5 k d rest h hd => rw [quotedLength.go, if_neg h, if_pos rfl, if_neg hd]; omega
    | case6 k c d rest h hc ih => rw [quotedLength.go, if_neg h, if_neg hc, ← ih, Nat.add_assoc]
  exact add 0

theorem quotedLength_cons_cons (c d : Char) (rest : List Char) :
    quotedLength quote (c :: d :: rest) =
      if c = '\\' then quotedLength quote rest + 2
      else if c = quote then
        if d = quote then quotedLength quote rest + 2 else 1
      else quotedLength quote (d :: rest) + 1 := by
  conv_lhs => rw [quotedLength, quotedLength.go]
  simp only [quotedLength_go, Nat.zero_add]

theorem quotedLength_le (cs : List Char) : quotedLength quote cs ≤ cs.length := by
  induction cs using quoteCloses.induct quote with
  | case1 => exact Nat.zero_le _
  | case2 c => exact Nat.le_refl _
  | case3 d rest ih => simp only [quotedLength_cons_cons, if_true, List.length_cons]; omega
  | case4 rest h ih =>
    simp only [quotedLength_cons_cons, if_neg h, if_true, List.length_cons]; omega
  | case5 d rest h hd => simp [quotedLength_cons_cons, h, hd]
  | case6 c d rest h hc ih =>
    simp only [quotedLength_cons_cons, if_neg h, if_neg hc, List.length_cons] at ih ⊢; omega

theorem quotedLength_append {s : Char} {cs : List Char} (hq : quote ≠ '\\') (hs : s ≠ quote)
    (h : quoteCloses quote cs = true) (rest : List Char) :
    quotedLength quote (cs ++ s :: rest) = quotedLength quote cs := by
  fun_induction quoteCloses quote cs with
  | case1 => contradiction
  | case2 c =>
    obtain rfl : c = quote := by simpa using h
    simp [quotedLength_cons_cons, hq, hs]; rfl
  | case3 d cs ih => simp [quotedLength_cons_cons, ih h]
  | case4 cs hb ih => simp [quotedLength_cons_cons, hb, ih h]
  | case5 d cs hb hd => simp [quotedLength_cons_cons, hb, hd]
  | case6 c d cs hb hc ih => simpa [quotedLength_cons_cons, hb, hc] using ih h

/-- A run that is still open reaches the end, and further if the text goes on. -/
theorem quotedLength_of_open {cs : List Char} (h : quoteCloses quote cs = false) :
    quotedLength quote cs = cs.length := by
  fun_induction quoteCloses quote cs with
  | case1 => rfl
  | case2 c => rfl
  | case3 d cs ih => simp [quotedLength_cons_cons, ih h]
  | case4 cs hb ih => simp [quotedLength_cons_cons, hb, ih h]
  | case5 d cs hb hd => contradiction
  | case6 c d cs hb hc ih => simp [quotedLength_cons_cons, hb, hc, ih h]

theorem quotedLength_pos (c : Char) (cs : List Char) : 0 < quotedLength quote (c :: cs) := by
  cases cs with
  | nil => exact Nat.one_pos
  | cons d rest => rw [quotedLength_cons_cons]; split_ifs <;> omega

theorem lt_quotedLength_append {cs : List Char} (h : quoteCloses quote cs = false) (s : Char)
    (rest : List Char) : cs.length < quotedLength quote (cs ++ s :: rest) := by
  fun_induction quoteCloses quote cs with
  | case1 => exact quotedLength_pos s rest
  | case2 c =>
    have hc : c ≠ quote := by simpa using h
    simp only [List.cons_append, List.nil_append, quotedLength_cons_cons, if_neg hc]
    split
    · simp
    · have := @quotedLength_pos quote s rest
      simpa using this
  | case3 d cs ih => simp [quotedLength_cons_cons, ih h]
  | case4 cs hb ih => simp [quotedLength_cons_cons, hb, ih h]
  | case5 d cs hb hd => contradiction
  | case6 c d cs hb hc ih => simpa [quotedLength_cons_cons, hb, hc] using ih h

theorem quoteCloses_of_not_mem {cs : List Char} (h : quote ∉ cs) : quoteCloses quote cs = false := by
  fun_induction quoteCloses quote cs with
  | case1 => rfl
  | case2 c =>
    have hc : quote ≠ c := by simpa using h
    exact beq_eq_false_iff_ne.2 hc.symm
  | case3 d cs ih => exact ih fun hm => h (by simp [hm])
  | case4 cs hb ih => exact absurd List.mem_cons_self h
  | case5 d cs hb hd => exact absurd List.mem_cons_self h
  | case6 c d cs hb hc ih => exact ih fun hm => h (List.mem_cons_of_mem _ hm)

theorem quoteCloses_append {cs tail : List Char} (h : quoteCloses quote cs = false)
    (ht : quote ∉ tail) : quoteCloses quote (cs ++ tail) = false := by
  fun_induction quoteCloses quote cs with
  | case1 => exact quoteCloses_of_not_mem ht
  | case2 c =>
    have hc : c ≠ quote := by simpa using h
    exact quoteCloses_of_not_mem (by simp [hc.symm, ht])
  | case3 d cs ih => simpa [quoteCloses] using ih h
  | case4 cs hb ih => simpa [quoteCloses, hb] using ih h
  | case5 d cs hb hd => contradiction
  | case6 c d cs hb hc ih => simpa [quoteCloses, hb, hc] using ih h

theorem quoteCloses_append_of_closed {quote s : Char} {cs : List Char} (hq : quote ≠ '\\')
    (hs : s ≠ quote) (h : quoteCloses quote cs = true) (rest : List Char) :
    quoteCloses quote (cs ++ s :: rest) = true := by
  fun_induction quoteCloses quote cs with
  | case1 => contradiction
  | case2 c =>
    obtain rfl : c = quote := by simpa using h
    simp [quoteCloses, hq, hs]
  | case3 d cs ih => simpa [quoteCloses] using ih h
  | case4 cs hb ih => simpa [quoteCloses, hb] using ih h
  | case5 d cs hb hd => simp [quoteCloses, hb, hd]
  | case6 c d cs hb hc ih => simpa [quoteCloses, hb, hc] using ih h

end Quoted

section Comment

theorem lineLength_append {cs : List Char} (h : '\n' ∈ cs) (rest : List Char) :
    lineLength (cs ++ rest) = lineLength cs := by
  induction cs with
  | nil => contradiction
  | cons c cs ih =>
    by_cases hc : c = '\n'
    · simp [lineLength, hc]
    · have hm : '\n' ∈ cs := by simpa [Ne.symm hc] using h
      simpa [lineLength, hc] using ih hm

theorem lineLength_append_of_open {cs : List Char} (h : '\n' ∉ cs) (rest : List Char) :
    lineLength (cs ++ rest) = cs.length + lineLength rest := by
  have hp : ∀ c ∈ cs, (c != '\n') = true := fun c hc => by
    rw [bne_iff_ne]
    rintro rfl
    exact h hc
  rw [lineLength, List.takeWhile_append_of_pos hp, List.length_append, lineLength]

theorem lineLength_le (cs : List Char) : lineLength cs ≤ cs.length :=
  (List.takeWhile_sublist _).length_le

theorem blockLength_go (n : Nat) (cs : List Char) :
    blockLength.go n cs = blockLength cs + n := by
  have add (k : Nat) : blockLength.go (n + k) cs = blockLength.go k cs + n := by
    fun_induction blockLength.go k cs with
    | case1 k rest => simp only [blockLength.go]; omega
    | case2 k c rest h ih => rw [blockLength.go, ← ih, Nat.add_assoc]; exact h
    | case3 k => simp only [blockLength.go]; omega
  exact add 0

theorem blockLength_closing (rest : List Char) : blockLength ('*' :: '/' :: rest) = 2 := rfl

theorem blockLength_cons {c : Char} {rest : List Char}
    (h : ∀ tail, c = '*' → rest = '/' :: tail → False) :
    blockLength (c :: rest) = blockLength rest + 1 := by
  rw [blockLength, blockLength.go, blockLength_go]
  exact h

theorem blockLength_pos (c : Char) (rest : List Char) : 0 < blockLength (c :: rest) := by
  by_cases h : ∃ tail, c = '*' ∧ rest = '/' :: tail
  · obtain ⟨tail, rfl, rfl⟩ := h
    rw [blockLength_closing]
    exact Nat.two_pos
  · rw [blockLength_cons fun tail hc hr => h ⟨tail, hc, hr⟩]
    exact Nat.succ_pos _

theorem blockLength_le (cs : List Char) : blockLength cs ≤ cs.length := by
  fun_induction blockCloses cs with
  | case1 rest => simp [blockLength_closing]
  | case2 c rest h ih => rw [blockLength_cons h]; simpa using ih
  | case3 => exact Nat.le_refl _

theorem blockLength_append {cs : List Char} (h : blockCloses cs = true) (rest : List Char) :
    blockLength (cs ++ rest) = blockLength cs := by
  fun_induction blockCloses cs with
  | case1 cs => rfl
  | case2 c cs hc ih =>
    cases cs with
    | nil => contradiction
    | cons d cs =>
      have hc' (tail : List Char) (hs : c = '*') (he : d :: cs ++ rest = '/' :: tail) : False :=
        hc cs hs (by rw [(List.cons.inj he).1])
      rw [List.cons_append, blockLength_cons hc', blockLength_cons hc, ih h]
  | case3 => contradiction

theorem le_blockLength_append {cs : List Char} (h : blockCloses cs = false) (rest : List Char) :
    cs.length ≤ blockLength (cs ++ rest) := by
  fun_induction blockCloses cs with
  | case1 => contradiction
  | case2 c cs hc ih =>
    cases cs with
    | nil => exact blockLength_pos c rest
    | cons d cs =>
      have hc' (tail : List Char) (hs : c = '*') (he : d :: cs ++ rest = '/' :: tail) : False :=
        hc cs hs (by rw [(List.cons.inj he).1])
      rw [List.cons_append, blockLength_cons hc']
      exact Nat.succ_le_succ (ih h)
  | case3 => exact Nat.zero_le _

theorem lt_blockLength_append {cs : List Char} (h : blockCloses cs = false) {s : Char}
    (hs : s ≠ '/') (rest : List Char) : cs.length < blockLength (cs ++ s :: rest) := by
  fun_induction blockCloses cs with
  | case1 => contradiction
  | case2 c cs hc ih =>
    have hc' (tail : List Char) (hd : c = '*') (he : cs ++ s :: rest = '/' :: tail) : False := by
      cases cs with
      | nil => exact hs (List.cons.inj he).1
      | cons d cs => exact hc cs hd (by rw [(List.cons.inj he).1])
    rw [List.cons_append, blockLength_cons hc']
    exact Nat.succ_lt_succ (ih h)
  | case3 => exact blockLength_pos s rest

theorem blockCloses_append {cs : List Char} (h : blockCloses cs = true) (rest : List Char) :
    blockCloses (cs ++ rest) = true := by
  fun_induction blockCloses cs with
  | case1 cs => rfl
  | case2 c cs hc ih =>
    cases cs with
    | nil => contradiction
    | cons d cs =>
      rw [List.cons_append, blockCloses]
      · exact ih h
      · exact fun tail hs he => hc cs hs (by rw [(List.cons.inj he).1])
  | case3 => contradiction

end Comment

/-- Which rule a character starts a run by, given the characters behind it. -/
inductive RunStart : Char → List Char → Prop
  | quote {c cs} : isQuote c = true → RunStart c cs
  | hash {cs} : RunStart '#' cs
  | dashes {cs} : RunStart '-' ('-' :: cs)
  | block {cs} : RunStart '/' ('*' :: cs)
  | plain {c cs} : isQuote c = false → commentLength? c cs = none → RunStart c cs

theorem runStart (c : Char) (cs : List Char) : RunStart c cs := by
  cases hq : isQuote c with
  | true => exact .quote hq
  | false =>
    fun_cases commentLength? c cs with
    | case1 => exact .hash
    | case2 => exact .dashes
    | case3 => exact .block
    | case4 c cs h₁ h₂ h₃ => exact .plain hq (by rw [commentLength?]; exacts [h₁, h₂, h₃])

theorem isQuote_iff {c : Char} :
    isQuote c = true ↔ c = singleQuote ∨ c = doubleQuote ∨ c = backQuote := by
  simp [isQuote, or_assoc]

/-- Punctuation behind which something else begins. -/
def separators : List Char := [';', ',', ')']

/-- Characters that no run, number or word goes on with, quoted runs and comments apart. -/
def separates (c : Char) : Bool := (separators ++ Text.blanks).contains c

theorem separates_iff {c : Char} : separates c = true ↔ c ∈ separators ++ Text.blanks :=
  List.contains_iff_mem

theorem separates_of_isBlank {c : Char} (h : Text.isBlank c = true) : separates c = true :=
  separates_iff.2 (List.mem_append_right _ (Text.isBlank_iff.1 h))

theorem separates_of_mem {c : Char} (h : c ∈ separators) : separates c = true :=
  separates_iff.2 (List.mem_append_left _ h)

theorem ne_of_separates {s c : Char} (hs : separates s = true) (hc : separates c = false) :
    s ≠ c := by
  rintro rfl
  rw [hs] at hc
  contradiction

theorem ne_of_separates_of_isQuote {s c : Char} (hs : separates s = true)
    (hc : isQuote c = true) : s ≠ c := by
  obtain rfl | rfl | rfl := isQuote_iff.1 hc <;> exact ne_of_separates hs (by decide)

theorem ne_backslash_of_isQuote {c : Char} (h : isQuote c = true) : c ≠ '\\' := by
  rintro rfl
  revert h
  decide

theorem isQuote_of_separates {c : Char} (hs : separates c = true) : isQuote c = false := by
  rw [← Bool.not_eq_true]
  exact fun hq => ne_of_separates_of_isQuote hs hq rfl

theorem commentLength?_of_separates {c : Char} (hs : separates c = true) (cs : List Char) :
    commentLength? c cs = none := by
  fun_cases commentLength? c cs with
  | case1 | case2 | case3 => exact absurd hs (by decide)
  | case4 => rfl

/-- What starts no run still starts none if the text goes on with a separator. -/
theorem commentLength?_append_of_none {c s : Char} {cs : List Char}
    (h : commentLength? c cs = none) (hs : separates s = true) (rest : List Char) :
    commentLength? c (cs ++ s :: rest) = none := by
  have hd : s ≠ '-' := ne_of_separates hs (by decide)
  have hb : s ≠ '*' := ne_of_separates hs (by decide)
  fun_cases commentLength? c cs with
  | case1 | case2 | case3 => contradiction
  | case4 c cs h₁ h₂ h₃ => cases cs <;> simp_all [commentLength?]

end Lexeme

open Lexeme

namespace Statement

/-- Characters behind `c` that belong to the same quoted run or comment. -/
def runLength (c : Char) (cs : List Char) : Nat :=
  if isQuote c then quotedLength c cs else (commentLength? c cs).getD 0

variable {c s : Char} {cs : List Char}

theorem runLength_of_quote (h : isQuote c = true) : runLength c cs = quotedLength c cs := by
  rw [runLength, if_pos h]

theorem runLength_of_plain (hq : isQuote c = false) (h : commentLength? c cs = none) :
    runLength c cs = 0 := by
  simp [runLength, hq, h]

theorem staysOpen_of_quote (h : isQuote c = true) : staysOpen c cs = !quoteCloses c cs := by
  simp [staysOpen, h]

theorem staysOpen_hash : staysOpen '#' cs = !cs.contains '\n' := rfl

theorem staysOpen_dashes : staysOpen '-' ('-' :: cs) = !cs.contains '\n' := rfl

theorem staysOpen_block : staysOpen '/' ('*' :: cs) = !blockCloses cs := rfl

theorem staysOpen_of_plain (hq : isQuote c = false) (h : commentLength? c cs = none) :
    staysOpen c cs = false := by
  fun_cases commentLength? c cs with
  | case1 | case2 | case3 => contradiction
  | case4 c cs h₁ h₂ h₃ =>
    rw [staysOpen, if_neg (by simp [hq])]
    exacts [h₁, h₂, h₃]

theorem staysOpen_of_separates (hs : separates c = true) : staysOpen c cs = false :=
  staysOpen_of_plain (isQuote_of_separates hs) (commentLength?_of_separates hs cs)

theorem runLength_le (c : Char) (cs : List Char) : runLength c cs ≤ cs.length := by
  cases runStart c cs with
  | quote h => rw [runLength_of_quote h]; exact quotedLength_le cs
  | hash => exact lineLength_le cs
  | @dashes cs => exact lineLength_le ('-' :: cs)
  | @block cs => exact Nat.succ_le_succ (blockLength_le cs)
  | plain hq hc => rw [runLength_of_plain hq hc]; exact Nat.zero_le _

theorem runLength_append (h : staysOpen c cs = false) (hs : separates s = true) (rest : List Char) :
    runLength c (cs ++ s :: rest) = runLength c cs := by
  cases runStart c cs with
  | quote hq =>
    have hc : quoteCloses c cs = true := by simpa [staysOpen_of_quote hq] using h
    rw [runLength_of_quote hq, runLength_of_quote hq]
    exact quotedLength_append (ne_backslash_of_isQuote hq) (ne_of_separates_of_isQuote hs hq) hc rest
  | hash =>
    have hm : '\n' ∈ cs := by simpa [staysOpen_hash] using h
    exact lineLength_append hm _
  | @dashes cs =>
    have hm : '\n' ∈ cs := by simpa [staysOpen_dashes] using h
    exact lineLength_append (List.mem_cons_of_mem _ hm) _
  | @block cs =>
    have hc : blockCloses cs = true := by simpa [staysOpen_block] using h
    exact congrArg (· + 1) (blockLength_append hc _)
  | plain hq hc =>
    rw [runLength_of_plain hq hc,
      runLength_of_plain hq (commentLength?_append_of_none hc hs rest)]

theorem staysOpen_append (h : staysOpen c cs = false) (hs : separates s = true)
    (rest : List Char) : staysOpen c (cs ++ s :: rest) = false := by
  cases runStart c cs with
  | quote hq =>
    rw [staysOpen_of_quote hq, Bool.not_eq_false'] at h ⊢
    exact quoteCloses_append_of_closed (ne_backslash_of_isQuote hq)
      (ne_of_separates_of_isQuote hs hq) h rest
  | hash =>
    have hm : '\n' ∈ cs := by simpa [staysOpen_hash] using h
    simp [staysOpen_hash, hm]
  | @dashes cs =>
    have hm : '\n' ∈ cs := by simpa [staysOpen_dashes] using h
    simp [staysOpen_dashes, hm]
  | @block cs =>
    have hc : blockCloses cs = true := by simpa [staysOpen_block] using h
    simp [staysOpen_block, blockCloses_append hc]
  | plain hq hc => exact staysOpen_of_plain hq (commentLength?_append_of_none hc hs rest)

theorem le_runLength_append (h : staysOpen c cs = true) (rest : List Char) :
    cs.length ≤ runLength c (cs ++ rest) := by
  cases runStart c cs with
  | quote hq =>
    have hc : quoteCloses c cs = false := by simpa [staysOpen_of_quote hq] using h
    rw [runLength_of_quote hq]
    cases rest with
    | nil => rw [List.append_nil, quotedLength_of_open hc]
    | cons s rest => exact (lt_quotedLength_append hc s rest).le
  | hash =>
    have hm : '\n' ∉ cs := by simpa [staysOpen_hash] using h
    change cs.length ≤ lineLength (cs ++ rest)
    rw [lineLength_append_of_open hm]
    exact Nat.le_add_right _ _
  | @dashes cs =>
    have hm : '\n' ∉ cs := by simpa [staysOpen_dashes] using h
    change ('-' :: cs).length ≤ lineLength ('-' :: cs ++ rest)
    rw [lineLength_append_of_open (by simp [hm])]
    exact Nat.le_add_right _ _
  | @block cs =>
    have hc : blockCloses cs = false := by simpa [staysOpen_block] using h
    exact Nat.succ_le_succ (le_blockLength_append hc rest)
  | plain hq hc => rw [staysOpen_of_plain hq hc] at h; contradiction

theorem runLength_of_open (h : staysOpen c cs = true) : runLength c cs = cs.length := by
  apply Nat.le_antisymm (runLength_le c cs)
  simpa using le_runLength_append h []

/-- An open run takes punctuation behind the text with it. -/
theorem lt_runLength_append (h : staysOpen c cs = true) (hs : s ∈ separators) (rest : List Char) :
    cs.length < runLength c (cs ++ s :: rest) := by
  have all : separators.all (fun s => s != '\n' && s != '/') = true := by decide
  have hne : s ≠ '\n' ∧ s ≠ '/' := by simpa using List.all_eq_true.1 all s hs
  cases runStart c cs with
  | quote hq =>
    have hc : quoteCloses c cs = false := by simpa [staysOpen_of_quote hq] using h
    rw [runLength_of_quote hq]
    exact lt_quotedLength_append hc s rest
  | hash =>
    have hm : '\n' ∉ cs := by simpa [staysOpen_hash] using h
    change cs.length < lineLength (cs ++ s :: rest)
    rw [lineLength_append_of_open hm]
    simp [lineLength, hne.1]
  | @dashes cs =>
    have hm : '\n' ∉ cs := by simpa [staysOpen_dashes] using h
    change ('-' :: cs).length < lineLength ('-' :: cs ++ s :: rest)
    rw [lineLength_append_of_open (by simp [hm])]
    simp [lineLength, hne.1]
  | @block cs =>
    have hc : blockCloses cs = false := by simpa [staysOpen_block] using h
    exact Nat.succ_lt_succ (lt_blockLength_append hc hne.2 rest)
  | plain hq hc => rw [staysOpen_of_plain hq hc] at h; contradiction

end Statement

end TypedTables
