import TypedTables.Proofs.Token.Reading
import TypedTables.TypeExpr.Basic

/-!
Contents: what tokens say, wherever they stand. A text is read piece by piece: the contents of each
word, number, literal and symbol are the same whatever follows it that does not go on with it.
-/

namespace TypedTables

open Lexeme

/-- A token without its place. -/
def Token.content (t : Token) : TokenKind × String := (t.kind, t.text)

/-- The contents of a text. -/
def contents : List Char → List (TokenKind × String)
  | [] => []
  | c :: cs =>
    ((head c cs).1.token? c (cs.take (head c cs).2)).toList ++ contents (cs.drop (head c cs).2)
  termination_by cs => cs.length
  decreasing_by simp only [List.length_drop, List.length_cons]; omega

theorem contents_nil : contents [] = [] := by rw [contents]

theorem contents_cons (c : Char) (cs : List Char) :
    contents (c :: cs) = ((head c cs).1.token? c (cs.take (head c cs).2)).toList ++
      contents (cs.drop (head c cs).2) := by
  rw [contents]

theorem map_content_lexFrom (here : Location) (done : List Token) : (cs : List Char) →
    (lexFrom here done cs).map Token.content = done.reverse.map Token.content ++ contents cs
  | [] => by simp [lexFrom, contents_nil]
  | c :: cs => by
    rw [lexFrom_cons, contents_cons, map_content_lexFrom _ _ (cs.drop _)]
    cases (head c cs).1.token? c (cs.take (head c cs).2) <;> simp [Token.content]
  termination_by cs => cs.length
  decreasing_by simp only [List.length_drop, List.length_cons]; omega

theorem map_content_tokenize (source : String) :
    (tokenize source).map Token.content = contents source.toList :=
  map_content_lexFrom .start [] source.toList

/-- The contents of a text part by part: of a lexeme at its head, and of what is behind it. -/
theorem contents_of_head {c : Char} {run rest : List Char} {lexeme : Lexeme}
    (h : head c (run ++ rest) = (lexeme, run.length)) :
    contents (c :: (run ++ rest)) = (lexeme.token? c run).toList ++ contents rest := by
  rw [contents_cons, h, List.take_left, List.drop_left]

namespace Lexeme

variable {c : Char} {cs rest : List Char}

theorem isWordPart_of_isWordStart (h : isWordStart c = true) : isWordPart c = true := by
  simp only [isWordStart, isWordPart, Text.isAlphanumeric, Bool.or_eq_true] at h ⊢
  exact h.imp_left .inl

theorem isBlank_of_isWordStart (h : isWordStart c = true) : Text.isBlank c = false := by
  rw [← Bool.not_eq_true]
  intro hb
  have hpart := isWordPart_of_separates (separates_of_isBlank hb)
  rw [isWordPart_of_isWordStart h] at hpart
  contradiction

/-- The ten digits. -/
def digits : List Char := ['0', '1', '2', '3', '4', '5', '6', '7', '8', '9']

theorem mem_digits (h : c.isDigit = true) : c ∈ digits := by
  have hc : digits = [48, 49, 50, 51, 52, 53, 54, 55, 56, 57].map Char.ofNat := rfl
  rw [← Char.ofNat_toNat c, hc]
  apply List.mem_map_of_mem
  simp only [Char.isDigit, Bool.and_eq_true, decide_eq_true_eq, UInt32.le_iff_toNat_le] at h
  change 48 ≤ c.toNat ∧ c.toNat ≤ 57 at h
  simp only [List.mem_cons, List.not_mem_nil, or_false]
  omega

theorem isDigit_of_isWordStart (h : isWordStart c = true) : c.isDigit = false := by
  have all : digits.all (!isWordStart ·) = true := by decide
  rw [← Bool.not_eq_true]
  intro hd
  simpa [h] using List.all_eq_true.1 all c (mem_digits hd)

theorem head_of_isPlain (hc : isPlain c = true) :
    head c cs =
      if Text.isBlank c then (.gap, 0)
      else if c.isDigit then (.number, numberLength cs)
      else if isWordStart c then (.word, wordLength cs)
      else match symbol? c with
        | some kind => (.symbol kind, 0)
        | none => (.gap, 0) := by
  obtain ⟨-, hq, hn⟩ := not_run_of_isPlain hc cs
  exact head_of_plain hq hn

/-- Whether a text is an unquoted word. -/
def isWord (text : String) : Bool :=
  match text.toList with
  | [] => false
  | c :: cs => isWordStart c && cs.all isWordPart

/-- Whether a text is one number. -/
def isNumber (text : String) : Bool :=
  match text.toList with
  | [] => false
  | c :: cs => c.isDigit && numberLength cs == cs.length

theorem exists_of_isWord {w : String} (h : isWord w = true) :
    ∃ c cs, w.toList = c :: cs ∧ isWordStart c = true ∧ ∀ d ∈ cs, isWordPart d = true := by
  unfold isWord at h
  split at h
  · contradiction
  · next c cs heq => exact ⟨c, cs, heq, by simpa using h⟩

theorem exists_of_isNumber {n : String} (h : isNumber n = true) :
    ∃ c cs, n.toList = c :: cs ∧ c.isDigit = true ∧ numberLength cs = cs.length := by
  unfold isNumber at h
  split at h
  · contradiction
  · next c cs heq => exact ⟨c, cs, heq, by simpa using h⟩

end Lexeme

section Pieces

variable {c : Char} {rest : List Char}

theorem contents_blank (h : Text.isBlank c = true) (rest : List Char) :
    contents (c :: rest) = contents rest := by
  have hhead : head c ([] ++ rest) = (.gap, 0) := head_of_blank h
  exact contents_of_head hhead

theorem contents_word {w : String} (h : isWord w = true)
    (hrest : ∀ d ∈ rest.head?, isWordPart d = false) :
    contents (w.toList ++ rest) = (wordKind w, w) :: contents rest := by
  obtain ⟨c, cs, hw, hc, hcs⟩ := exists_of_isWord h
  have hlength : wordLength (cs ++ rest) = cs.length := by
    rw [wordLength, List.takeWhile_append_of_pos hcs]
    cases rest with
    | nil => simp
    | cons d rest => simp [hrest d rfl]
  have hhead : head c (cs ++ rest) = (.word, cs.length) := by
    rw [head_of_isPlain (isPlain_of_isWordPart (isWordPart_of_isWordStart hc)),
      isBlank_of_isWordStart hc, isDigit_of_isWordStart hc, hc, hlength]
    rfl
  rw [hw, List.cons_append, contents_of_head hhead, token?, ← hw, String.ofList_toList]
  rfl

theorem contents_number {n : String} (h : isNumber n = true)
    (hrest : ∀ d ∈ rest.head?, endsNumber d = true) :
    contents (n.toList ++ rest) = (.number, n) :: contents rest := by
  obtain ⟨c, cs, hn, hc, hcs⟩ := exists_of_isNumber h
  have hlength : numberLength (cs ++ rest) = cs.length := by
    cases rest with
    | nil => rw [List.append_nil, hcs]
    | cons d rest => rw [numberLength_append (hrest d rfl), hcs]
  have hblank : Text.isBlank c = false := by
    have all : digits.all Text.isAlphanumeric = true := by decide
    exact Text.isBlank_of_isAlphanumeric (List.all_eq_true.1 all c (mem_digits hc))
  have hhead : head c (cs ++ rest) = (.number, cs.length) := by
    rw [head_of_isPlain (isPlain_of_isDigit hc), hblank, hc, hlength]
    rfl
  rw [hn, List.cons_append, contents_of_head hhead, token?, ← hn, String.ofList_toList]
  rfl

/-- The symbols that types and column lists are written with. -/
def listSymbols : List Char := ['(', ')', ',', '=']

theorem contents_symbol (hc : c ∈ listSymbols) {kind : TokenKind} (hk : symbol? c = some kind)
    (rest : List Char) : contents (c :: rest) = (kind, String.ofList [c]) :: contents rest := by
  have all : listSymbols.all (fun s =>
      isPlain s && !Text.blanks.contains s && !s.isDigit && !isWordStart s) = true := by decide
  have hclass := List.all_eq_true.1 all c hc
  simp only [Bool.and_eq_true, Bool.not_eq_true', List.contains_eq_mem,
    decide_eq_false_iff_not] at hclass
  obtain ⟨⟨⟨hplain, hblank⟩, hdigit⟩, hword⟩ := hclass
  have hhead : head c ([] ++ rest) = (.symbol kind, 0) := by
    rw [head_of_isPlain hplain, Text.isBlank_eq_false_iff.2 hblank, hdigit, hword, hk]
    rfl
  exact contents_of_head hhead

/-- A minus that a digit follows starts no comment. -/
theorem contents_minus (hc : c.isDigit = true) (rest : List Char) :
    contents ('-' :: c :: rest) = (.operator, "-") :: contents (c :: rest) := by
  have hm : c ≠ '-' := by
    rintro rfl
    contradiction
  have hhead : head '-' ([] ++ c :: rest) = (.symbol .operator, 0) := by
    have hblank : Text.isBlank '-' = false := Text.isBlank_eq_false_iff.2 (by decide)
    have hword : isWordStart '-' = false := by decide
    rw [head_of_plain (by decide) (by simp [commentLength?, hm]), hblank, hword]
    rfl
  exact contents_of_head hhead

end Pieces

section Quoted

variable {value rest : List Char}

/-- The characters of a text between quotes. -/
def escaped (value : List Char) : List Char := value.flatMap TypedTables.quoted.escape

theorem toList_quoted (value : String) :
    (TypedTables.quoted value).toList = singleQuote :: (escaped value.toList ++ [singleQuote]) := by
  rw [TypedTables.quoted, String.toList_ofList]
  rfl

/-- A character stands for itself between quotes, or stands behind a backslash. -/
theorem escape_cases (c : Char) :
    (TypedTables.quoted.escape c = [c] ∧ c ≠ '\\' ∧ c ≠ singleQuote) ∨
      (TypedTables.quoted.escape c = ['\\', c] ∧ unquote.escaped c = c) := by
  unfold TypedTables.quoted.escape
  split
  · exact .inr ⟨rfl, rfl⟩
  · exact .inr ⟨rfl, rfl⟩
  · next h h' => exact .inl ⟨rfl, h, h'⟩

theorem escaped_cons (c : Char) (value : List Char) :
    escaped (c :: value) = TypedTables.quoted.escape c ++ escaped value := List.flatMap_cons

theorem quotedLength_escaped (value : List Char) (hrest : ∀ d ∈ rest.head?, d ≠ singleQuote) :
    quotedLength singleQuote (escaped value ++ singleQuote :: rest) = (escaped value).length + 1 := by
  induction value with
  | nil =>
    cases rest with
    | nil => rfl
    | cons d rest =>
      change quotedLength singleQuote (singleQuote :: d :: rest) = 1
      rw [quotedLength_cons_cons, if_neg (by decide), if_pos rfl, if_neg (hrest d rfl)]
  | cons c value ih =>
    rw [escaped_cons]
    obtain ⟨hc, hb, hq⟩ | ⟨hc, -⟩ := escape_cases c
    · obtain ⟨d, tail, htail⟩ := List.exists_cons_of_ne_nil
        (show escaped value ++ singleQuote :: rest ≠ [] by simp)
      rw [hc, List.append_assoc, List.singleton_append, htail, quotedLength_cons_cons, if_neg hb,
        if_neg hq, ← htail, ih, List.length_append]
      simp [Nat.add_comm]
    · rw [hc]
      change quotedLength singleQuote ('\\' :: c :: (escaped value ++ singleQuote :: rest)) = _
      rw [quotedLength_cons_cons, if_pos rfl, ih]
      simp

theorem unquote_escaped (before : String) (value : List Char) :
    unquote.go singleQuote before (escaped value ++ [singleQuote]) =
      before ++ String.ofList value := by
  induction value generalizing before with
  | nil =>
    change (if _ then before else _) = _
    rw [if_pos (by decide), String.ofList_nil, String.append_empty]
  | cons c value ih =>
    have hpush : before.push c ++ String.ofList value = before ++ String.ofList (c :: value) := by
      apply String.toList_injective
      simp
    rw [escaped_cons]
    obtain ⟨hc, hb, hq⟩ | ⟨hc, hchar⟩ := escape_cases c
    · obtain ⟨d, tail, htail⟩ := List.exists_cons_of_ne_nil
        (show escaped value ++ [singleQuote] ≠ [] by simp)
      rw [hc, List.append_assoc, List.singleton_append, htail, unquote.go, if_neg hb, if_neg hq,
        ← htail, ih, hpush]
    · rw [hc]
      change unquote.go singleQuote before ('\\' :: c :: (escaped value ++ [singleQuote])) = _
      rw [unquote.go, if_pos rfl, ih, hchar, hpush]

theorem contents_quoted (value : String) (hrest : ∀ d ∈ rest.head?, d ≠ singleQuote) :
    contents ((TypedTables.quoted value).toList ++ rest) = (.string, value) :: contents rest := by
  have hlength := quotedLength_escaped value.toList hrest
  have hhead : head singleQuote ((escaped value.toList ++ [singleQuote]) ++ rest) =
      (.quoted .string singleQuote, (escaped value.toList ++ [singleQuote]).length) := by
    rw [head_of_quote (by decide), Statement.runLength_of_quote (by decide), List.append_assoc,
      List.singleton_append, hlength, List.length_append]
    rfl
  rw [toList_quoted, List.cons_append, contents_of_head hhead, token?, unquote, unquote_escaped,
    String.empty_append, String.ofList_toList]
  rfl

end Quoted

section Lexed

variable {c : Char} {cs : List Char}

/-- An identifier is a word that is no keyword, and a number is one all over. -/
structure IsLexed (content : TokenKind × String) : Prop where
  word : content.1 = .identifier → isWord content.2 = true ∧ wordKind content.2 = .identifier
  number : content.1 = .number → isNumber content.2 = true

theorem isLexed_of_other {content : TokenKind × String} (hi : content.1 ≠ .identifier)
    (hn : content.1 ≠ .number) : IsLexed content := ⟨fun h => absurd h hi, fun h => absurd h hn⟩

theorem kind_of_symbol? {kind : TokenKind} (h : symbol? c = some kind) :
    kind ≠ .identifier ∧ kind ≠ .number := by
  unfold symbol? at h
  split at h <;> cases h <;> exact ⟨nofun, nofun⟩

theorem isLexed_number {number : String} (h : isNumber number = true) :
    IsLexed (.number, number) := ⟨nofun, fun _ => h⟩

theorem isNumber_take (hc : c.isDigit = true) (cs : List Char) :
    isNumber (String.ofList (c :: cs.take (numberLength cs))) = true := by
  simp [isNumber, hc, numberLength_take, numberLength_le]

theorem isLexed_word {word : String} (h : isWord word = true) : IsLexed (wordKind word, word) := by
  refine ⟨fun hkind => ⟨h, hkind⟩, fun hkind => ?_⟩
  unfold wordKind at hkind
  split at hkind <;> contradiction

theorem isWord_take (hc : isWordStart c = true) (cs : List Char) :
    isWord (String.ofList (c :: cs.take (wordLength cs))) = true := by
  rw [wordLength, take_takeWhile]
  simp only [isWord, String.toList_ofList, hc, Bool.true_and, List.all_eq_true]
  exact fun d hd => List.mem_takeWhile_imp hd

theorem isLexed_token? : ∀ content ∈ (head c cs).1.token? c (cs.take (head c cs).2),
    IsLexed content := by
  cases runStart c cs with
  | quote hq =>
    rw [head_of_quote hq]
    rintro _ ⟨⟩
    unfold quoteKind
    split_ifs
    · exact isLexed_of_other nofun nofun
    · exact isLexed_of_other nofun nofun
  | hash | dashes | block =>
    rw [head_of_comment rfl]
    exact nofun
  | plain hq hn =>
    rw [head_of_plain hq hn]
    split_ifs with hblank hdigit hword
    · exact nofun
    · intro content h
      rw [← Option.some_inj.1 h]
      exact isLexed_number (isNumber_take hdigit cs)
    · intro content h
      rw [← Option.some_inj.1 h]
      exact isLexed_word (isWord_take hword cs)
    · cases hs : symbol? c with
      | none => exact nofun
      | some kind =>
        rintro _ ⟨⟩
        exact isLexed_of_other (kind_of_symbol? hs).1 (kind_of_symbol? hs).2

theorem isLexed_contents : (cs : List Char) → ∀ content ∈ contents cs, IsLexed content
  | [] => by simp [contents_nil]
  | c :: cs => by
    rw [contents_cons]
    intro content h
    obtain h | h := List.mem_append.1 h
    · exact isLexed_token? content (Option.mem_toList.1 h)
    · exact isLexed_contents (cs.drop _) content h
  termination_by cs => cs.length
  decreasing_by simp only [List.length_drop, List.length_cons]; omega

theorem isLexed_tokenize {source : String} {t : Token} (h : t ∈ tokenize source) :
    IsLexed t.content := by
  refine isLexed_contents source.toList t.content ?_
  rw [← map_content_tokenize]
  exact List.mem_map_of_mem h

end Lexed

end TypedTables
