import TypedTables.Proofs.Render.References

/-!
Reading TypeScript code token by token, with what its literals hold. What is written with
backslashes before quotes and backslashes is read as one literal that holds the value that was
written.
-/

namespace TypedTables

open CodeToken (isWordPart opensLiteral)

/-- A token of TypeScript code. A literal has its quote and what is between its quotes. -/
inductive TsToken
  | word (text : List Char)
  | literal (quote : Char) (content : List Char)
  | sign (c : Char)
  deriving DecidableEq

/-- A word that has been read, last character first. -/
def TsToken.ended (letters : List Char) : List TsToken :=
  if letters.isEmpty then [] else [.word letters.reverse]

/-- A scan of TypeScript code: outside literals, with the word that is being read, or inside one,
with the quote that ends it, whether the next character is escaped, and what has been read of it. -/
inductive TsScan
  | code (letters : List Char)
  | literal (quote : Char) (escaped : Bool) (content : List Char)

namespace TsScan

open TsToken (ended)

def tokens : TsScan → List Char → List TsToken
  | .code letters, [] => ended letters
  | .code letters, c :: rest =>
    if isWordPart c then tokens (.code (c :: letters)) rest
    else if opensLiteral c then ended letters ++ tokens (.literal c false []) rest
    else if c.isWhitespace then ended letters ++ tokens (.code []) rest
    else ended letters ++ .sign c :: tokens (.code []) rest
  | .literal _ _ _, [] => []
  | .literal quote true content, c :: rest => tokens (.literal quote false (c :: content)) rest
  | .literal quote false content, c :: rest =>
    if c = '\\' then tokens (.literal quote true (c :: content)) rest
    else if c = quote then .literal quote content.reverse :: tokens (.code []) rest
    else tokens (.literal quote false (c :: content)) rest

end TsScan

def tsTokens (code : List Char) : List TsToken := TsScan.tokens (.code []) code

/-- Characters that are written as a backslash and a letter. -/
def escapeLetters : List (Char × Char) :=
  [('n', '\n'), ('r', '\r'), ('t', '\t'), ('b', '\x08'), ('v', '\x0b'), ('f', '\x0c')]

/-- What a character behind a backslash stands for, unless it starts a character code. -/
def unescaped? (c : Char) : Option Char :=
  if c = 'x' ∨ c = 'u' ∨ c.isDigit then none else some ((escapeLetters.lookup c).getD c)

/-- What the content of a literal stands for. -/
def unescape? : List Char → Option (List Char)
  | [] => some []
  | ['\\'] => none
  | '\\' :: c :: rest => do return (← unescaped? c) :: (← unescape? rest)
  | c :: rest => (c :: ·) <$> unescape? rest

/-- The content of the literal that a value is written as. -/
abbrev literalContent (value : String) : List Char := value.toList.flatMap quoted.escape

theorem unescape?_cons {c : Char} (hc : c ≠ '\\') (rest : List Char) :
    unescape? (c :: rest) = (c :: ·) <$> unescape? rest := by
  rw [unescape?]
  · exact fun h _ => hc h
  · exact fun _ _ h _ => hc h

theorem unescape?_escape (c : Char) (rest : List Char) :
    unescape? (quoted.escape c ++ rest) = (c :: ·) <$> unescape? rest := by
  have hslash : unescaped? '\\' = some '\\' := by decide
  have hquote : unescaped? '\x27' = some '\x27' := by decide
  unfold quoted.escape
  split
  · simp [unescape?, hslash, Option.map_eq_bind]
  · simp [unescape?, hquote, Option.map_eq_bind]
  · next hc _ => exact unescape?_cons hc rest

theorem unescape?_literalContent (value : String) :
    unescape? (literalContent value) = some value.toList := by
  unfold literalContent
  induction value.toList with
  | nil => rfl
  | cons c cs ih => rw [List.flatMap_cons, unescape?_escape, ih, Option.map_eq_map, Option.map_some]

namespace TsScan

open TsToken (ended)

variable {cs rest letters content : List Char}

theorem tokens_ended (h : ∀ c ∈ rest.head?, isWordPart c = false) :
    tokens (.code letters) rest = ended letters ++ tsTokens rest := by
  cases rest with
  | nil => simp [tokens, tsTokens, ended]
  | cons c rest =>
    have hc := h c rfl
    simp only [tsTokens, tokens, hc, ended, Bool.false_eq_true, if_false, List.isEmpty_nil, if_true,
      List.nil_append]
    split_ifs <;> simp

theorem tokens_letters (h : cs.all isWordPart = true) :
    tokens (.code letters) (cs ++ rest) = tokens (.code (cs.reverse ++ letters)) rest := by
  induction cs generalizing letters with
  | nil => rfl
  | cons c cs ih =>
    rw [List.all_cons, Bool.and_eq_true] at h
    rw [List.cons_append, tokens, if_pos h.1, ih h.2, List.reverse_cons, List.append_assoc]
    rfl

theorem tokens_literalContent (value : String) :
    tokens (.literal '\x27' false content) (literalContent value ++ rest) =
      tokens (.literal '\x27' false ((literalContent value).reverse ++ content)) rest := by
  unfold literalContent
  induction value.toList generalizing content with
  | nil => rfl
  | cons c cs ih =>
    have hescape : tokens (.literal '\x27' false content)
        (quoted.escape c ++ (cs.flatMap quoted.escape ++ rest)) =
        tokens (.literal '\x27' false ((quoted.escape c).reverse ++ content))
          (cs.flatMap quoted.escape ++ rest) := by
      unfold quoted.escape
      split
      · rfl
      · rfl
      · next hslash hquote => simp [tokens, if_neg hslash, if_neg hquote]
    rw [List.flatMap_cons, List.append_assoc, hescape, ih, List.reverse_append, List.append_assoc]

end TsScan

theorem tsTokens_word {word rest : List Char} (h : word.all isWordPart = true) (hne : word ≠ [])
    (hrest : ∀ c ∈ rest.head?, isWordPart c = false) :
    tsTokens (word ++ rest) = .word word :: tsTokens rest := by
  rw [tsTokens, TsScan.tokens_letters h, List.append_nil, TsScan.tokens_ended hrest, TsToken.ended,
    List.isEmpty_reverse, List.isEmpty_eq_false_iff.2 hne, List.reverse_reverse]
  rfl

/-- A written value is one literal, whatever it says. -/
theorem tsTokens_quoted (value : String) (rest : List Char) :
    tsTokens ((quoted value).toList ++ rest) =
      .literal '\x27' (literalContent value) :: tsTokens rest := by
  rw [quoted, String.toList_ofList, List.cons_append, List.cons_append, List.append_assoc]
  change TsScan.tokens (.literal '\x27' false []) (literalContent value ++ '\x27' :: rest) = _
  rw [TsScan.tokens_literalContent, List.append_nil, TsScan.tokens, if_neg (by decide), if_pos rfl,
    List.reverse_reverse]
  rfl

end TypedTables
