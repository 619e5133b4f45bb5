import TypedTables.Proofs.Checked.Access
import TypedTables.Proofs.Text.Closings
import TypedTables.Proofs.Token.Part
import TypedTables.Proofs.Token.Place

/-!
What the tokens cover of a text. Each one stands on characters of the text, at the place that its
span says, and shows them unless it is quoted; the tokens follow each other, and between them are
blanks, comments and characters that no rule knows.
-/

namespace TypedTables

open Lexeme Text
open String (utf8Len)

namespace Lexeme

/-- No rule knows the character. -/
def Unknown (c : Char) : Prop :=
  Text.isBlank c = false ∧ isQuote c = false ∧ c ≠ '#' ∧ c.isDigit = false ∧
    isWordStart c = false ∧ symbol? c = none

/-- What no token is made of, with `rest` behind it: a blank, a character that no rule knows, or a
whole comment. A block comment stays open only if the text ends in it. -/
inductive Skipped : (piece rest : List Char) → Prop
  | blank {c : Char} {rest : List Char} (h : Text.isBlank c = true) : Skipped [c] rest
  | unknown {c : Char} {rest : List Char} (h : Unknown c) : Skipped [c] rest
  | line {opening body rest : List Char} (hopening : opening ∈ [['#'], ['-', '-']])
    (hbody : '\n' ∉ body) (hrest : ∀ c ∈ rest.head?, c = '\n') : Skipped (opening ++ body) rest
  | block {body rest : List Char} (h : closings (body ++ ['*', '/']) = 1) :
    Skipped (['/', '*'] ++ (body ++ ['*', '/'])) rest
  | openBlock {body : List Char} (h : closings body = 0) : Skipped (['/', '*'] ++ body) []

/-- Nothing in a text with `rest` behind it makes a token. -/
inductive Gap : (gap rest : List Char) → Prop
  | nil {rest : List Char} : Gap [] rest
  | cons {piece gap rest : List Char} (hpiece : Skipped piece (gap ++ rest)) (h : Gap gap rest) :
    Gap (piece ++ gap) rest

section Head

variable {c : Char} {cs : List Char}

/-- A line comment goes on to the end of its line. -/
theorem skipped_line {opening : List Char} (hopening : opening ∈ [['#'], ['-', '-']])
    (cs : List Char) :
    Skipped (opening ++ cs.take (lineLength cs)) (cs.drop (lineLength cs)) := by
  rw [lineLength, take_takeWhile, drop_takeWhile]
  have hrest := List.head?_dropWhile_not (· != '\n') cs
  refine .line hopening (fun h => ?_) fun c hc => ?_
  · simpa using List.mem_takeWhile_imp h
  · rw [hc] at hrest
    simpa using hrest

/-- A block comment goes on to the first `*/`. -/
theorem exists_block (cs : List Char) :
    (∃ body, cs.take (blockLength cs) = body ++ ['*', '/'] ∧ closings (body ++ ['*', '/']) = 1) ∨
      blockLength cs = cs.length ∧ closings cs = 0 := by
  fun_induction blockCloses cs with
  | case1 rest => exact .inl ⟨[], rfl, by decide⟩
  | case2 c rest h ih =>
    have hnext (hc : c = '*') : rest.head? ≠ some '/' := fun hhead => by
      obtain ⟨tail, rfl⟩ := List.head?_eq_some_iff.1 hhead
      exact h tail hc rfl
    rw [blockLength_cons h, List.take_succ_cons]
    obtain ⟨body, htake, honce⟩ | ⟨hlength, hnone⟩ := ih
    · refine .inl ⟨c :: body, by rw [htake]; rfl, ?_⟩
      rw [List.cons_append, closings_cons, honce, ← htake, if_neg]
      rintro ⟨hc, hhead⟩
      rw [List.head?_take] at hhead
      split_ifs at hhead
      exact hnext hc hhead
    · refine .inr ⟨by rw [hlength, List.length_cons], ?_⟩
      rw [closings_cons, hnone, if_neg]
      rintro ⟨hc, hhead⟩
      exact hnext hc hhead
  | case3 => exact .inr ⟨rfl, rfl⟩

theorem skipped_of_head (h : (head c cs).1 = .gap) :
    Skipped (c :: cs.take (head c cs).2) (cs.drop (head c cs).2) := by
  cases runStart c cs with
  | quote hq =>
    rw [head_of_quote hq] at h
    contradiction
  | hash =>
    rw [head_of_comment rfl]
    exact @skipped_line ['#'] (by simp) cs
  | @dashes cs =>
    have hlength : lineLength ('-' :: cs) = lineLength cs + 1 := by simp [lineLength]
    rw [head_of_comment rfl, hlength]
    exact @skipped_line ['-', '-'] (by simp) cs
  | @block cs =>
    rw [head_of_comment rfl]
    change Skipped ('/' :: '*' :: cs.take (blockLength cs)) (cs.drop (blockLength cs))
    obtain ⟨body, htake, honce⟩ | ⟨hlength, hnone⟩ := exists_block cs
    · rw [htake]
      exact .block honce
    · rw [hlength, List.take_length, List.drop_length]
      exact .openBlock hnone
  | plain hq hc =>
    have hhash : c ≠ '#' := by
      rintro rfl
      contradiction
    rw [head_of_plain hq hc] at h ⊢
    split_ifs at h ⊢ with hblank hdigit hword
    · exact .blank hblank
    · cases hs : symbol? c with
      | some kind =>
        rw [hs] at h
        contradiction
      | none =>
        rw [Bool.not_eq_true] at hblank hdigit hword
        exact .unknown ⟨hblank, hq, hhash, hdigit, hword, hs⟩

theorem eq_gap_of_token? {lexeme : Lexeme} {run : List Char} (h : lexeme.token? c run = none) :
    lexeme = .gap := by
  cases lexeme with
  | gap => rfl
  | quoted | number | word | symbol => contradiction

/-- A token that is not made of a quoted run shows its characters. -/
theorem text_of_token? {run : List Char} {kind : TokenKind} {text : String}
    (h : (head c cs).1.token? c run = some (kind, text)) (hstring : kind ≠ .string)
    (hquoted : kind ≠ .quotedIdentifier) : text = String.ofList (c :: run) := by
  cases runStart c cs with
  | quote hq =>
    rw [head_of_quote hq, quoteKind] at h
    split_ifs at h <;> cases h <;> contradiction
  | hash | dashes | block =>
    rw [head_of_comment rfl] at h
    contradiction
  | plain hq hc =>
    rw [head_of_plain hq hc] at h
    split_ifs at h
    · contradiction
    · cases h
      rfl
    · cases h
      rfl
    · cases hs : symbol? c with
      | none =>
        rw [hs] at h
        contradiction
      | some kind =>
        rw [hs] at h
        cases h
        rfl

end Head

end Lexeme

/-- The span of a run of characters behind others. -/
def runSpan (before run : List Char) : Span :=
  ⟨utf8Len before, utf8Len run, 1 + before.count '\n', 1 + (lastLine before).length⟩

/-- The tokens of the rest of a text behind its front: each stands on a run of characters with a gap
before it, and behind the last one is a gap as well. -/
inductive Covers : (front : List Char) → List Token → (rest : List Char) → Prop
  | last {front gap : List Char} (hgap : Gap gap []) : Covers front [] gap
  | token {front gap run rest : List Char} {t : Token} {ts : List Token}
    (hgap : Gap gap (run ++ rest)) (hrun : run ≠ []) (hspan : t.span = runSpan (front ++ gap) run)
    (htext : t.kind ≠ .string → t.kind ≠ .quotedIdentifier → t.text = String.ofList run)
    (h : Covers (front ++ gap ++ run) ts rest) : Covers front (t :: ts) (gap ++ (run ++ rest))

section Covers

variable {front piece rest : List Char} {ts : List Token}

/-- What is skipped belongs to the gap before the next token. -/
theorem Covers.skip (hpiece : Skipped piece rest) (h : Covers (front ++ piece) ts rest) :
    Covers front ts (piece ++ rest) := by
  cases h with
  | last hgap =>
    rw [← List.append_nil rest] at hpiece
    exact .last (.cons hpiece hgap)
  | token hgap hrun hspan htext h =>
    rw [List.append_assoc front] at hspan h
    rw [← List.append_assoc]
    exact .token (.cons hpiece hgap) hrun hspan htext h

theorem covers_lexFrom (front : List Char) : (cs : List Char) →
    Covers front (lexFrom (Location.start.advance front) [] cs) cs
  | [] => by
    rw [lexFrom]
    exact .last .nil
  | c :: cs => by
    have hrest := covers_lexFrom (front ++ c :: cs.take (head c cs).2) (cs.drop (head c cs).2)
    have hsplit : c :: cs = (c :: cs.take (head c cs).2) ++ cs.drop (head c cs).2 := by simp
    rw [Location.advance_append] at hrest
    rw [lexFrom_nil_cons]
    conv_rhs => rw [hsplit]
    cases htoken : lexemeToken? (Location.start.advance front) c cs with
    | none =>
      have hgap := eq_gap_of_token? (Option.map_eq_none_iff.1 htoken)
      exact .skip (skipped_of_head hgap) hrest
    | some t =>
      obtain ⟨⟨kind, text⟩, hcontent, rfl⟩ := Option.map_eq_some_iff.1 htoken
      refine @Covers.token front [] _ _ _ _ .nil (List.cons_ne_nil _ _) ?_ ?_ ?_
      · rw [List.append_nil]
        exact lexemeSpan_start front c cs
      · exact text_of_token? hcontent
      · rwa [List.append_nil]
  termination_by cs => cs.length
  decreasing_by simp only [List.length_drop, List.length_cons]; omega

end Covers

/-- What a token says of the text that it comes from. -/
structure Token.StandsIn (source : String) (t : Token) : Prop where
  nonempty : 0 < t.span.length
  first : String.Pos.Raw.IsValid source ⟨t.span.offset⟩
  stop : String.Pos.Raw.IsValid source ⟨t.span.stop⟩
  line : t.span.line = 1 + (slice source 0 t.span.offset).toList.count '\n'
  column : t.span.column = 1 + (lastLine (slice source 0 t.span.offset).toList).length
  text : t.kind ≠ .string → t.kind ≠ .quotedIdentifier →
    t.text = slice source t.span.offset t.span.stop

/-- The texts between tokens, from `first` to the end, each with all that stands behind it. -/
def gapsFrom (source : String) (first : Nat) : List Token → List (String × String)
  | [] => [(slice source first source.utf8ByteSize, "")]
  | t :: ts =>
    (slice source first t.span.offset, slice source t.span.offset source.utf8ByteSize) ::
      gapsFrom source t.span.stop ts

section Source

variable {source : String} {front rest : List Char} {t : Token} {ts : List Token}

theorem standsIn_of_span {before run after : List Char}
    (hsource : source.toList = before ++ run ++ after) (hrun : run ≠ [])
    (hspan : t.span = runSpan before run)
    (htext : t.kind ≠ .string → t.kind ≠ .quotedIdentifier → t.text = String.ofList run) :
    t.StandsIn source := by
  have hoffset : t.span.offset = utf8Len before := by rw [hspan, runSpan]
  have hlength : t.span.length = utf8Len run := by rw [hspan, runSpan]
  have hbefore : (slice source 0 t.span.offset).toList = before := by
    have hall : source.toList = [] ++ before ++ (run ++ after) := by
      rw [hsource, List.nil_append, List.append_assoc]
    rw [hoffset, ← Nat.zero_add (utf8Len before)]
    exact Statement.toList_slice hall
  refine ⟨?_, ?_, ?_, ?_, ?_, fun hstring hquoted => ?_⟩
  · rw [hlength]
    exact Nat.pos_of_ne_zero (mt String.utf8Len_eq_zero.1 hrun)
  · rw [hoffset]
    exact String.Pos.Raw.isValid_eq_true_iff.1
      (Checked.isValid_utf8Len (hsource.trans (List.append_assoc _ _ _)))
  · rw [Span.stop, hoffset, hlength, ← String.utf8Len_append]
    exact String.Pos.Raw.isValid_eq_true_iff.1 (Checked.isValid_utf8Len hsource)
  · rw [hbefore, hspan, runSpan]
  · rw [hbefore, hspan, runSpan]
  · rw [htext hstring hquoted, Span.stop, hoffset, hlength, ← String.toList_inj,
      Statement.toList_slice hsource, String.toList_ofList]

theorem Covers.standsIn (hsource : source.toList = front ++ rest) (h : Covers front ts rest) :
    ∀ t ∈ ts, t.StandsIn source := by
  induction h with
  | last => exact nofun
  | @token front gap run rest t ts hgap hrun hspan htext h ih =>
    have hall : source.toList = front ++ gap ++ run ++ rest := by simpa using hsource
    exact List.forall_mem_cons.2 ⟨standsIn_of_span hall hrun hspan htext, ih hall⟩

theorem Covers.pairwise (h : Covers front ts rest) :
    (∀ t ∈ ts, utf8Len front ≤ t.span.offset) ∧
      ts.Pairwise fun t u => t.span.offset < u.span.offset ∧ t.span.stop ≤ u.span.offset := by
  induction h with
  | last => exact ⟨nofun, .nil⟩
  | @token front gap run rest t ts hgap hrun hspan htext h ih =>
    have hpos : 0 < utf8Len run := Nat.pos_of_ne_zero (mt String.utf8Len_eq_zero.1 hrun)
    have hoffset : t.span.offset = utf8Len front + utf8Len gap := by
      rw [hspan, runSpan, String.utf8Len_append]
    have hstop : t.span.stop = t.span.offset + utf8Len run := by
      rw [Span.stop, hspan, runSpan]
    have hnext : ∀ u ∈ ts, t.span.stop ≤ u.span.offset := fun u hu => by
      have hu := ih.1 u hu
      rw [String.utf8Len_append, String.utf8Len_append, ← hoffset, ← hstop] at hu
      exact hu
    refine ⟨List.forall_mem_cons.2 ⟨?_, fun u hu => ?_⟩, .cons (fun u hu => ?_) ih.2⟩
    · omega
    · have := hnext u hu
      omega
    · have := hnext u hu
      omega

theorem Covers.gaps (hsource : source.toList = front ++ rest) (h : Covers front ts rest) :
    ∀ gap ∈ gapsFrom source (utf8Len front) ts, Gap gap.1.toList gap.2.toList := by
  induction h with
  | @last front gap hgap =>
    have hsize : source.utf8ByteSize = utf8Len front + utf8Len gap := by
      rw [← String.utf8Len_toList, hsource, String.utf8Len_append]
    rw [gapsFrom, List.forall_mem_singleton, hsize,
      Statement.toList_slice (hsource.trans (List.append_nil _).symm)]
    exact hgap
  | @token front gap run rest t ts hgap hrun hspan htext h ih =>
    have hall : source.toList = front ++ gap ++ run ++ rest := by simpa using hsource
    have hbehind : source.toList = front ++ gap ++ (run ++ rest) := by simpa using hsource
    have hsize : source.utf8ByteSize = utf8Len (front ++ gap) + utf8Len (run ++ rest) := by
      rw [← String.utf8Len_toList, hbehind, String.utf8Len_append]
    have hoffset : t.span.offset = utf8Len (front ++ gap) := by rw [hspan, runSpan]
    have hstop : t.span.stop = utf8Len (front ++ gap ++ run) := by
      rw [Span.stop, hspan, runSpan, String.utf8Len_append _ run]
    rw [gapsFrom, List.forall_mem_cons, hoffset, hstop, hsize,
      Statement.toList_slice (hbehind.trans (List.append_nil _).symm)]
    refine ⟨?_, ih hall⟩
    rw [String.utf8Len_append front, Statement.toList_slice hbehind]
    exact hgap

/-- Tokens stand where they say in the text, one behind the other, and what is between them makes no
token. -/
theorem tokens_cover (source : String) :
    (∀ t ∈ tokenize source, t.StandsIn source) ∧
      (tokenize source).Pairwise (fun t u =>
        t.span.offset < u.span.offset ∧ t.span.stop ≤ u.span.offset) ∧
      ∀ gap ∈ gapsFrom source 0 (tokenize source), Gap gap.1.toList gap.2.toList := by
  have h : Covers [] (tokenize source) source.toList := covers_lexFrom [] source.toList
  exact ⟨h.standsIn rfl, h.pairwise.2, h.gaps rfl⟩

end Source

end TypedTables
