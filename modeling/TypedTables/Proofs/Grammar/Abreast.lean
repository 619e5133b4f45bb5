import TypedTables.Proofs.Grammar.Repeats
import TypedTables.Proofs.Lockstep

/-!
Two texts whose tokens say the same, read side by side: steps, runs, groups and names. Whatever is
read of one is read of the other, only that source texts are taken from the one or the other.
-/

namespace TypedTables

/-- A text and tokens that stand in it. -/
structure Listing where
  source : String
  tokens : List Token

namespace Listing

/-- A text with all its tokens. -/
def ofText (source : String) : Listing := ⟨source, tokenize source⟩

/-- As many as `n` tokens behind the first `i`. -/
def part (l : Listing) (i n : Nat) : List Token := (l.tokens.drop i).take n

/-- What the text shows of a part. -/
def text (l : Listing) (i n : Nat) : String := sourceText l.source (l.part i n)

end Listing

/-- What two texts show of the same part of their tokens. -/
def SameText (l l' : Listing) (x y : String) : Prop := ∃ i n, x = l.text i n ∧ y = l'.text i n

/-- Tokens that say the same in the same part of two lists. -/
structure SamePart (l l' : Listing) (ts us : List Token) : Prop where
  contents : ts.map Token.content = us.map Token.content
  place : ∃ i n, ts = l.part i n ∧ us = l'.part i n

section Errors

/-- A token as if it stood nowhere. -/
def Token.unplaced (t : Token) : Token := { t with span := ⟨0, 0, 0, 0⟩ }

theorem Token.unplaced_eq {t u : Token} (h : t.content = u.content) : t.unplaced = u.unplaced :=
  OfContent.eq (f := unplaced) (fun _ _ _ _ => rfl) h

/-- The cause without the place of the token it blames. -/
def ParseError.unplaced : ParseError → ParseError
  | .unexpected fault found? => .unexpected fault (found?.map Token.unplaced)
  | .invalidEnumValue number => .invalidEnumValue number.unplaced
  | cause => cause

def Error.unplaced : Error → Error
  | .parse cause => .parse cause.unplaced
  | e => e

theorem ParseError.message_unplaced (cause : ParseError) :
    cause.unplaced.message = cause.message := by
  unfold message unplaced
  cases cause with
  | unexpected fault found? => cases found? <;> dsimp only [Option.map, Token.unplaced]
  | invalidEnumValue number => dsimp only [Token.unplaced]
  | _ => dsimp only

theorem Error.message_unplaced (e : Error) : e.unplaced.message = e.message := by
  unfold message unplaced
  cases e with
  | parse cause =>
    dsimp only
    rw [cause.message_unplaced]
  | _ => dsimp only

/-- Errors that are the same up to places. -/
def SameError (e f : Error) : Prop := e.unplaced = f.unplaced

theorem SameError.message_eq {e f : Error} (h : SameError e f) : e.message = f.message := by
  rw [← e.message_unplaced, h, f.message_unplaced]

end Errors

/-- Cursors at the same position in two lists of tokens that say the same. -/
structure Abreast (l l' : Listing) (c d : Cursor) : Prop where
  position : c.position = d.position
  within : c.position ≤ l.tokens.length
  left : c.rest = l.tokens.drop c.position
  right : d.rest = l'.tokens.drop d.position
  contents : c.rest.map Token.content = d.rest.map Token.content

namespace Abreast

variable {l l' : Listing} {c d : Cursor}

theorem start (h : l.tokens.map Token.content = l'.tokens.map Token.content) :
    Abreast l l' (.ofTokens l.tokens) (.ofTokens l'.tokens) := ⟨rfl, Nat.zero_le _, rfl, rfl, h⟩

/-- Both cursors are at the end, or tokens that say the same are ahead of both. -/
theorem next (h : Abreast l l' c d) :
    (∃ p, c = ⟨p, []⟩ ∧ d = ⟨p, []⟩) ∨
      ∃ p t u rest rest', c = ⟨p, t :: rest⟩ ∧ d = ⟨p, u :: rest'⟩ ∧ t.content = u.content ∧
        Abreast l l' ⟨p + 1, rest⟩ ⟨p + 1, rest'⟩ := by
  obtain ⟨p, rest⟩ := c
  obtain ⟨q, rest'⟩ := d
  obtain rfl : p = q := h.position
  have hcontents : rest.map Token.content = rest'.map Token.content := h.contents
  cases rest with
  | nil =>
    obtain rfl : rest' = [] := List.map_eq_nil_iff.1 hcontents.symm
    exact .inl ⟨p, rfl, rfl⟩
  | cons t rest =>
    obtain ⟨u, rest', rfl, hu, hrest⟩ := List.map_eq_cons_iff.1 hcontents.symm
    have behind {t : Token} {ts rest : List Token} (h : t :: rest = ts.drop p) :
        rest = ts.drop (p + 1) := by rw [← List.drop_drop, ← h, List.drop_one, List.tail_cons]
    have hwithin : p + 1 ≤ l.tokens.length := by
      have hlength : rest.length + 1 = l.tokens.length - p := by
        simpa using congrArg List.length h.left
      omega
    exact .inr ⟨p, t, u, rest, rest', rfl, rfl, hu.symm, rfl, hwithin, behind h.left,
      behind h.right, hrest.symm⟩

theorem finish (h : Abreast l l' c d) : Abreast l l' c.finish d.finish where
  position := by
    have hlength := congrArg List.length h.contents
    rw [List.length_map, List.length_map] at hlength
    rw [Cursor.finish, Cursor.finish, h.position, hlength]
  within := by
    have hlength := congrArg List.length h.left
    have hwithin := h.within
    rw [List.length_drop] at hlength
    dsimp only [Cursor.finish]
    omega
  left := by
    refine (List.drop_eq_nil_of_le ?_).symm
    have hlength := congrArg List.length h.left
    rw [List.length_drop] at hlength
    dsimp only [Cursor.finish]
    omega
  right := by
    refine (List.drop_eq_nil_of_le ?_).symm
    have hlength := congrArg List.length h.right
    rw [List.length_drop] at hlength
    dsimp only [Cursor.finish]
    omega
  contents := rfl

theorem since {mark mark' : Cursor} (h : Abreast l l' mark mark') (h' : Abreast l l' c d) :
    SamePart l l' (c.since mark) (d.since mark') where
  contents := by
    rw [Cursor.since, Cursor.since, List.map_take, List.map_take, h.contents, h.position,
      h'.position]
  place := by
    refine ⟨mark.position, c.position - mark.position, ?_, ?_⟩
    · rw [Cursor.since, Listing.part, h.left]
    · rw [Cursor.since, Listing.part, h.right, h.position, h'.position]

end Abreast

theorem SamePart.sourceText {l l' : Listing} {ts us : List Token} (h : SamePart l l' ts us) :
    SameText l l' (sourceText l.source ts) (sourceText l'.source us) := by
  obtain ⟨i, n, rfl, rfl⟩ := h.place
  exact ⟨i, n, rfl, rfl⟩

theorem SamePart.take {l l' : Listing} {ts us : List Token} (h : SamePart l l' ts us) (n : Nat) :
    SamePart l l' (ts.take n) (us.take n) where
  contents := by rw [List.map_take, List.map_take, h.contents]
  place := by
    obtain ⟨i, m, rfl, rfl⟩ := h.place
    exact ⟨i, min n m, List.take_take, List.take_take⟩

/-- There is a token on neither side, or there are tokens that say the same. -/
theorem content_cases {t? u? : Option Token} (h : t?.map Token.content = u?.map Token.content) :
    (t? = none ∧ u? = none) ∨ ∃ t u, t? = some t ∧ u? = some u ∧ t.content = u.content := by
  cases u? with
  | none => exact .inl ⟨Option.map_eq_none_iff.1 h, rfl⟩
  | some u =>
    obtain ⟨t, rfl, ht⟩ := Option.map_eq_some_iff.1 h
    exact .inr ⟨t, u, rfl, rfl, ht⟩

theorem OfContent.any_getElem? {test : Token → Bool} (htest : OfContent test) {ts us : List Token}
    (h : ts.map Token.content = us.map Token.content) (n : Nat) :
    ts[n]?.any test = us[n]?.any test := by
  have hn : ts[n]?.map Token.content = us[n]?.map Token.content := by
    rw [← List.getElem?_map, ← List.getElem?_map, h]
  obtain ⟨hts, hus⟩ | ⟨t, u, hts, hus, hcontent⟩ := content_cases hn
  · rw [hts, hus]
  · rw [hts, hus]
    exact htest.eq hcontent

namespace Grammar

/-- Steps that come to the same at the same position of two lists of tokens that say the same. -/
abbrev InStep {α β : Type} (l l' : Listing) (R : α → β → Prop) (g : Grammar α) (g' : Grammar β) :
    Prop :=
  Lockstep (Abreast l l') SameError R g g'

variable {α β : Type} {l l' : Listing} {R : α → β → Prop}

section Steps

variable {test : Token → Bool} {kind : TokenKind} {what : Expected}

theorem inStep_unexpected (fault : Fault) : InStep l l' R (unexpected fault) (unexpected fault) := by
  intro c d h
  refine .error ?_ h
  rw [SameError, Error.unplaced, Error.unplaced, ParseError.unplaced, ParseError.unplaced]
  obtain ⟨p, rfl, rfl⟩ | ⟨p, t, u, rest, rest', rfl, rfl, ht, -⟩ := h.next
  · rfl
  · exact congrArg (fun t => Error.parse (.unexpected fault (some t))) (Token.unplaced_eq ht)

theorem inStep_expected (what : Expected) : InStep l l' R (expected what) (expected what) :=
  inStep_unexpected _

theorem inStep_exhausted (loop : Loop) : InStep l l' R (exhausted loop) (exhausted loop) :=
  .throw rfl

theorem inStep_check (ceiling : Ceiling) (value : Nat) :
    InStep l l' Eq (check ceiling value) (check ceiling value) := by
  intro c d h
  unfold check
  split
  · exact .ok rfl h
  · exact .error rfl h

theorem inStep_peek? :
    InStep l l' (fun t? u? => t?.map Token.content = u?.map Token.content) peek? peek? := by
  intro c d h
  refine .ok ?_ h
  obtain ⟨p, rfl, rfl⟩ | ⟨p, t, u, rest, rest', rfl, rfl, ht, -⟩ := h.next
  · rfl
  · exact congrArg some ht

theorem inStep_advance : InStep l l' Eq advance advance := by
  intro c d h
  refine .ok rfl ?_
  obtain ⟨p, rfl, rfl⟩ | ⟨p, t, u, rest, rest', rfl, rfl, -, hnext⟩ := h.next
  · exact h
  · exact hnext

theorem inStep_finish : InStep l l' Eq (modify Cursor.finish) (modify Cursor.finish) :=
  fun _ _ h => .ok rfl h.finish

theorem inStep_looksAt (n : Nat) (htest : OfContent test) :
    InStep l l' Eq (looksAt n test) (looksAt n test) :=
  fun _ _ h => .ok (htest.any_getElem? h.contents n) h

theorem inStep_isAt (kind : TokenKind) : InStep l l' Eq (isAt kind) (isAt kind) :=
  inStep_looksAt 0 (ofContent_kind (· == kind))

theorem inStep_accept? (htest : OfContent test) :
    InStep l l' (fun t? u? => t?.map Token.content = u?.map Token.content) (accept? test)
      (accept? test) := by
  intro c d h
  obtain ⟨p, rfl, rfl⟩ | ⟨p, t, u, rest, rest', rfl, rfl, ht, hnext⟩ := h.next
  · exact .ok rfl h
  · unfold accept?
    dsimp only
    rw [htest.eq ht]
    split_ifs
    · exact .ok (congrArg some ht) hnext
    · exact .ok rfl h

theorem inStep_eat (kind : TokenKind) : InStep l l' Eq (eat kind) (eat kind) :=
  ((inStep_accept? (ofContent_kind (· == kind))).mono fun t? u? h => by
    simpa using congrArg Option.isSome h).map

theorem inStep_require (htest : OfContent test) (what : Expected) :
    InStep l l' (fun t u => t.content = u.content) (require test what) (require test what) := by
  refine (inStep_accept? htest).bind fun t? u? h => ?_
  obtain ⟨rfl, rfl⟩ | ⟨t, u, rfl, rfl, hcontent⟩ := content_cases h
  · exact inStep_expected what
  · exact .pure hcontent

theorem inStep_expect (kind : TokenKind) (what : Expected) :
    InStep l l' (fun t u => t.content = u.content) (expect kind what) (expect kind what) :=
  inStep_require (ofContent_kind (· == kind)) what

theorem inStep_expectKeyword (k : Keyword) :
    InStep l l' Eq (expectKeyword k) (expectKeyword k) := (inStep_expect _ _).discard

theorem inStep_text (htest : OfContent test) (what : Expected) :
    InStep l l' Eq (Token.text <$> require test what) (Token.text <$> require test what) :=
  ((inStep_require htest what).mono fun _ _ h => (Prod.mk.inj h).2).map

theorem inStep_expectName (what : Expected) :
    InStep l l' Eq (expectName what) (expectName what) := inStep_text ofContent_isName what

theorem inStep_expectString (what : Expected) :
    InStep l l' Eq (expectString what) (expectString what) :=
  inStep_text (ofContent_kind (· == .string)) what

end Steps

section Runs

variable {stop : Token → Bool}

theorem inStep_skipRun (hstop : OfContent stop) (budget depth : Nat) :
    InStep l l' Eq (fun c => skipRun stop budget depth c.position c.rest)
      (fun c => skipRun stop budget depth c.position c.rest) := by
  intro c d h
  induction budget generalizing depth c d with
  | zero =>
    obtain ⟨p, rfl, rfl⟩ | ⟨p, t, u, rest, rest', rfl, rfl, -, -⟩ := h.next
    · exact .ok rfl h
    · exact .error rfl h
  | succ budget ih =>
    obtain ⟨p, rfl, rfl⟩ | ⟨p, t, u, rest, rest', rfl, rfl, ht, hnext⟩ := h.next
    · exact .ok rfl h
    · dsimp only
      rw [skipRun, skipRun, (ofContent_endsRun hstop).eq ht, nest_eq ht]
      split_ifs
      · exact .ok rfl h
      · exact ih _ _ _ hnext

theorem inStep_run (hstop : OfContent stop) : InStep l l' (SamePart l l') (run stop) (run stop) := by
  refine Lockstep.get.bind fun mark mark' hmark => ?_
  refine (inStep_skipRun hstop _ _).seq fun opened => ?_
  have hsince : InStep l l' (SamePart l l') (do return (← get).since mark)
      (do return (← get).since mark') :=
    Lockstep.get.bind fun c d h => .pure (hmark.since h)
  split_ifs
  · exact Lockstep.seq (α := Unit) (.throw rfl) fun _ => hsince
  · exact hsince

theorem inStep_captureExpression (hstop : OfContent stop) :
    InStep l l' (Option.Rel (SameText l l')) (captureExpression l.source stop)
      (captureExpression l'.source stop) := by
  refine (inStep_run hstop).bind fun ts us h => ?_
  cases ts with
  | nil =>
    obtain rfl : us = [] := List.map_eq_nil_iff.1 h.contents.symm
    exact .pure .none
  | cons t ts =>
    obtain ⟨u, us, rfl, -⟩ := List.map_eq_cons_iff.1 h.contents.symm
    exact .pure (.some h.sourceText)

theorem inStep_skipGroup (budget depth : Nat) :
    InStep l l' Eq (fun c => skipGroup budget depth c.position c.rest)
      (fun c => skipGroup budget depth c.position c.rest) := by
  intro c d h
  induction budget generalizing depth c d with
  | zero =>
    obtain ⟨p, rfl, rfl⟩ | ⟨p, t, u, rest, rest', rfl, rfl, -, hnext⟩ := h.next
    · exact .error rfl h
    · exact .error rfl hnext
  | succ budget ih =>
    obtain ⟨p, rfl, rfl⟩ | ⟨p, t, u, rest, rest', rfl, rfl, ht, hnext⟩ := h.next
    · exact .error rfl h
    · dsimp only
      rw [skipGroup, skipGroup, (Prod.mk.inj ht).1, nest_eq ht]
      split_ifs
      · exact .ok rfl hnext
      · exact ih _ _ _ hnext

theorem inStep_skipToClose : InStep l l' Eq skipToClose skipToClose := inStep_skipGroup _ 0

theorem inStep_skipBalanced : InStep l l' Eq skipBalanced skipBalanced :=
  (inStep_expect _ _).discard.seq fun _ => inStep_skipToClose

end Runs

section Names

variable {what : Expected}

theorem inStep_qualifiers (budget : Nat) (parts : List String) :
    InStep l l' Eq (qualifiers what budget parts) (qualifiers what budget parts) := by
  induction budget generalizing parts with
  | zero =>
    unfold qualifiers
    refine (inStep_eat _).seq fun dot => ?_
    cases dot with
    | true => exact inStep_exhausted _
    | false => exact .pure rfl
  | succ budget ih =>
    unfold qualifiers
    refine (inStep_eat _).seq fun dot => ?_
    cases dot with
    | true => exact (inStep_expectName what).seq fun name => ih _
    | false => exact .pure rfl

theorem inStep_qualifiedName (what : Expected) :
    InStep l l' Eq (qualifiedName what) (qualifiedName what) := by
  refine (inStep_expectName what).seq fun first => ?_
  refine (inStep_qualifiers _ _).seq fun parts => ?_
  split <;> exact .pure rfl

end Names

end Grammar

end TypedTables
