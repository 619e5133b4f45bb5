import TypedTables.Proofs.Grammar.Extent
import TypedTables.Proofs.Grammar.Reads
import TypedTables.Proofs.Grammar.Type
import TypedTables.Proofs.TypeExpr.Written

/-!
Types read back. The tokens that a type is written out as are read as that type; and each type that
has been read from a text, if only the names of elements in it were quoted, is read back.
-/

namespace TypedTables

open Lexeme

variable {ts us rest : List Token} {t : Token}

/-- Whether a token ends an item of a list. -/
def Token.endsItem (t : Token) : Bool := t.kind == .comma || t.kind == .closeParen

/-- An item of a list ends here. -/
def AtItemEnd (tokens : List Token) : Prop := tokens.head?.any Token.endsItem = true

theorem AtItemEnd.any_eq_false (h : AtItemEnd rest) {test : Token → Bool}
    (htest : ∀ t : Token, t.kind ∈ [.comma, .closeParen] → test t = false) :
    rest.head?.any test = false := by
  obtain ⟨t, ht, hends⟩ := (Option.any_eq_true _ _).1 h
  rw [ht]
  exact htest t (by simpa [Token.endsItem] using hends)

theorem AtItemEnd.not_kind (h : AtItemEnd rest) {kind : TokenKind}
    (hkind : kind ∉ [TokenKind.comma, .closeParen]) : rest.head?.any (·.kind == kind) = false :=
  h.any_eq_false fun t ht => by
    rw [beq_eq_false_iff_ne]
    rintro rfl
    exact hkind ht

theorem AtItemEnd.not_identifier (h : AtItemEnd rest) :
    rest.head?.any Token.isIdentifier = false := h.any_eq_false fun t ht => by
  simp only [List.mem_cons, List.not_mem_nil, or_false] at ht
  obtain ht | ht := ht <;> simp [Token.isIdentifier, ht]

theorem exists_of_content_cons {kind : TokenKind} {text : String}
    {more : List (TokenKind × String)} (h : ts.map Token.content = (kind, text) :: more) :
    ∃ t us, ts = t :: us ∧ t.kind = kind ∧ t.text = text ∧ us.map Token.content = more := by
  obtain ⟨t, us, rfl, ht, hus⟩ := List.map_eq_cons_iff.1 h
  obtain ⟨hkind, htext⟩ := Prod.mk.inj ht
  exact ⟨t, us, rfl, hkind, htext, hus⟩

theorem exists_of_content_singleton {kind : TokenKind} {text : String}
    (h : ts.map Token.content = [(kind, text)]) : ∃ t, ts = [t] ∧ t.kind = kind ∧ t.text = text := by
  obtain ⟨t, us, rfl, hkind, htext, hus⟩ := exists_of_content_cons h
  obtain rfl := List.map_eq_nil_iff.1 hus
  exact ⟨t, rfl, hkind, htext⟩

/-- What the tokens of a type are: its name, and its arguments in parentheses if it has any. -/
inductive TypeTokens : TypeExpr → List Token → Prop
  | plain {name t} : t.kind = .identifier → t.text = name → TypeTokens (.mk name []) [t]
  | args {name arg args t o us} : t.kind = .identifier → t.text = name → o.kind = .openParen →
      us.map Token.content = arg.contents ++ tailContents (TypeArg.allContents args) →
      TypeTokens (.mk name (arg :: args)) (t :: o :: us)

theorem typeTokens_of_contents {ty : TypeExpr} (hts : ts.map Token.content = ty.contents) :
    TypeTokens ty ts := by
  match ty with
  | .mk name [] =>
    obtain ⟨t, rfl, hkind, htext⟩ := exists_of_content_singleton hts
    exact .plain hkind htext
  | .mk name (arg :: args) =>
    obtain ⟨t, _, rfl, hkind, htext, hmore⟩ := exists_of_content_cons hts
    obtain ⟨o, us, rfl, ho, -, hus⟩ := exists_of_content_cons hmore
    exact .args hkind htext ho hus

/-- What an argument of a type begins with. -/
theorem TypeArg.head_contents (arg : TypeArg) : ∃ kind text more,
    arg.contents = (kind, text) :: more ∧ kind ∈ [.identifier, .number, .operator, .string] := by
  cases arg with
  | type ty =>
    match ty with
    | .mk name [] => exact ⟨_, _, _, rfl, by simp⟩
    | .mk name (arg :: args) => exact ⟨_, _, _, rfl, by simp⟩
  | number text =>
    rw [contents, signedContents]
    split <;> exact ⟨_, _, _, rfl, by simp⟩
  | string value => exact ⟨_, _, _, rfl, by simp⟩
  | member key value => exact ⟨_, _, _, rfl, by simp⟩

namespace Grammar

section Back

variable {fails : Prop} {inner : Grammar TypeExpr} {P : TypeExpr → Prop}

theorem reads_signedInteger {value : Int} (h : value.natAbs ≤ maxEnumValue)
    (hts : ts.map Token.content = signedContents (toString value)) :
    Reads fails signedInteger ts rest (· = value) := by
  have htext := decimal?_toString h
  rw [signedContents_toString] at hts
  split_ifs at hts with hneg
  · obtain ⟨minus, _, rfl, hkind, hsign, hts⟩ := exists_of_content_cons hts
    obtain ⟨t, rfl, ht, hn⟩ := exists_of_content_singleton hts
    have hminus : isMinus minus = true := by simp [isMinus, hkind, hsign]
    refine (Reads.accept? hminus).next_eq ?_
    refine (Reads.expect ht).last_eq ?_
    rw [hn, htext]
    exact .pure (by rw [Option.isSome_some, if_pos rfl]; omega)
  · obtain ⟨t, rfl, ht, hn⟩ := exists_of_content_singleton hts
    refine (Reads.accept?_none (by simp [isMinus, ht])).skip_eq ?_
    refine (Reads.expect ht).last_eq ?_
    rw [hn, htext]
    exact .pure (by rw [Option.isSome_none, if_neg (by decide)]; omega)

/-- Each type with the property is read from the tokens that it is written out as. -/
def ReadsBack (fails : Prop) (inner : Grammar TypeExpr) (P : TypeExpr → Prop) : Prop :=
  ∀ ty, P ty → ∀ ts rest, ts.map Token.content = ty.contents → AtItemEnd rest →
    Reads fails inner ts rest (· = ty)

theorem head_of_type {ty : TypeExpr} (hts : ts.map Token.content = ty.contents)
    (hrest : AtItemEnd rest) : ∃ t us, ts = t :: us ∧ t.kind = .identifier ∧
      (us ++ rest).head?.any Token.isIdentifier = false := by
  cases typeTokens_of_contents hts with
  | plain hkind => exact ⟨_, [], rfl, hkind, hrest.not_identifier⟩
  | args hkind _ ho => exact ⟨_, _, rfl, hkind, by simp [Token.isIdentifier, ho]⟩

theorem reads_typeArg (hinner : ReadsBack fails inner P) {arg : TypeArg} (h : arg.SpelledWith P)
    (hts : ts.map Token.content = arg.contents) (hrest : AtItemEnd rest) :
    Reads fails (typeArg inner) ts rest (· = arg) := by
  cases arg with
  | type ty =>
    obtain ⟨t, us, rfl, hkind, hnext⟩ := head_of_type hts hrest
    refine .peek? ?_
    simp only [List.cons_append, List.head?_cons, hkind, isMinus, Token.isName]
    refine .looksAt ?_
    rw [List.cons_append, List.getElem?_cons_succ, ← List.head?_eq_getElem?, hnext]
    exact (hinner ty h _ rest hts hrest).last fun ty' hty => .pure (congrArg _ hty)
  | number text =>
    obtain hnumber | ⟨number, rfl, hnumber⟩ := signed_cases h
    · rw [TypeArg.contents, signedContents_of_isNumber hnumber] at hts
      obtain ⟨t, rfl, hkind, htext⟩ := exists_of_content_singleton hts
      refine .peek? ?_
      simp only [List.cons_append, List.head?_cons, hkind]
      refine Reads.advance.last fun _ _ => ?_
      rw [htext]
      exact .pure rfl
    · rw [TypeArg.contents, signedContents_minus] at hts
      obtain ⟨minus, us, rfl, hkind, hsign, hmore⟩ := exists_of_content_cons hts
      obtain ⟨t, rfl, ht, htext⟩ := exists_of_content_singleton hmore
      refine .peek? ?_
      simp only [List.cons_append, List.head?_cons, hkind, hsign, isMinus]
      refine Reads.advance.next fun _ _ => ?_
      refine (Reads.expect ht).last_eq ?_
      rw [htext]
      exact .pure rfl
  | string value =>
    obtain ⟨t, rfl, hkind, htext⟩ := exists_of_content_singleton hts
    refine .peek? ?_
    simp only [List.cons_append, List.head?_cons, hkind]
    refine Reads.advance.last fun _ _ => ?_
    refine (Reads.eat_not (hrest.not_kind (by decide))).skip_eq ?_
    rw [htext]
    exact .pure rfl
  | member key value =>
    obtain ⟨t, _, rfl, hkind, htext, hmore⟩ := exists_of_content_cons hts
    obtain ⟨equals, us, rfl, hequals, -, hmore⟩ := exists_of_content_cons hmore
    refine .peek? ?_
    simp only [List.cons_append, List.head?_cons, hkind]
    refine Reads.advance.next fun _ _ => ?_
    refine (Reads.eat hequals).next_eq ?_
    refine (reads_signedInteger h hmore).last_eq ?_
    rw [htext]
    exact .pure rfl

theorem Accepts.mono {name : String} {m n : Nat} (h : Accepts name n) (hle : m ≤ n) :
    Accepts name m := fun ceiling hc => hle.trans (h ceiling hc)

theorem reads_checkArguments {name : String} {args : Array TypeArg}
    (hfails : ¬Accepts name args.size → fails) :
    Reads fails (checkArguments name args) [] rest fun _ => True := by
  unfold checkArguments
  unfold Accepts at hfails
  cases hceiling : argumentCeiling? name with
  | none => exact .pure trivial
  | some ceiling =>
    by_cases hle : args.size ≤ ceiling.limit
    · exact .check hle
    · intro p
      dsimp only [check, Ceiling.check]
      rw [if_pos (Nat.lt_of_not_le hle)]
      exact hfails fun hall => hle (hall ceiling hceiling)

section Args

variable {name : String} {arg : TypeArg} {budget : Nat} {before : Array TypeArg}

theorem reads_typeArgs_last {close : Token} (hinner : ReadsBack fails inner P)
    (h : arg.SpelledWith P) (hcount : Accepts name (before.size + 1))
    (hts : ts.map Token.content = arg.contents) (hclose : close.kind = .closeParen) :
    Reads fails (typeArgs inner name (budget + 1) before) (ts ++ [close]) rest
      (· = before.push arg) := by
  have hend : AtItemEnd ([close] ++ rest) := by simp [AtItemEnd, Token.endsItem, hclose]
  refine (reads_typeArg hinner h hts hend).bind_eq ?_
  refine (reads_checkArguments fun h => h.elim (by rwa [Array.size_push])).skip fun _ _ => ?_
  refine (Reads.eat_not (by simp [hclose])).skip_eq ?_
  exact (Reads.discard_expect hclose).last fun _ _ => .pure rfl

theorem reads_typeArgs_more {comma : Token} {Q : Array TypeArg → Prop}
    (hinner : ReadsBack fails inner P) (h : arg.SpelledWith P)
    (hcount : Accepts name (before.size + 1)) (hts : ts.map Token.content = arg.contents)
    (hcomma : comma.kind = .comma)
    (hmore : Reads fails (typeArgs inner name budget (before.push arg)) us rest Q) :
    Reads fails (typeArgs inner name (budget + 1) before) (ts ++ comma :: us) rest Q := by
  have hend : AtItemEnd (comma :: us ++ rest) := by simp [AtItemEnd, Token.endsItem, hcomma]
  refine (reads_typeArg hinner h hts hend).bind_eq ?_
  refine (reads_checkArguments fun h => h.elim (by rwa [Array.size_push])).skip fun _ _ => ?_
  refine (Reads.eat hcomma).next_eq ?_
  exact hmore

theorem reads_typeArgs {args : List TypeArg} (hinner : ReadsBack fails inner P)
    (h : ∀ a ∈ arg :: args, a.SpelledWith P) (hbudget : args.length < budget)
    (hcount : Accepts name (before.size + (args.length + 1)))
    (hts : ts.map Token.content = arg.contents ++ tailContents (TypeArg.allContents args)) :
    Reads fails (typeArgs inner name budget before) ts rest
      (·.toList = before.toList ++ arg :: args) := by
  induction args generalizing arg budget before ts with
  | nil =>
    obtain ⟨us, vs, rfl, hus, hvs⟩ := List.map_eq_append_iff.1 hts
    obtain ⟨close, rfl, hclose, -⟩ := exists_of_content_singleton hvs
    obtain ⟨budget, rfl⟩ := Nat.exists_eq_add_one_of_ne_zero (Nat.ne_zero_of_lt hbudget)
    refine (reads_typeArgs_last hinner (h arg (by simp)) hcount hus hclose).mono fun _ ha => ?_
    rw [ha, Array.toList_push]
  | cons next args ih =>
    obtain ⟨us, vs, rfl, hus, hvs⟩ := List.map_eq_append_iff.1 hts
    obtain ⟨comma, vs, rfl, hcomma, -, hmore⟩ := exists_of_content_cons hvs
    obtain ⟨budget, rfl⟩ := Nat.exists_eq_add_one_of_ne_zero (Nat.ne_zero_of_lt hbudget)
    have hlater : Accepts name ((before.push arg).size + (args.length + 1)) := by
      rwa [Array.size_push, Nat.add_assoc, Nat.add_comm 1]
    refine reads_typeArgs_more hinner (h arg (by simp)) (hcount.mono (by simp)) hus hcomma ?_
    have hargs := ih (List.forall_mem_cons.1 h).2 (Nat.lt_of_succ_lt_succ hbudget) hlater hmore
    refine hargs.mono fun _ ha => ?_
    rw [ha]
    simp

theorem not_close_of_arg {more : List (TokenKind × String)}
    (hts : ts.map Token.content = arg.contents ++ more) :
    (ts ++ rest).head?.any (·.kind == .closeParen) = false := by
  obtain ⟨kind, text, behind, harg, hkind⟩ := arg.head_contents
  rw [harg] at hts
  obtain ⟨t, us, rfl, rfl, -, -⟩ := exists_of_content_cons hts
  simp only [List.cons_append, List.head?_cons, Option.any_some, beq_eq_false_iff_ne]
  intro hclose
  rw [hclose] at hkind
  contradiction

end Args

/-- A type that is spelled out is read from the tokens that it is written out as. -/
theorem reads_typeExpr (room : Nat) : ReadsBack fails (typeExpr room) (TypeExpr.Spelled room) := by
  induction room with
  | zero => exact fun ty h => h.elim
  | succ room ih =>
    intro ty h ts rest hts hrest
    cases typeTokens_of_contents hts with
    | @plain name t hkind htext =>
      have hcanonical : canonicalName name = name := h.name.canonical
      refine (Reads.require (by simp [Token.isIdentifier, hkind])).last_eq ?_
      rw [htext, hcanonical]
      refine (Reads.eat_not (hrest.not_kind (by decide))).skip_eq ?_
      exact .pure rfl
    | @args name arg args t o us hkind htext ho hus =>
      have hcanonical : canonicalName name = name := h.name.canonical
      have hcount : Accepts name (0 + (args.length + 1)) := by simpa using h.count
      have ht : t.isIdentifier = true := by simp [Token.isIdentifier, hkind]
      refine (Reads.require ht).next_eq ?_
      rw [htext, hcanonical]
      refine (Reads.eat ho).next_eq ?_
      refine (Reads.eat_not (not_close_of_arg hus)).skip_eq ?_
      refine (reads_typeArgs ih h.args h.budget hcount hus).last fun all hall => ?_
      rw [hall]
      exact .pure rfl

end Back

end Grammar

/-- Each quoted identifier stands before an identifier that is not quoted: it is the name of an
element, which a type does not keep. -/
def namesUnquoted : List Token → Bool
  | [] => true
  | t :: ts =>
    (t.kind != .quotedIdentifier || ts.head?.any (·.kind == .identifier)) && namesUnquoted ts

/-- Tokens of a text in which only the names of elements are quoted. -/
structure Unquoted (ts : List Token) : Prop where
  lexed : ∀ t ∈ ts, IsLexed t.content
  names : namesUnquoted ts = true

namespace Unquoted

theorem tail (h : Unquoted (t :: ts)) : Unquoted ts :=
  ⟨(List.forall_mem_cons.1 h.lexed).2, Bool.and_elim_right h.names⟩

theorem right (h : Unquoted (ts ++ us)) : Unquoted us := by
  induction ts with
  | nil => exact h
  | cons t ts ih => exact ih h.tail

theorem left (h : Unquoted (ts ++ us)) (hus : us.head?.any (·.kind == .identifier) = false) :
    Unquoted ts := by
  refine ⟨fun t ht => h.lexed t (List.mem_append_left us ht), ?_⟩
  induction ts with
  | nil => rfl
  | cons t ts ih =>
    have hnames := h.names
    rw [List.cons_append, namesUnquoted, Bool.and_eq_true] at hnames
    rw [namesUnquoted, ih h.tail, Bool.and_true]
    cases ts with
    | nil => simpa [hus] using hnames.1
    | cons u ts => exact hnames.1

theorem head (h : Unquoted (t :: ts)) : IsLexed t.content := h.lexed t (by simp)

end Unquoted

section Names

theorem canonicalName_cases (raw : String) : canonicalName raw = raw ∨
    canonicalName raw ∈ knownTypeNames.map Prod.snd := by
  unfold canonicalName
  cases h : knownTypeNames.lookup (Text.lower raw) with
  | none => exact .inl rfl
  | some name =>
    obtain ⟨l, l', heq, -⟩ := List.lookup_eq_some_iff.1 h
    refine .inr (List.mem_map.2 ⟨(Text.lower raw, name), ?_, rfl⟩)
    rw [heq]
    simp

theorem isTypeName_canonicalName {raw : String} (hword : isWord raw = true)
    (hkind : wordKind raw = .identifier) : IsTypeName (canonicalName raw) := by
  obtain h | h := canonicalName_cases raw
  · rw [h]
    exact ⟨hword, hkind, h⟩
  · have all : ∀ name ∈ knownTypeNames.map Prod.snd, IsTypeName name := by decide +kernel
    exact all _ h

/-- Behind the name of a type no identifier stands, so the name is not quoted. -/
theorem isTypeName_of_read (h : Unquoted (t :: ts)) (ht : t.isIdentifier = true)
    (hts : ts.head?.any (·.kind == .identifier) = false) : IsTypeName (canonicalName t.text) := by
  have hunquoted : t.kind ≠ .quotedIdentifier := by
    intro hquoted
    have hnames := h.names
    simp [namesUnquoted, hquoted, hts] at hnames
  have hkind : t.kind = .identifier := by simpa [Token.isIdentifier, hunquoted] using ht
  obtain ⟨hword, hkind⟩ := h.head.word hkind
  exact isTypeName_canonicalName hword hkind

end Names

namespace Grammar

section Read

variable {α : Type} {inner : Grammar TypeExpr} {P : TypeExpr → Prop} {c : Cursor}

/-- What is read has the property if only names of elements were quoted. -/
def Spells (g : Grammar α) (P : α → Prop) : Prop :=
  ∀ c, Moves c g fun a taken => Unquoted taken → P a

theorem Moves.and_yields {g : Grammar α} {T : α → List Token → Prop} {Q : α → Prop}
    (h : Moves c g T) (hg : Yields g Q) : Moves c g fun a taken => T a taken ∧ Q a := by
  unfold Moves at h ⊢
  cases ha : g c with
  | ok a c' =>
    rw [ha] at h
    obtain ⟨taken, hmoved, htaken⟩ := h
    exact ⟨taken, hmoved, htaken, hg c a c' ha⟩
  | error e c' =>
    rw [ha] at h
    exact h

theorem yields_signedInteger : Yields signedInteger (·.natAbs ≤ maxEnumValue) := by
  refine .seq fun minus => .seq fun t => ?_
  cases h : decimal? t.text.toList with
  | none => exact .error
  | some n =>
    refine .pure ?_
    split <;> simpa using le_of_decimal? h

theorem spells_typeArg (h : Spells inner P) : Spells (typeArg inner) (·.SpelledWith P) := by
  intro c
  refine .peek? ?_
  cases hpeek : c.peek? with
  | none => exact .unexpected
  | some t =>
    dsimp only
    split_ifs with hstring hnumber hminus hname
    · refine (moves_advance hpeek).bind fun _ taken c₁ _ _ => ?_
      refine (moves_eat _).bind fun equals us c₂ _ _ => ?_
      split
      · have hvalue := (takes_signedInteger c₂).and_yields yields_signedInteger
        exact hvalue.bind fun value vs c₃ _ hv => .pure fun _ => hv.2
      · exact .pure fun _ => trivial
    · have hkind : t.kind = .number := by simpa using hnumber
      refine (moves_advance hpeek).bind fun _ taken c₁ _ h => .pure fun hlexed => ?_
      obtain rfl := h
      exact isSigned_of_isNumber (hlexed.head.number hkind)
    · refine (moves_advance hpeek).bind fun _ taken c₁ _ _ => ?_
      refine (moves_expect _ _).bind fun number us c₂ _ h => .pure fun hlexed => ?_
      obtain ⟨rfl, hkind⟩ := h
      exact isSigned_minus (hlexed.right.head.number hkind)
    · have htype (c : Cursor) : Moves c (do return TypeArg.type (← inner)) fun arg taken =>
          Unquoted taken → arg.SpelledWith P :=
        (h c).bind fun ty taken c₁ _ hty => .pure fun hlexed => hty (by simpa using hlexed)
      refine .looksAt ?_
      split
      · refine (moves_advance hpeek).bind fun _ taken c₁ _ _ => ?_
        exact (htype c₁).mono fun arg us harg hlexed => harg hlexed.right
      · exact htype c
    · exact .unexpected

theorem yields_size_typeArgs (name : String) (budget : Nat) (args : Array TypeArg) :
    Yields (typeArgs inner name budget args) fun all => all.size ≤ args.size + budget := by
  induction budget generalizing args with
  | zero => exact .error
  | succ budget ih =>
    refine .seq fun arg => .seq fun _ => .seq fun comma => ?_
    split
    · exact (ih _).mono fun all hall => by simpa [Nat.add_assoc, Nat.add_comm 1] using hall
    · exact .seq fun _ => .pure (by simp)

theorem moves_checkArguments (name : String) (args : Array TypeArg) :
    Moves c (checkArguments name args) fun _ taken => taken = [] := by
  unfold checkArguments
  split
  · exact .check
  · exact .pure rfl

/-- Of the arguments before the ones that are read, whose tokens lie behind, nothing is said. -/
theorem spells_typeArgs (h : Spells inner P) (name : String) (budget : Nat)
    (args : Array TypeArg) :
    Spells (typeArgs inner name budget args) fun all =>
      ∀ arg ∈ all, arg ∈ args ∨ arg.SpelledWith P := by
  induction budget generalizing args with
  | zero => exact fun c => .exhausted
  | succ budget ih =>
    intro c
    refine (spells_typeArg h c).bind fun arg ts c₁ _ harg => ?_
    refine (moves_checkArguments _ _).bind fun _ us c₂ _ hus => ?_
    obtain rfl := hus
    have hpush (harg : arg.SpelledWith P) : ∀ a ∈ args.push arg, a ∈ args ∨ a.SpelledWith P :=
      fun a ha => (Array.mem_push.1 ha).imp_right fun h => by rwa [h]
    refine (moves_eat _).bind fun comma us c₃ _ hcomma => ?_
    obtain ⟨rfl, t, rfl, ht⟩ | ⟨rfl, rfl⟩ := hcomma
    · refine (ih (args.push arg) c₃).mono fun all more hall hread a ha => ?_
      have hmore : Unquoted more := by
        rw [List.nil_append] at hread
        exact hread.right.tail
      exact (hall hmore a ha).elim (hpush (harg (hread.left (by simp [ht]))) a) .inr
    · refine (moves_discard _ _).bind fun _ more c₄ _ hclose => .pure fun hread => ?_
      obtain ⟨t, rfl, ht⟩ := hclose
      exact hpush (harg (hread.left (by simp [ht])))

/-- How many arguments are read: as many as the type may have, and as the loop has steps for. -/
theorem yields_count_typeArgs (name : String) (budget : Nat) :
    Yields (typeArgs inner name budget #[]) fun all =>
      Accepts name all.size ∧ all.size ≤ budget := by
  intro c all c' h
  have hany : Yields inner fun _ => True := fun _ _ _ _ => trivial
  refine ⟨(yields_typeArgs hany name budget #[] (by simp) c all c' h).2, ?_⟩
  simpa using yields_size_typeArgs name budget #[] c all c' h

/-- A type that has been read is spelled out. -/
theorem spells_typeExpr (room : Nat) : Spells (typeExpr room) (TypeExpr.Spelled room) := by
  induction room with
  | zero => exact fun c => .error (Error.pointsInto_of_fatal rfl c.rest)
  | succ room ih =>
    intro c
    refine (moves_require _ _).bind fun t _ c₁ _ h => ?_
    obtain ⟨rfl, ht⟩ := h
    refine (moves_eat _).bind fun opened us c₂ _ hopened => ?_
    obtain ⟨rfl, o, rfl, ho⟩ | ⟨rfl, rfl⟩ := hopened
    · have hname {more : List Token} (hread : Unquoted (t :: o :: more)) :
          IsTypeName (canonicalName t.text) := isTypeName_of_read hread ht (by simp [ho])
      refine (moves_eat _).bind fun closed vs c₃ _ hclosed => ?_
      obtain ⟨rfl, close, rfl, -⟩ | ⟨rfl, rfl⟩ := hclosed
      · exact .pure fun hread => TypeExpr.spelled_plain (hname hread) room
      · refine ((spells_typeArgs ih _ _ #[] c₃).and_yields (yields_count_typeArgs _ _)).bind
          fun args more c₄ _ h => .pure fun hread => ?_
        obtain ⟨hargs, hcount, hbudget⟩ := h
        have hmore : Unquoted more := by
          rw [List.nil_append, List.append_nil] at hread
          exact hread.tail.tail
        refine ⟨hname hread, hbudget, hcount, fun arg harg => ?_⟩
        exact (hargs hmore arg (Array.mem_toList_iff.1 harg)).resolve_left (by simp)
    · exact .pure fun hread => TypeExpr.spelled_plain (isTypeName_of_read hread ht rfl) room

end Read

end Grammar

section Texts

/-- A type that is read somewhere in a text, in which no name of a type is quoted. -/
def TypeExpr.IsUnquoted (ty : TypeExpr) : Prop :=
  ∃ source c c', c.rest <:+ tokenize source ∧ Grammar.columnType c = .ok ty c' ∧
    namesUnquoted (c'.since c) = true

theorem namesUnquoted_of_forall (h : ∀ t ∈ ts, t.kind ≠ .quotedIdentifier) :
    namesUnquoted ts = true := by
  induction ts with
  | nil => rfl
  | cons t ts ih =>
    obtain ⟨ht, hts⟩ := List.forall_mem_cons.1 h
    simp [namesUnquoted, ht, ih hts]

theorem not_quoted_signed (text : String) :
    ∀ content ∈ signedContents text, content.1 ≠ .quotedIdentifier := by
  unfold signedContents
  split <;> simp

mutual

theorem TypeExpr.not_quoted : (ty : TypeExpr) →
    ∀ content ∈ ty.contents, content.1 ≠ .quotedIdentifier
  | .mk name [] => by simp [TypeExpr.contents]
  | .mk name (arg :: args) => by
    have harg := arg.not_quoted
    have hargs := TypeArg.tail_not_quoted args
    simp only [TypeExpr.contents, List.mem_cons, List.mem_append]
    rintro content (rfl | rfl | h | h)
    exacts [nofun, nofun, harg content h, hargs content h]

theorem TypeArg.not_quoted : (arg : TypeArg) →
    ∀ content ∈ arg.contents, content.1 ≠ .quotedIdentifier
  | .type ty => ty.not_quoted
  | .number text => not_quoted_signed text
  | .string value => by simp [TypeArg.contents]
  | .member key value => by
    have hvalue := not_quoted_signed (toString value)
    simp only [TypeArg.contents, List.mem_cons]
    rintro content (rfl | rfl | h)
    exacts [nofun, nofun, hvalue content h]

theorem TypeArg.tail_not_quoted : (args : List TypeArg) →
    ∀ content ∈ tailContents (TypeArg.allContents args), content.1 ≠ .quotedIdentifier
  | [] => by simp [TypeArg.allContents, tailContents]
  | arg :: args => by
    have harg := arg.not_quoted
    have hargs := TypeArg.tail_not_quoted args
    simp only [TypeArg.allContents, tailContents, List.mem_cons, List.mem_append]
    rintro content (rfl | h | h)
    exacts [nofun, harg content h, hargs content h]

end

/-- The types that are read, with no name quoted, are those that are spelled out. -/
theorem TypeExpr.isUnquoted_iff {ty : TypeExpr} : ty.IsUnquoted ↔ ty.Spelled maxTypeDepth := by
  constructor
  · rintro ⟨source, c, c', hsource, hread, hnames⟩
    obtain ⟨taken, hmoved, hty⟩ := (Grammar.spells_typeExpr maxTypeDepth c).of_ok hread
    rw [hmoved.since] at hnames
    refine hty ⟨fun t ht => isLexed_tokenize (hsource.mem ?_), hnames⟩
    rw [hmoved.rest]
    exact List.mem_append_left _ ht
  · intro h
    have hend : EndsItem [','] := ⟨',', [], rfl, by simp⟩
    have hcontents : (tokenize (ty.display ++ ",")).map Token.content =
        ty.contents ++ [(.comma, ",")] := by
      rw [map_content_tokenize, String.toList_append]
      refine (written_type h _ hend).trans ?_
      rw [contents_symbol (by decide) rfl, contents_nil]
    obtain ⟨ts, us, hsource, hts, hus⟩ := List.map_eq_append_iff.1 hcontents
    have hrest : AtItemEnd us := by
      obtain ⟨comma, more, rfl, hcomma, -, -⟩ := exists_of_content_cons hus
      simp [AtItemEnd, Token.endsItem, hcomma]
    obtain ⟨_, c', hread, hbehind, heq⟩ :=
      (Grammar.reads_typeExpr maxTypeDepth ty h ts us hts hrest).exists_ok 0
    rw [heq] at hread
    obtain ⟨taken, hmoved, -⟩ := (Grammar.takes_typeExpr maxTypeDepth _).of_ok hread
    obtain rfl : ts = taken := List.append_cancel_right (hbehind ▸ hmoved.rest)
    refine ⟨_, _, c', by rw [hsource], hread, ?_⟩
    rw [hmoved.since]
    refine namesUnquoted_of_forall fun t ht => ty.not_quoted t.content ?_
    rw [← hts]
    exact List.mem_map_of_mem ht

instance (ty : TypeExpr) : Decidable ty.IsUnquoted :=
  decidable_of_iff _ TypeExpr.isUnquoted_iff.symm

end Texts

end TypedTables
