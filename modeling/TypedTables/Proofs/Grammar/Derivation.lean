import TypedTables.Proofs.Grammar.Spelled

/-!
The grammar of types, apart from how they are read. The tokens that are read as a type are those
that derive it, and an error that is not about the tokens comes from a ceiling.
-/

namespace TypedTables.Grammar

section Numerals

/-- A text of digits, and the value that they have. -/
structure IsNumeral (text : String) (value : Nat) : Prop where
  nonempty : text.toList ≠ []
  digits : ∀ d ∈ text.toList, d.isDigit = true
  eq : value = Nat.ofDigitChars 10 text.toList 0
  le : value ≤ maxEnumValue

theorem foldl_decimalStep_none (digits : List Char) : digits.foldl decimalStep none = none := by
  induction digits with
  | nil => rfl
  | cons c digits ih => exact ih

theorem of_foldl_decimalStep {digits : List Char} {value n : Nat}
    (h : digits.foldl decimalStep (some value) = some n) :
    (∀ d ∈ digits, d.isDigit = true) ∧ n = Nat.ofDigitChars 10 digits value := by
  induction digits generalizing value with
  | nil => exact ⟨nofun, (Option.some.inj h).symm⟩
  | cons d digits ih =>
    rw [List.foldl_cons] at h
    cases hstep : decimalStep (some value) d with
    | none =>
      rw [hstep, foldl_decimalStep_none] at h
      contradiction
    | some next =>
      rw [hstep] at h
      obtain ⟨hdigits, rfl⟩ := ih h
      simp only [decimalStep, Option.bind_eq_bind, Option.bind_some] at hstep
      split_ifs at hstep with hd
      cases hstep
      exact ⟨List.forall_mem_cons.2 ⟨Bool.and_elim_left hd, hdigits⟩,
        (Nat.ofDigitChars_cons).symm⟩

theorem decimal?_eq_some_iff {text : String} {value : Nat} :
    decimal? text.toList = some value ↔ IsNumeral text value := by
  constructor
  · intro h
    have hne : text.toList ≠ [] := by
      intro hnil
      rw [hnil] at h
      contradiction
    rw [decimal?_eq hne] at h
    obtain ⟨hdigits, hvalue⟩ := of_foldl_decimalStep h
    rw [← decimal?_eq hne] at h
    exact ⟨hne, hdigits, hvalue, le_of_decimal? h⟩
  · rintro ⟨hne, hdigits, rfl, hle⟩
    rw [decimal?_eq hne, foldl_decimalStep hdigits 0 hle]

end Numerals

section Derivations

/-- A numeral, perhaps with a minus before it. -/
inductive IsInteger : List Token → Int → Prop
  | plain {t value} : t.kind = .number → IsNumeral t.text value → IsInteger [t] value
  | minus {minus t value} : isMinus minus = true → t.kind = .number → IsNumeral t.text value →
      IsInteger [minus, t] (-value)

mutual

/-- The tokens, with `rest` behind them, derive the type. A parenthesis behind the name opens the
list of its arguments. -/
inductive IsType : (tokens rest : List Token) → TypeExpr → Prop
  | plain {t rest} : t.isIdentifier = true → rest.head?.any (·.kind == .openParen) = false →
      IsType [t] rest (.plain (canonicalName t.text))
  | empty {t o close rest} : t.isIdentifier = true → o.kind = .openParen →
      close.kind = .closeParen → IsType [t, o, close] rest (.plain (canonicalName t.text))
  | list {t o ts rest args} : t.isIdentifier = true → o.kind = .openParen → AreArgs ts rest args →
      IsType (t :: o :: ts) rest (.mk (canonicalName t.text) args)

/-- Arguments with commas between them, and the parenthesis behind them. -/
inductive AreArgs : (tokens rest : List Token) → List TypeArg → Prop
  | last {ts close rest arg} : IsArg ts (close :: rest) arg → close.kind = .closeParen →
      AreArgs (ts ++ [close]) rest [arg]
  | more {ts comma us rest arg args} : IsArg ts (comma :: (us ++ rest)) arg →
      comma.kind = .comma → AreArgs us rest args → AreArgs (ts ++ comma :: us) rest (arg :: args)

/-- An identifier behind a name says that the name is that of an element. -/
inductive IsArg : (tokens rest : List Token) → TypeArg → Prop
  | member {key equals ts rest value} : key.kind = .string → equals.kind = .equals →
      IsInteger ts value → IsArg (key :: equals :: ts) rest (.member key.text value)
  | string {t rest} : t.kind = .string → rest.head?.any (·.kind == .equals) = false →
      IsArg [t] rest (.string t.text)
  | number {t rest} : t.kind = .number → IsArg [t] rest (.number t.text)
  | negative {minus t rest} : isMinus minus = true → t.kind = .number →
      IsArg [minus, t] rest (.number ("-" ++ t.text))
  | type {ts rest ty} : (ts ++ rest)[1]?.any Token.isIdentifier = false → IsType ts rest ty →
      IsArg ts rest (.type ty)
  | named {name ts rest ty} : name.isName = true → IsType ts rest ty →
      IsArg (name :: ts) rest (.type ty)

end

mutual

/-- A type that begins with these tokens, and may be nested `room` levels deep, has more levels, or
more arguments, than may be read. -/
inductive Overruns : (room : Nat) → (tokens : List Token) → Prop
  | depth {ts} : Overruns 0 ts
  | args {room t o ts} : t.isIdentifier = true → o.kind = .openParen →
      ts.head?.any (·.kind == .closeParen) = false →
      ArgsOverrun room (canonicalName t.text) 0 ts → Overruns (room + 1) (t :: o :: ts)

/-- Of a list of arguments, `count` have been read before these tokens. -/
inductive ArgsOverrun : (room : Nat) → (name : String) → (count : Nat) → (tokens : List Token) → Prop
  | steps {room name count ts} : (Ceiling.steps .typeArguments).limit ≤ count →
      ArgsOverrun room name count ts
  | arg {room name count ts} : ArgOverruns room ts → ArgsOverrun room name count ts
  | count {room name count ts rest arg} : IsArg ts rest arg → ¬Accepts name (count + 1) →
      ArgsOverrun room name count (ts ++ rest)
  | later {room name count ts comma rest arg} : IsArg ts (comma :: rest) arg →
      comma.kind = .comma → ArgsOverrun room name (count + 1) rest →
      ArgsOverrun room name count (ts ++ comma :: rest)

inductive ArgOverruns : (room : Nat) → (tokens : List Token) → Prop
  | type {room t ts} : t.isName = true → ts.head?.any Token.isIdentifier = false →
      Overruns room (t :: ts) → ArgOverruns room (t :: ts)
  | named {room name ts} : name.isName = true → ts.head?.any Token.isIdentifier = true →
      Overruns room ts → ArgOverruns room (name :: ts)

end

end Derivations

variable {α β : Type} {c : Cursor} {t : Token} {ts us rest : List Token}

section Ends

variable {ends ends' : Prop} {g : Grammar α} {f : α → Grammar β}
  {P : α → List Token → List Token → Prop} {Q : β → List Token → List Token → Prop}

/-- What a step that started at `c` comes to: a result that goes with the tokens taken and those
behind them, or an error, which is about the tokens unless `ends` holds. -/
def Ends (ends : Prop) (c : Cursor) (g : Grammar α) (P : α → List Token → List Token → Prop) :
    Prop :=
  match g c with
  | .ok a c₁ => ∃ taken, c.Moved taken c₁ ∧ P a taken c₁.rest
  | .error e _ => e.isRecoverable = false → ends

namespace Ends

theorem of_ok (h : Ends ends c g P) {a : α} {c₁ : Cursor} (ha : g c = .ok a c₁) :
    ∃ taken, c.Moved taken c₁ ∧ P a taken c₁.rest := by
  unfold Ends at h
  rwa [ha] at h

theorem of_error (h : Ends ends c g P) {e : Error} {c₁ : Cursor} (he : g c = .error e c₁)
    (hfatal : e.isRecoverable = false) : ends := by
  unfold Ends at h
  rw [he] at h
  exact h hfatal

theorem weaken (h : Ends ends c g P) (hends : ends → ends') : Ends ends' c g P := by
  unfold Ends at h ⊢
  cases hg : g c with
  | ok a c₁ =>
    rw [hg] at h
    exact h
  | error e c₁ =>
    rw [hg] at h
    exact fun hfatal => hends (h hfatal)

theorem pure {a : α} (h : P a [] c.rest) : Ends ends c (pure a) P := ⟨[], .refl c, h⟩

theorem unexpected {fault : Fault} : Ends ends c (unexpected fault) P := nofun

theorem peek? {f : Option Token → Grammar β} (h : Ends ends c (f c.peek?) Q) :
    Ends ends c (peek? >>= f) Q := h

theorem looksAt {n : Nat} {test : Token → Bool} {f : Bool → Grammar β}
    (h : Ends ends c (f (c.rest[n]?.any test)) Q) : Ends ends c (looksAt n test >>= f) Q := h

theorem parse {cause : ParseError} : Ends ends c (throw (.parse cause) : Grammar α) P := nofun

theorem bind (hg : Ends ends c g P) (hf : ∀ a taken c₁, c.Moved taken c₁ → P a taken c₁.rest →
    Ends ends c₁ (f a) fun b more rest => Q b (taken ++ more) rest) :
    Ends ends c (g >>= f) Q := by
  change match EStateM.bind g f c with
    | .ok b c₂ => ∃ taken, c.Moved taken c₂ ∧ Q b taken c₂.rest
    | .error e _ => e.isRecoverable = false → ends
  unfold Ends at hg
  rw [EStateM.bind]
  cases hc : g c with
  | ok a c₁ =>
    rw [hc] at hg
    obtain ⟨taken, hmoved, ha⟩ := hg
    have hb := hf a taken c₁ hmoved ha
    unfold Ends at hb
    dsimp only
    cases hb' : f a c₁ with
    | ok b c₂ =>
      rw [hb'] at hb
      obtain ⟨more, hmore, hb⟩ := hb
      exact ⟨taken ++ more, hmoved.trans hmore, hb⟩
    | error e c₂ =>
      rw [hb'] at hb
      exact hb
  | error e c₁ =>
    rw [hc] at hg
    exact hg

theorem map {f : α → β} (h : Ends ends c g fun a taken rest => Q (f a) taken rest) :
    Ends ends c (f <$> g) Q := by
  rw [← bind_pure_comp]
  exact h.bind fun a taken c₁ _ ha => .pure (by rwa [List.append_nil])

theorem mono {P' : α → List Token → List Token → Prop} (h : Ends ends c g P)
    (hP : ∀ a taken rest, c.rest = taken ++ rest → P a taken rest → P' a taken rest) :
    Ends ends c g P' := by
  unfold Ends at h ⊢
  cases hg : g c with
  | ok a c₁ =>
    rw [hg] at h
    obtain ⟨taken, hmoved, ha⟩ := h
    exact ⟨taken, hmoved, hP a taken _ hmoved.rest ha⟩
  | error e c₁ =>
    rw [hg] at h
    exact h

theorem advance (h : c.peek? = some t) :
    Ends ends c advance fun _ taken _ => taken = [t] := ⟨[t], Cursor.moved_next h, rfl⟩

theorem accept? (test : Token → Bool) : Ends ends c (accept? test) fun t? taken rest =>
    (∃ t, t? = some t ∧ taken = [t] ∧ test t = true) ∨
      (t? = none ∧ taken = [] ∧ rest.head?.any test = false) := by
  obtain ⟨position, rest⟩ := c
  unfold Ends Grammar.accept?
  cases rest with
  | nil => exact ⟨[], .refl _, .inr ⟨rfl, rfl, rfl⟩⟩
  | cons t rest =>
    dsimp only
    split_ifs with ht
    · exact ⟨[t], ⟨rfl, rfl⟩, .inl ⟨t, rfl, rfl, ht⟩⟩
    · exact ⟨[], .refl _, .inr ⟨rfl, rfl, by simpa using ht⟩⟩

theorem eat (kind : TokenKind) : Ends ends c (eat kind) fun eaten taken rest =>
    (eaten = true ∧ ∃ t, taken = [t] ∧ t.kind = kind) ∨
      (eaten = false ∧ taken = [] ∧ rest.head?.any (·.kind == kind) = false) := by
  refine (accept? _).mono (fun t? taken rest _ h => ?_) |>.map
  obtain ⟨t, rfl, rfl, ht⟩ | ⟨rfl, rfl, hrest⟩ := h
  · exact .inl ⟨rfl, t, rfl, by simpa using ht⟩
  · exact .inr ⟨rfl, rfl, hrest⟩

theorem require (test : Token → Bool) (what : Expected) :
    Ends ends c (require test what) fun t taken _ => taken = [t] ∧ test t = true := by
  refine (accept? test).bind fun t? taken c₁ _ h => ?_
  obtain ⟨t, rfl, rfl, ht⟩ | ⟨rfl, rfl, -⟩ := h
  · exact .pure ⟨rfl, ht⟩
  · exact .unexpected

theorem expect (kind : TokenKind) (what : Expected) :
    Ends ends c (expect kind what) fun t taken _ => taken = [t] ∧ t.kind = kind :=
  (require _ what).mono fun _ _ _ _ ⟨h, hk⟩ => ⟨h, by simpa using hk⟩

theorem discard (kind : TokenKind) (what : Expected) :
    Ends ends c (discard (Grammar.expect kind what)) fun _ taken _ =>
      ∃ t, taken = [t] ∧ t.kind = kind :=
  (expect kind what).mono (fun t _ _ _ h => ⟨t, h⟩) |>.map

theorem check {ceiling : Ceiling} {value : Nat} (h : ceiling.limit < value → ends) :
    Ends ends c (check ceiling value) fun _ taken _ => taken = [] := by
  unfold Ends Grammar.check
  cases hc : ceiling.check value with
  | ok => exact ⟨[], .refl c, rfl⟩
  | error e => exact fun _ => h (Ceiling.check_eq_error.1 hc).1

end Ends

end Ends

section Sound

variable {inner : Grammar TypeExpr} {room : Nat} {name : String}

theorem ends_signedInteger {ends : Prop} :
    Ends ends c signedInteger fun value taken _ => IsInteger taken value := by
  refine (Ends.accept? isMinus).bind fun minus? before c₁ _ hminus => ?_
  refine (Ends.expect .number .enumValue).bind fun t taken c₂ _ ht => ?_
  obtain ⟨rfl, ht⟩ := ht
  cases hvalue : decimal? t.text.toList with
  | none => exact .parse
  | some value =>
    have hnumeral := decimal?_eq_some_iff.1 hvalue
    refine .pure ?_
    obtain ⟨minus, rfl, rfl, hminus⟩ | ⟨rfl, rfl, -⟩ := hminus
    · exact .minus hminus ht hnumeral
    · exact .plain ht hnumeral

/-- What is read is a type, and only ceilings end the reading otherwise than by a token. -/
def Sound (inner : Grammar TypeExpr) (room : Nat) : Prop :=
  ∀ c, Ends (Overruns room c.rest) c inner fun ty taken rest => IsType taken rest ty

theorem ends_typeArg (h : Sound inner room) (c : Cursor) : Ends (ArgOverruns room c.rest) c
    (typeArg inner) fun arg taken rest => IsArg taken rest arg := by
  refine .peek? ?_
  cases hpeek : c.peek? with
  | none => exact .unexpected
  | some t =>
    dsimp only
    split_ifs with hstring hnumber hminus hname
    · refine (Ends.advance hpeek).bind fun _ taken c₁ _ htaken => ?_
      obtain rfl := htaken
      have hkey : t.kind = .string := by simpa using hstring
      refine (Ends.eat .equals).bind fun equals taken c₂ _ hequals => ?_
      obtain ⟨rfl, equals, rfl, hequals⟩ | ⟨rfl, rfl, hrest⟩ := hequals
      · refine ends_signedInteger.bind fun value ts c₃ _ hvalue => .pure ?_
        rw [List.append_nil]
        exact .member hkey hequals hvalue
      · exact .pure (.string hkey hrest)
    · refine (Ends.advance hpeek).bind fun _ taken c₁ _ htaken => .pure ?_
      obtain rfl := htaken
      exact .number (by simpa using hnumber)
    · refine (Ends.advance hpeek).bind fun _ taken c₁ _ htaken => ?_
      obtain rfl := htaken
      refine (Ends.expect _ _).bind fun number taken c₂ _ h => .pure ?_
      obtain ⟨rfl, hkind⟩ := h
      exact .negative hminus hkind
    · obtain ⟨behind, hrest⟩ := List.head?_eq_some_iff.1 hpeek
      refine .looksAt ?_
      cases hnext : c.rest[1]?.any Token.isIdentifier with
      | true =>
        refine (Ends.advance hpeek).bind fun _ taken c₁ hmoved htaken => ?_
        obtain rfl := htaken
        have hbehind : c₁.rest.head?.any Token.isIdentifier = true := by
          rw [hmoved.rest] at hnext
          simpa [List.head?_eq_getElem?] using hnext
        have hover (ho : Overruns room c₁.rest) : ArgOverruns room c.rest := by
          rw [hmoved.rest]
          exact .named hname hbehind ho
        refine ((h c₁).weaken hover).bind fun ty ts c₂ _ hty => .pure ?_
        rw [List.append_nil]
        exact .named hname hty
      | false =>
        have hover (ho : Overruns room c.rest) : ArgOverruns room c.rest := by
          rw [hrest] at hnext ho ⊢
          exact .type hname (by simpa [List.head?_eq_getElem?] using hnext) ho
        refine ((h c).weaken hover).bind fun ty ts c₁ hmoved hty => .pure ?_
        rw [List.append_nil]
        exact .type (hmoved.rest ▸ hnext) hty
    · exact .unexpected

theorem ends_checkArguments {count : Nat} {args : Array TypeArg} (hcount : args.size = count) :
    Ends (¬Accepts name count) c (checkArguments name args) fun _ taken _ => taken = [] := by
  unfold checkArguments Accepts
  cases hceiling : argumentCeiling? name with
  | none => exact .pure rfl
  | some ceiling =>
    refine .check fun hlt hall => ?_
    exact (hall ceiling rfl).not_gt (hcount ▸ hlt)

theorem ends_typeArgs (h : Sound inner room) (budget : Nat) (before : Array TypeArg)
    (hbudget : (Ceiling.steps .typeArguments).limit = before.size + budget) (c : Cursor) :
    Ends (ArgsOverrun room name before.size c.rest) c (typeArgs inner name budget before)
      fun all taken rest => ∃ args, all.toList = before.toList ++ args ∧ AreArgs taken rest args := by
  induction budget generalizing before c with
  | zero => exact fun _ => .steps hbudget.le
  | succ budget ih =>
    unfold typeArgs
    refine ((ends_typeArg h c).weaken .arg).bind fun arg ts c₁ hts harg => ?_
    have hcount (hmany : ¬Accepts name (before.size + 1)) :
        ArgsOverrun room name before.size c.rest := by
      rw [hts.rest]
      exact .count harg hmany
    have hsize : (before.push arg).size = before.size + 1 := Array.size_push arg
    refine ((ends_checkArguments hsize).weaken hcount).bind fun _ us c₂ hus h => ?_
    obtain rfl := h
    obtain rfl := hus.eq_of_nil
    refine (Ends.eat .comma).bind fun comma us c₃ hus hcomma => ?_
    obtain ⟨rfl, comma, rfl, hcomma⟩ | ⟨rfl, rfl, -⟩ := hcomma
    · have hbehind : c₂.rest = comma :: c₃.rest := hus.rest
      have hlater (ho : ArgsOverrun room name (before.push arg).size c₃.rest) :
          ArgsOverrun room name before.size c.rest := by
        rw [hsize] at ho
        rw [hbehind] at harg
        rw [hts.rest, hbehind]
        exact .later harg hcomma ho
      refine ((ih _ (by omega) c₃).weaken hlater).mono fun all more rest hmore hall => ?_
      obtain ⟨args, hall, hargs⟩ := hall
      rw [hbehind, hmore] at harg
      exact ⟨arg :: args, by simpa using hall, .more harg hcomma hargs⟩
    · refine (Ends.discard _ _).bind fun _ taken c₄ hclosed h => .pure ?_
      obtain ⟨close, rfl, hclose⟩ := h
      rw [hus.eq_of_nil.symm, hclosed.rest] at harg
      exact ⟨[arg], by simp, .last harg hclose⟩

theorem sound_typeExpr (room : Nat) : Sound (typeExpr room) room := by
  induction room with
  | zero => exact fun c _ => .depth
  | succ room ih =>
    intro c
    refine (Ends.require _ _).bind fun t taken c₁ ht h => ?_
    obtain ⟨rfl, hname⟩ := h
    refine (Ends.eat .openParen).bind fun opened taken c₂ ho hopened => ?_
    obtain ⟨rfl, o, rfl, hopen⟩ | ⟨rfl, rfl, hrest⟩ := hopened
    · refine (Ends.eat .closeParen).bind fun closed taken c₃ hclosed h => ?_
      obtain ⟨rfl, close, rfl, hclose⟩ | ⟨rfl, rfl, hrest⟩ := h
      · exact .pure (.empty hname hopen hclose)
      · obtain rfl := hclosed.eq_of_nil
        have hover (h : ArgsOverrun room (canonicalName t.text) 0 c₃.rest) :
            Overruns (room + 1) c.rest := by
          rw [ht.rest, ho.rest]
          exact .args hname hopen hrest h
        refine ((ends_typeArgs ih _ #[] (by simp) c₃).weaken hover).bind
          fun all more c₄ _ h => .pure ?_
        obtain ⟨args, hall, hargs⟩ := h
        obtain rfl : all.toList = args := by simpa using hall
        rw [List.append_nil]
        exact .list hname hopen hargs
    · exact .pure (.plain hname hrest)

end Sound

section Complete

variable {fails : Prop} {inner : Grammar TypeExpr} {room : Nat} {name : String} {arg : TypeArg}
  {args : List TypeArg} {ty : TypeExpr}

theorem IsInteger.reads {value : Int} (h : IsInteger ts value) :
    Reads fails signedInteger ts rest (· = value) := by
  cases h with
  | plain ht hvalue =>
    refine (Reads.accept?_none (by simp [isMinus, ht])).skip_eq ?_
    refine (Reads.expect ht).last_eq ?_
    rw [decimal?_eq_some_iff.2 hvalue]
    exact .pure rfl
  | minus hminus ht hvalue =>
    refine (Reads.accept? hminus).next_eq ?_
    refine (Reads.expect ht).last_eq ?_
    rw [decimal?_eq_some_iff.2 hvalue]
    exact .pure rfl

/-- Each type is read, and only a ceiling prevents it. -/
def Complete (inner : Grammar TypeExpr) (room : Nat) : Prop :=
  ∀ ts rest ty, IsType ts rest ty → Reads (Overruns room (ts ++ rest)) inner ts rest (· = ty)

theorem IsType.head (h : IsType ts rest ty) :
    ∃ t us, ts = t :: us ∧ t.isIdentifier = true := by
  cases h with
  | plain ht => exact ⟨_, _, rfl, ht⟩
  | empty ht => exact ⟨_, _, rfl, ht⟩
  | list ht => exact ⟨_, _, rfl, ht⟩

theorem isName_of_isIdentifier (h : t.isIdentifier = true) : t.isName = true := by
  obtain hk | hk : t.kind = .identifier ∨ t.kind = .quotedIdentifier := by
    simpa [Token.isIdentifier] using h
  all_goals rw [Token.isName, hk]

/-- A name is that of an element if an identifier stands behind it. -/
theorem typeArg_name (h : t.isName = true) (p : Nat) (ts : List Token) :
    typeArg inner ⟨p, t :: ts⟩ = (do return TypeArg.type (← inner))
      (if ts.head?.any Token.isIdentifier then ⟨p + 1, ts⟩ else ⟨p, t :: ts⟩) := by
  have hkind : (t.kind == .string) = false ∧ (t.kind == .number) = false ∧ isMinus t = false := by
    refine ⟨?_, ?_, ?_⟩ <;> refine Bool.eq_false_iff.2 fun hk => ?_
    · simp [Token.isName, beq_iff_eq.1 hk] at h
    · simp [Token.isName, beq_iff_eq.1 hk] at h
    · simp [Token.isName, beq_iff_eq.1 (Bool.and_elim_left hk)] at h
  change (if t.kind == .string then _ else if t.kind == .number then _ else if isMinus t then _
    else if t.isName then (looksAt 1 Token.isIdentifier >>= fun named => _) else _ : Grammar TypeArg)
      ⟨p, t :: ts⟩ = _
  rw [hkind.1, hkind.2.1, hkind.2.2, h]
  change (if ts[0]?.any Token.isIdentifier then _ else _ : Grammar TypeArg) _ = _
  rw [← List.head?_eq_getElem?]
  split
  · rfl
  · rfl

theorem IsArg.reads (h : Complete inner room) (harg : IsArg ts rest arg) :
    Reads (ArgOverruns room (ts ++ rest)) (typeArg inner) ts rest (· = arg) := by
  cases harg with
  | member hkey hequals hvalue =>
    refine .peek? ?_
    simp only [List.cons_append, List.head?_cons, hkey]
    refine Reads.advance.next fun _ _ => ?_
    refine (Reads.eat hequals).next_eq ?_
    refine hvalue.reads.last_eq ?_
    exact .pure rfl
  | string ht hrest =>
    refine .peek? ?_
    simp only [List.cons_append, List.head?_cons, ht]
    refine Reads.advance.last fun _ _ => ?_
    refine (Reads.eat_not hrest).skip_eq ?_
    exact .pure rfl
  | number ht =>
    refine .peek? ?_
    simp only [List.cons_append, List.head?_cons, ht]
    refine Reads.advance.last fun _ _ => ?_
    exact .pure rfl
  | negative hminus ht =>
    have hkind := Bool.and_elim_left hminus
    refine .peek? ?_
    simp only [List.cons_append, List.head?_cons, beq_iff_eq.1 hkind, hminus]
    refine Reads.advance.next fun _ _ => ?_
    refine (Reads.expect ht).last_eq ?_
    exact .pure rfl
  | type hnext hty =>
    obtain ⟨t, us, rfl, ht⟩ := hty.head
    have hbehind : (us ++ rest).head?.any Token.isIdentifier = false := by
      simpa [List.head?_eq_getElem?] using hnext
    have hover (ho : Overruns room (t :: us ++ rest)) : ArgOverruns room (t :: us ++ rest) :=
      .type (isName_of_isIdentifier ht) hbehind ho
    have hread : Reads _ (do return TypeArg.type (← inner)) _ rest (· = .type _) :=
      ((h _ rest _ hty).weaken hover).last_eq (.pure rfl)
    intro p
    rw [List.cons_append, typeArg_name (isName_of_isIdentifier ht), hbehind]
    exact hread p
  | @named name us _ _ hname hty =>
    have hbehind : (us ++ rest).head?.any Token.isIdentifier = true := by
      obtain ⟨t, us, rfl, ht⟩ := hty.head
      exact ht
    have hover (ho : Overruns room (us ++ rest)) : ArgOverruns room (name :: us ++ rest) :=
      .named hname hbehind ho
    have hread : Reads _ (do return TypeArg.type (← inner)) _ rest (· = .type _) :=
      ((h _ rest _ hty).weaken hover).last_eq (.pure rfl)
    intro p
    rw [List.cons_append, typeArg_name hname, hbehind]
    exact hread (p + 1)

theorem AreArgs.reads (h : Complete inner room) (hargs : AreArgs ts rest args) (budget : Nat)
    (before : Array TypeArg)
    (hbudget : (Ceiling.steps .typeArguments).limit = before.size + budget) :
    Reads (ArgsOverrun room name before.size (ts ++ rest)) (typeArgs inner name budget before) ts rest
      (·.toList = before.toList ++ args) := by
  induction budget generalizing ts args before with
  | zero => exact fun _ => .steps hbudget.le
  | succ budget ih =>
    have hcount {us behind : List Token} {arg : TypeArg} (harg : IsArg us behind arg)
        (hmany : ¬Accepts name (before.push arg).size) :
        ArgsOverrun room name before.size (us ++ behind) := by
      rw [Array.size_push] at hmany
      exact .count harg hmany
    unfold typeArgs
    cases hargs with
    | @last us close _ arg harg hclose =>
      rw [List.append_assoc]
      refine ((harg.reads h).weaken .arg).bind_eq ?_
      refine (reads_checkArguments (hcount harg)).skip fun _ _ => ?_
      refine (Reads.eat_not (by simp [hclose])).skip_eq ?_
      exact (Reads.discard_expect hclose).last fun _ _ => .pure (by simp)
    | @more us comma vs _ arg args harg hcomma hargs =>
      have hlater (ho : ArgsOverrun room name (before.push arg).size (vs ++ rest)) :
          ArgsOverrun room name before.size (us ++ comma :: (vs ++ rest)) := by
        rw [Array.size_push] at ho
        exact .later harg hcomma ho
      have hsize : (before.push arg).size = before.size + 1 := Array.size_push arg
      rw [List.append_assoc, List.cons_append]
      refine ((harg.reads h).weaken .arg).bind_eq ?_
      refine (reads_checkArguments (hcount harg)).skip fun _ _ => ?_
      refine (Reads.eat hcomma).next_eq ?_
      exact ((ih hargs _ (by omega)).weaken hlater).mono fun all hall => by simpa using hall

theorem IsArg.not_close (h : IsArg ts rest arg) (more : List Token) :
    (ts ++ more).head?.any (·.kind == .closeParen) = false := by
  have of_name {t : Token} (ht : t.isName = true) : (t.kind == .closeParen) = false := by
    refine Bool.eq_false_iff.2 fun hk => ?_
    simp [Token.isName, beq_iff_eq.1 hk] at ht
  cases h with
  | member ht | string ht | number ht => simp [ht]
  | negative hminus => simp [beq_iff_eq.1 (Bool.and_elim_left hminus)]
  | type _ hty =>
    obtain ⟨t, us, rfl, ht⟩ := hty.head
    exact of_name (isName_of_isIdentifier ht)
  | named hname => exact of_name hname

theorem AreArgs.not_close (h : AreArgs ts rest args) :
    (ts ++ rest).head?.any (·.kind == .closeParen) = false := by
  cases h with
  | last harg | more harg =>
    rw [List.append_assoc]
    exact harg.not_close _

theorem complete_typeExpr (room : Nat) : Complete (typeExpr room) room := by
  induction room with
  | zero => exact fun ts rest ty h p => .depth
  | succ room ih =>
    intro ts rest ty h
    cases h with
    | plain ht hrest =>
      refine (Reads.require ht).last_eq ?_
      refine (Reads.eat_not hrest).skip_eq ?_
      exact .pure rfl
    | empty ht ho hclose =>
      refine (Reads.require ht).next_eq ?_
      refine (Reads.eat ho).next_eq ?_
      refine (Reads.eat hclose).last_eq ?_
      exact .pure rfl
    | @list t o ts _ args ht ho hargs =>
      have hover (h : ArgsOverrun room (canonicalName t.text) 0 (ts ++ rest)) :
          Overruns (room + 1) (t :: o :: ts ++ rest) := .args ht ho hargs.not_close h
      refine (Reads.require ht).next_eq ?_
      refine (Reads.eat ho).next_eq ?_
      refine (Reads.eat_not hargs.not_close).skip_eq ?_
      refine ((hargs.reads ih _ #[] (by simp)).weaken hover).last fun all hall => .pure ?_
      rw [hall]
      rfl

end Complete

section Fatal

variable {inner : Grammar TypeExpr} {room : Nat} {name : String}

/-- The step fails, and not because of a token. -/
def Fatal (g : Grammar α) (c : Cursor) : Prop :=
  ∃ e c', g c = .error e c' ∧ e.isRecoverable = false

namespace Fatal

variable {g : Grammar α} {f : α → Grammar β}

theorem bind_left (h : Fatal g c) : Fatal (g >>= f) c := by
  obtain ⟨e, c', he, hfatal⟩ := h
  refine ⟨e, c', ?_, hfatal⟩
  change EStateM.bind g f c = _
  rw [EStateM.bind, he]

theorem bind_right {a : α} {c₁ : Cursor} (ha : g c = .ok a c₁) (h : Fatal (f a) c₁) :
    Fatal (g >>= f) c := by
  obtain ⟨e, c', he, hfatal⟩ := h
  refine ⟨e, c', ?_, hfatal⟩
  change EStateM.bind g f c = _
  rw [EStateM.bind, ha]
  exact he

/-- Behind a step that reads its tokens unless it is fatal itself. -/
theorem behind {fails : Prop} {P : α → Prop} {p : Nat} (hg : Reads fails g ts rest P)
    (hfails : fails → Fatal g ⟨p, ts ++ rest⟩) (hf : ∀ a p, P a → Fatal (f a) ⟨p, rest⟩) :
    Fatal (g >>= f) ⟨p, ts ++ rest⟩ := by
  have hread := hg p
  cases ha : g ⟨p, ts ++ rest⟩ with
  | ok a c =>
    rw [ha] at hread
    obtain ⟨rfl, hP⟩ := hread
    exact bind_right ha (hf a c.position hP)
  | error e c =>
    rw [ha] at hread
    exact (hfails hread).bind_left

theorem behind_token {P : α → Prop} {p : Nat} (hg : Reads False g [t] rest P)
    (hf : ∀ a p, P a → Fatal (f a) ⟨p, rest⟩) : Fatal (g >>= f) ⟨p, t :: rest⟩ :=
  (behind hg False.elim hf :)

theorem behind_nothing {P : α → Prop} {p : Nat} (hg : Reads False g [] rest P)
    (hf : ∀ a p, P a → Fatal (f a) ⟨p, rest⟩) : Fatal (g >>= f) ⟨p, rest⟩ :=
  (behind hg False.elim hf :)

end Fatal

/-- Where a type overruns, the reading ends. -/
def Overrun (inner : Grammar TypeExpr) (room : Nat) : Prop :=
  ∀ ts p, Overruns room ts → Fatal inner ⟨p, ts⟩

theorem ArgOverruns.fatal (h : Overrun inner room) (ho : ArgOverruns room ts) (p : Nat) :
    Fatal (typeArg inner) ⟨p, ts⟩ := by
  unfold Fatal
  cases ho with
  | type hname hnext ho =>
    rw [typeArg_name hname, hnext]
    exact (h _ p ho).bind_left
  | named hname hnext ho =>
    rw [typeArg_name hname, hnext]
    exact (h _ (p + 1) ho).bind_left

theorem fatal_checkArguments {args : Array TypeArg} (h : ¬Accepts name args.size) :
    Fatal (checkArguments name args) c := by
  unfold Accepts at h
  unfold checkArguments Fatal
  cases hceiling : argumentCeiling? name with
  | none =>
    rw [hceiling] at h
    exact absurd nofun h
  | some ceiling =>
    have hlt : ceiling.limit < args.size := by
      rw [hceiling] at h
      simpa using h
    refine ⟨.exceeded ceiling, c, ?_, rfl⟩
    dsimp only [check, Ceiling.check]
    rw [if_pos hlt]

theorem ArgsOverrun.fatal (hcomplete : Complete inner room) (h : Overrun inner room) (budget : Nat)
    (before : Array TypeArg)
    (hbudget : (Ceiling.steps .typeArguments).limit = before.size + budget)
    (ho : ArgsOverrun room name before.size ts) (p : Nat) :
    Fatal (typeArgs inner name budget before) ⟨p, ts⟩ := by
  induction budget generalizing before ts p with
  | zero => exact ⟨_, _, rfl, rfl⟩
  | succ budget ih =>
    have hsize (arg : TypeArg) : (before.push arg).size = before.size + 1 := Array.size_push arg
    unfold typeArgs
    cases ho with
    | steps hle => omega
    | arg ho => exact (ho.fatal h p).bind_left
    | @count _ _ _ ts behind value harg hmany =>
      refine .behind (harg.reads hcomplete) (fun ho => ho.fatal h p) fun arg p ha => ?_
      obtain rfl := ha
      rw [← hsize arg] at hmany
      exact (fatal_checkArguments hmany).bind_left
    | @later _ _ _ ts comma behind value harg hcomma ho =>
      refine .behind (harg.reads hcomplete) (fun ho => ho.fatal h p) fun arg p ha => ?_
      obtain rfl := ha
      refine .behind (reads_checkArguments id) fatal_checkArguments fun _ p _ => ?_
      refine .behind_token (Reads.eat hcomma) fun _ p heaten => ?_
      obtain rfl := heaten
      rw [← hsize arg] at ho
      exact ih _ (by rw [hsize arg]; omega) ho p

theorem overrun_typeExpr (room : Nat) : Overrun (typeExpr room) room := by
  induction room with
  | zero => exact fun ts p _ => ⟨_, _, rfl, rfl⟩
  | succ room ih =>
    intro ts p ho
    cases ho with
    | @args _ t o ts ht hopen hclose ho =>
      refine .behind_token (Reads.require ht) fun _ p h => ?_
      obtain rfl := h
      refine .behind_token (Reads.eat hopen) fun _ p h => ?_
      obtain rfl := h
      refine .behind_nothing (Reads.eat_not hclose) fun _ p h => ?_
      obtain rfl := h
      exact (ho.fatal (complete_typeExpr room) ih _ #[] (by simp) p).bind_left

end Fatal

/-- What is read as the type of a column are the tokens that derive a type. There is an error about
the tokens if none do, and another one if the reading overruns a ceiling. -/
theorem columnType_iff (c : Cursor) :
    (∀ ty c', columnType c = .ok ty c' ↔ ¬Overruns maxTypeDepth c.rest ∧
      ∃ taken, c.Moved taken c' ∧ IsType taken c'.rest ty) ∧
    ((∃ cause c', columnType c = .error (.parse cause) c') ↔ ¬Overruns maxTypeDepth c.rest ∧
      ¬∃ taken rest ty, c.rest = taken ++ rest ∧ IsType taken rest ty) ∧
    ((∃ e c', columnType c = .error e c' ∧ e.isRecoverable = false) ↔
      Overruns maxTypeDepth c.rest) := by
  have hends : Ends (Overruns maxTypeDepth c.rest) c columnType _ := sound_typeExpr maxTypeDepth c
  have hover : Overruns maxTypeDepth c.rest → Fatal columnType c :=
    overrun_typeExpr maxTypeDepth c.rest c.position
  have hread {taken rest : List Token} {ty : TypeExpr} (hrest : c.rest = taken ++ rest)
      (hty : IsType taken rest ty) (hwithin : ¬Overruns maxTypeDepth c.rest) :
      ∃ c', columnType c = .ok ty c' ∧ c'.rest = rest := by
    have hread := complete_typeExpr maxTypeDepth taken rest ty hty
    rw [← hrest] at hread
    obtain ⟨_, c', hok, hbehind, rfl⟩ := (hread.weaken hwithin).exists_ok c.position
    rw [← hrest] at hok
    exact ⟨c', hok, hbehind⟩
  refine ⟨fun ty c' => ⟨fun h => ⟨fun ho => ?_, hends.of_ok h⟩, ?_⟩, ⟨?_, ?_⟩,
    fun ⟨e, c', he, hfatal⟩ => hends.of_error he hfatal, hover⟩
  · obtain ⟨e, c₁, he, -⟩ := hover ho
    rw [h] at he
    contradiction
  · rintro ⟨hwithin, taken, hmoved, hty⟩
    obtain ⟨c₁, hok, hrest⟩ := hread hmoved.rest hty hwithin
    obtain ⟨taken', hmoved', -⟩ := hends.of_ok hok
    rwa [← hmoved'.unique hmoved hrest]
  · rintro ⟨cause, c', h⟩
    have hwithin (ho : Overruns maxTypeDepth c.rest) : False := by
      obtain ⟨e, c₁, he, hfatal⟩ := hover ho
      rw [h] at he
      cases he
      contradiction
    refine ⟨hwithin, fun ⟨taken, rest, ty, hrest, hty⟩ => ?_⟩
    obtain ⟨c₁, hok, -⟩ := hread hrest hty hwithin
    rw [h] at hok
    contradiction
  · rintro ⟨hwithin, hnone⟩
    cases h : columnType c with
    | ok ty c' =>
      obtain ⟨taken, hmoved, hty⟩ := hends.of_ok h
      exact absurd ⟨taken, c'.rest, ty, hmoved.rest, hty⟩ hnone
    | error e c' =>
      cases e with
      | parse cause => exact ⟨cause, c', rfl⟩
      | _ => exact absurd (hends.of_error h rfl) hwithin

end TypedTables.Grammar
