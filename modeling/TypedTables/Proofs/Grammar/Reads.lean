import TypedTables.Grammar.Query
import TypedTables.Proofs.Grammar.Moves

/-!
Tokens that a step of the grammar reads, given the tokens behind them and whatever stood before, and
what it makes of them.
-/

namespace TypedTables.Grammar

variable {α β : Type} {fails : Prop} {ts us rest : List Token} {t : Token}

/-- Where `ts` is followed by `rest` the step takes `ts` and gives a result with the property; it
may only fail if `fails` holds. -/
def Reads (fails : Prop) (g : Grammar α) (ts rest : List Token) (P : α → Prop) : Prop :=
  ∀ p, match g ⟨p, ts ++ rest⟩ with
    | .ok a c => c.rest = rest ∧ P a
    | .error _ _ => fails

namespace Reads

variable {g : Grammar α} {f : α → Grammar β} {P : α → Prop} {Q : β → Prop}

theorem exists_ok (h : Reads False g ts rest P) (p : Nat) :
    ∃ a c, g ⟨p, ts ++ rest⟩ = .ok a c ∧ c.rest = rest ∧ P a := by
  have h := h p
  cases hg : g ⟨p, ts ++ rest⟩ with
  | ok a c =>
    rw [hg] at h
    exact ⟨a, c, rfl, h⟩
  | error e c =>
    rw [hg] at h
    exact h.elim

theorem of_ok (h : Reads fails g ts rest P) {p : Nat} {a : α} {c : Cursor}
    (ha : g ⟨p, ts ++ rest⟩ = .ok a c) : c.rest = rest ∧ P a := by
  have h := h p
  rwa [ha] at h

theorem mono (h : Reads fails g ts rest P) {P' : α → Prop} (hP : ∀ a, P a → P' a) :
    Reads fails g ts rest P' := by
  intro p
  have h := h p
  cases hg : g ⟨p, ts ++ rest⟩ with
  | ok a c =>
    rw [hg] at h
    exact ⟨h.1, hP a h.2⟩
  | error e c =>
    rw [hg] at h
    exact h

theorem weaken (h : Reads fails g ts rest P) {fails' : Prop} (hfails : fails → fails') :
    Reads fails' g ts rest P := by
  intro p
  have h := h p
  cases hg : g ⟨p, ts ++ rest⟩ with
  | ok a c =>
    rw [hg] at h
    exact h
  | error e c =>
    rw [hg] at h
    exact hfails h

theorem pure {a : α} (h : P a) : Reads fails (pure a : Grammar α) [] rest P := fun _ => ⟨rfl, h⟩

theorem throw {e : Error} (h : fails) : Reads fails (throw e : Grammar α) ts rest P := fun _ => h

theorem bind (hg : Reads fails g ts (us ++ rest) P) (hf : ∀ a, P a → Reads fails (f a) us rest Q) :
    Reads fails (g >>= f) (ts ++ us) rest Q := by
  intro p
  have hg := hg p
  change match EStateM.bind g f ⟨p, ts ++ us ++ rest⟩ with
    | .ok a c => c.rest = rest ∧ Q a
    | .error _ _ => fails
  rw [EStateM.bind, List.append_assoc]
  cases hc : g ⟨p, ts ++ (us ++ rest)⟩ with
  | ok a c =>
    rw [hc] at hg
    obtain ⟨hrest, ha⟩ := hg
    have hb := hf a ha c.position
    rwa [← hrest] at hb
  | error e c =>
    rw [hc] at hg
    exact hg

/-- A step that takes one token. -/
theorem next (hg : Reads fails g [t] (us ++ rest) P) (hf : ∀ a, P a → Reads fails (f a) us rest Q) :
    Reads fails (g >>= f) (t :: us) rest Q := hg.bind hf

/-- A step that takes nothing. -/
theorem skip (hg : Reads fails g [] (us ++ rest) P) (hf : ∀ a, P a → Reads fails (f a) us rest Q) :
    Reads fails (g >>= f) us rest Q := hg.bind hf

/-- A step behind which nothing more is taken. -/
theorem last (hg : Reads fails g ts rest P) (hf : ∀ a, P a → Reads fails (f a) [] rest Q) :
    Reads fails (g >>= f) ts rest Q := by
  rw [← List.append_nil ts]
  exact hg.bind hf

/-! The same steps where they give a result that is known. -/

section Known

variable {a : α}

theorem bind_eq (hg : Reads fails g ts (us ++ rest) (· = a)) (hf : Reads fails (f a) us rest Q) :
    Reads fails (g >>= f) (ts ++ us) rest Q := hg.bind fun b hb => by rwa [hb]

theorem next_eq (hg : Reads fails g [t] (us ++ rest) (· = a)) (hf : Reads fails (f a) us rest Q) :
    Reads fails (g >>= f) (t :: us) rest Q := hg.bind_eq hf

theorem skip_eq (hg : Reads fails g [] (us ++ rest) (· = a)) (hf : Reads fails (f a) us rest Q) :
    Reads fails (g >>= f) us rest Q := hg.bind_eq hf

theorem last_eq (hg : Reads fails g ts rest (· = a)) (hf : Reads fails (f a) [] rest Q) :
    Reads fails (g >>= f) ts rest Q := hg.last fun b hb => by rwa [hb]

end Known

theorem map {f : α → β} (hg : Reads fails g ts rest fun a => Q (f a)) :
    Reads fails (f <$> g) ts rest Q := by
  rw [← bind_pure_comp]
  exact hg.last fun a ha => .pure ha

theorem discard {known : Prop} (hg : Reads fails g ts rest fun _ => known) :
    Reads fails (Functor.discard g) ts rest fun _ => known := hg.map

theorem get {f : Cursor → Grammar β} (hf : ∀ p, Reads fails (f ⟨p, us ++ rest⟩) us rest Q) :
    Reads fails (MonadState.get >>= f) us rest Q := fun p => hf p p

theorem looksAt {n : Nat} {test : Token → Bool} {f : Bool → Grammar β}
    (hf : Reads fails (f ((us ++ rest)[n]?.any test)) us rest Q) :
    Reads fails (Grammar.looksAt n test >>= f) us rest Q := hf

theorem peek? {f : Option Token → Grammar β}
    (hf : Reads fails (f (us ++ rest).head?) us rest Q) :
    Reads fails (Grammar.peek? >>= f) us rest Q := hf

theorem advance : Reads fails advance [t] rest fun _ => True := fun _ => ⟨rfl, trivial⟩

theorem check {ceiling : Ceiling} {value : Nat} (h : value ≤ ceiling.limit) :
    Reads fails (check ceiling value) [] rest fun _ => True := by
  intro p
  rw [Grammar.check, Ceiling.check_eq_ok.2 h]
  exact ⟨rfl, trivial⟩

theorem accept? {test : Token → Bool} (h : test t = true) :
    Reads fails (accept? test) [t] rest (· = some t) := by
  intro p
  rw [Grammar.accept?, List.singleton_append]
  dsimp only
  rw [if_pos h]
  exact ⟨rfl, rfl⟩

theorem accept?_none {test : Token → Bool} (h : rest.head?.any test = false) :
    Reads fails (Grammar.accept? test) [] rest (· = none) := by
  intro p
  rw [Grammar.accept?, List.nil_append]
  cases rest with
  | nil => exact ⟨rfl, rfl⟩
  | cons t rest =>
    dsimp only
    rw [if_neg (by simpa using h)]
    exact ⟨rfl, rfl⟩

theorem eat {kind : TokenKind} (h : t.kind = kind) :
    Reads fails (Grammar.eat kind) [t] rest (· = true) :=
  ((accept? (by simpa using h)).mono fun _ ha => by rw [ha]; rfl).map

theorem eat_not {kind : TokenKind} (h : rest.head?.any (·.kind == kind) = false) :
    Reads fails (Grammar.eat kind) [] rest (· = false) :=
  ((accept?_none h).mono fun _ ha => by rw [ha]; rfl).map

theorem require {test : Token → Bool} {what : Expected} (h : test t = true) :
    Reads fails (require test what) [t] rest (· = t) := by
  refine (accept? h).last_eq ?_
  exact .pure rfl

theorem expect {kind : TokenKind} {what : Expected} (h : t.kind = kind) :
    Reads fails (expect kind what) [t] rest (· = t) := require (by simpa using h)

theorem discard_expect {kind : TokenKind} {what : Expected} (h : t.kind = kind) :
    Reads fails (Functor.discard (Grammar.expect kind what)) [t] rest fun _ => True :=
  ((expect h).mono fun _ _ => trivial).map

theorem expectKeyword {k : Keyword} (h : t.kind = .keyword k) :
    Reads fails (expectKeyword k) [t] rest fun _ => True := discard_expect h

theorem expectName {what : Expected} (h : t.isName = true) :
    Reads fails (expectName what) [t] rest (· = t.text) :=
  ((require h).mono fun _ ha => by rw [ha]).map

end Reads

section Taken

variable {g : Grammar α} {P : α → Prop} {T : α → List Token → Prop}

/-- What a step is known to take are the tokens that it reads. -/
theorem Reads.taken (h : Reads False g ts rest P) (hg : ∀ c, Moves c g T) : ∃ a, T a ts := by
  obtain ⟨a, c, ha, hrest, -⟩ := h.exists_ok 0
  obtain ⟨taken, hmoved, ht⟩ := (hg _).of_ok ha
  have heq : ts ++ rest = taken ++ rest := hrest ▸ hmoved.rest
  exact ⟨a, List.append_cancel_right heq ▸ ht⟩

theorem Reads.moved (h : Reads fails g ts rest P) {p : Nat} (hg : Moves ⟨p, ts ++ rest⟩ g T) {a : α}
    {c : Cursor} (ha : g ⟨p, ts ++ rest⟩ = .ok a c) :
    (⟨p, ts ++ rest⟩ : Cursor).Moved ts c ∧ T a ts := by
  obtain ⟨hrest, -⟩ := h.of_ok ha
  obtain ⟨taken, hmoved, ht⟩ := hg.of_ok ha
  have heq : ts ++ rest = taken ++ rest := hrest ▸ hmoved.rest
  obtain rfl := List.append_cancel_right heq
  exact ⟨hmoved, ht⟩

/-- A step of which it is known what its result says of the tokens taken. -/
theorem Reads.and_moves (h : Reads fails g ts rest P) (hg : ∀ c, Moves c g T) :
    Reads fails g ts rest fun a => P a ∧ T a ts := by
  intro p
  have hread := h p
  cases ha : g ⟨p, ts ++ rest⟩ with
  | ok a c =>
    rw [ha] at hread
    exact ⟨hread.1, hread.2, (h.moved (hg _) ha).2⟩
  | error e c =>
    rw [ha] at hread
    exact hread

/-- A step, and then what is made of the tokens that it took. -/
theorem reads_since {f : α → List Token → Grammar β} {Q : β → Prop}
    (hg : Reads fails g ts (us ++ rest) P) (hmoves : ∀ c, Moves c g T)
    (hf : ∀ a, P a → Reads fails (f a ts) us rest Q) :
    Reads fails (do let mark ← get; let a ← g; f a ((← get).since mark)) (ts ++ us) rest Q := by
  intro p
  have hread := hg p
  change match EStateM.bind g (fun a c => f a (c.since ⟨p, ts ++ us ++ rest⟩) c)
      ⟨p, ts ++ us ++ rest⟩ with
    | .ok b c => c.rest = rest ∧ Q b
    | .error _ _ => fails
  unfold EStateM.bind
  rw [List.append_assoc]
  cases ha : g ⟨p, ts ++ (us ++ rest)⟩ with
  | ok a c =>
    rw [ha] at hread
    obtain ⟨hrest, hP⟩ := hread
    obtain ⟨hmoved, -⟩ := hg.moved (hmoves _) ha
    have hb := hf a hP c.position
    rw [← hrest] at hb
    dsimp only
    rwa [hmoved.since]
  | error e c =>
    rw [ha] at hread
    exact hread

end Taken

section Runs

variable {stop : Token → Bool}

/-- The steps to the end of a run: one for each token in it, and one to see the token that ends it. -/
def runSteps (ts rest : List Token) : Nat := ts.length + (rest.take 1).length

theorem runSteps_le (ts rest : List Token) : runSteps ts rest ≤ ts.length + 1 :=
  Nat.add_le_add_left (List.length_take_le 1 rest) _

theorem runSteps_of_ne_nil (h : rest ≠ []) (ts : List Token) : runSteps ts rest = ts.length + 1 := by
  obtain ⟨t, rest, rfl⟩ := List.exists_cons_of_ne_nil h
  rfl

/-- A run that is balanced ends where it should, unless it takes more steps than are allowed. -/
theorem reads_skipRun {depth : Nat} (hcloses : Closes depth ts)
    (houtside : hasOutside (endsRun stop) depth ts = false)
    (hrest : ∀ t ∈ rest.head?, endsRun stop t = true) (budget : Nat) :
    Reads (budget < runSteps ts rest) (fun c => skipRun stop budget depth c.position c.rest) ts rest
      fun opened => runSteps ts rest ≤ budget ∧ opened = 0 := by
  -- along the tokens: the steps may come to an end before them, which is the only failure
  induction ts generalizing depth budget with
  | nil =>
    obtain rfl : depth = 0 := hcloses
    intro p
    cases rest with
    | nil => cases budget <;> exact ⟨rfl, Nat.zero_le _, rfl⟩
    | cons t rest =>
      cases budget with
      | zero => exact Nat.one_pos
      | succ budget =>
        dsimp only
        rw [List.nil_append, skipRun, hrest t rfl]
        exact ⟨rfl, Nat.le_add_left 1 budget, rfl⟩
  | cons t ts ih =>
    have hsteps : runSteps (t :: ts) rest = runSteps ts rest + 1 := by
      rw [runSteps, runSteps, List.length_cons, Nat.add_right_comm]
    intro p
    rw [hsteps]
    cases budget with
    | zero => exact Nat.succ_pos _
    | succ budget =>
      rw [hasOutside, Bool.or_eq_false_iff] at houtside
      have hread := ((ih hcloses.2 houtside.2 budget).weaken Nat.succ_lt_succ).mono
        fun _ h => And.imp_left Nat.succ_le_succ h
      dsimp only
      rw [List.cons_append, skipRun, houtside.1]
      exact hread (p + 1)

theorem reads_run (hclear : Clear (endsRun stop) ts)
    (hrest : ∀ t ∈ rest.head?, endsRun stop t = true) :
    Reads ((Ceiling.steps .expression).limit < runSteps ts rest) (run stop) ts rest
      fun tokens => runSteps ts rest ≤ (Ceiling.steps .expression).limit ∧ tokens = ts := by
  have hread : Reads ((Ceiling.steps .expression).limit < runSteps ts rest) (run stop) ts rest
      fun _ => runSteps ts rest ≤ (Ceiling.steps .expression).limit := by
    refine .get fun p => ?_
    refine (reads_skipRun hclear.closes hclear.outside hrest _).last fun opened h => ?_
    obtain ⟨hle, rfl⟩ := h
    exact .get fun p => .pure hle
  exact (hread.and_moves fun _ => moves_run stop).mono fun _ h => ⟨h.1, h.2.1⟩

theorem reads_captureExpression (source : String) (hne : ts ≠ []) (hclear : Clear (endsRun stop) ts)
    (hrest : ∀ t ∈ rest.head?, endsRun stop t = true) :
    Reads ((Ceiling.steps .expression).limit < runSteps ts rest) (captureExpression source stop) ts
      rest fun text => runSteps ts rest ≤ (Ceiling.steps .expression).limit ∧
        text = some (sourceText source ts) := by
  refine (reads_run hclear hrest).last fun tokens h => ?_
  obtain ⟨hle, rfl⟩ := h
  split
  · contradiction
  · exact .pure ⟨hle, rfl⟩

end Runs

section Groups

/-- A group ends where its parenthesis is closed, unless too many tokens stand before that. -/
theorem reads_skipGroup {depth : Nat} {close : Token} (hcloses : Closes depth ts)
    (hclose : close.kind = .closeParen) (budget : Nat) :
    Reads (budget ≤ ts.length) (fun c => skipGroup budget depth c.position c.rest) (ts ++ [close])
      rest fun _ => ts.length < budget := by
  induction ts generalizing depth budget with
  | nil =>
    obtain rfl : depth = 0 := hcloses
    intro p
    cases budget with
    | zero => exact Nat.le_refl 0
    | succ budget =>
      dsimp only
      rw [List.nil_append, List.singleton_append, skipGroup, if_pos (by simp [hclose])]
      exact ⟨rfl, Nat.succ_pos budget⟩
  | cons t ts ih =>
    intro p
    cases budget with
    | zero => exact Nat.zero_le _
    | succ budget =>
      have hinside : ¬(depth == 0 && t.kind == .closeParen) = true := by
        intro h
        simp only [Bool.and_eq_true, beq_iff_eq] at h
        exact absurd (hcloses.1 h.2) (by omega)
      have hread := ((ih hcloses.2 budget).weaken Nat.succ_le_succ).mono fun _ => Nat.succ_lt_succ
      dsimp only
      rw [List.cons_append, List.cons_append, skipGroup, if_neg hinside]
      exact hread (p + 1)

theorem reads_skipBalanced (h : Group ts) :
    Reads ((Ceiling.steps .balancedParentheses).limit + 1 < ts.length) skipBalanced ts rest
      fun _ => ts.length ≤ (Ceiling.steps .balancedParentheses).limit + 1 := by
  obtain ⟨o, _, rfl, ho, inner, close, rfl, hclose, hinner⟩ := h
  have hlength : (o :: (inner ++ [close])).length = inner.length + 1 + 1 := by simp
  rw [hlength]
  refine (Reads.discard_expect ho).next fun _ _ => ?_
  exact ((reads_skipGroup hinner hclose _).weaken fun h => Nat.succ_lt_succ (Nat.lt_succ_of_le h)).mono
    fun _ => Nat.succ_le_succ

end Groups

section Names

variable {what : Expected}

theorem reads_qualifiers_nil (budget : Nat) (parts : List String)
    (h : rest.head?.any (·.kind == .dot) = false) :
    Reads fails (qualifiers what budget parts) [] rest (· = parts) := by
  unfold qualifiers
  refine (Reads.eat_not h).skip_eq ?_
  exact .pure rfl

theorem reads_qualifiers_cons {budget : Nat} {dot name : Token} {parts : List String}
    {P : List String → Prop} (hdot : dot.kind = .dot) (hname : name.isName = true)
    (h : Reads fails (qualifiers what budget (name.text :: parts)) ts rest P) :
    Reads fails (qualifiers what (budget + 1) parts) (dot :: name :: ts) rest P := by
  unfold qualifiers
  refine (Reads.eat hdot).next_eq ?_
  refine (Reads.expectName hname).next_eq ?_
  exact h

theorem reads_qualifiedName_single {name : Token} (hname : name.isName = true)
    (h : rest.head?.any (·.kind == .dot) = false) :
    Reads fails (qualifiedName what) [name] rest (· = (none, name.text)) := by
  refine (Reads.expectName hname).last_eq ?_
  refine (reads_qualifiers_nil _ _ h).last_eq ?_
  exact .pure rfl

theorem reads_qualifiedName_pair {first dot name : Token} (hfirst : first.isName = true)
    (hdot : dot.kind = .dot) (hname : name.isName = true)
    (h : rest.head?.any (·.kind == .dot) = false) :
    Reads fails (qualifiedName what) [first, dot, name] rest
      (· = (some first.text, name.text)) := by
  have hparts : Reads fails (qualifiers what (Ceiling.steps .qualifiedName).limit [first.text])
      [dot, name] rest (· = [name.text, first.text]) :=
    reads_qualifiers_cons hdot hname (reads_qualifiers_nil 99999 _ h)
  refine (Reads.expectName hfirst).next_eq ?_
  refine hparts.last_eq ?_
  exact .pure rfl

theorem kind_ne_of_isName {name : Token} (h : name.isName = true) : name.kind ≠ .openParen := by
  intro hkind
  simp [Token.isName, hkind] at h

/-- The qualifier of the table behind `FROM` is read and dropped. -/
theorem reads_fromSource_pair {first dot name : Token} (hfirst : first.isName = true)
    (hdot : dot.kind = .dot) (hname : name.isName = true)
    (h : rest.head?.any (·.kind == .dot) = false) :
    Reads fails fromSource [first, dot, name] rest (· = some name.text) := by
  have hopen : (first.kind == .openParen) = false :=
    beq_eq_false_iff_ne.2 (kind_ne_of_isName hfirst)
  refine .looksAt ?_
  simp only [List.cons_append, List.getElem?_cons_zero, Option.any_some, hopen]
  refine (reads_qualifiedName_pair hfirst hdot hname h).last_eq ?_
  exact .pure rfl

end Names

section Aliases

variable {expr : List Token}

/-- Whether two tokens are an `AS` and the alias behind it. -/
def isAlias (mark label : Token) : Bool :=
  mark.isKeyword .as && (label.isIdentifier || label.kind matches .keyword _)

theorem splitAlias_concat (h : expr ≠ []) (mark label : Token) :
    splitAlias (expr ++ [mark, label]) =
      if isAlias mark label then (expr, some label.text) else (expr ++ [mark, label], none) := by
  obtain ⟨last, before, heq⟩ := List.exists_cons_of_ne_nil (List.reverse_ne_nil_iff.2 h)
  have hexpr : (last :: before).reverse = expr := by rw [← heq, List.reverse_reverse]
  rw [splitAlias, List.reverse_append, heq, ← hexpr]
  rfl

end Aliases

end TypedTables.Grammar
