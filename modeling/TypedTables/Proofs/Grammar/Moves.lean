import TypedTables.Grammar.Run
import TypedTables.Proofs.Lockstep
import TypedTables.Proofs.Token.Balance
import TypedTables.Proofs.TypeExpr.Within

/-!
How steps of the grammar move the cursor: past the tokens that they take, which lay ahead of it. A
step that fails blames a token that lay ahead, or none.
-/

namespace TypedTables

/-- If the error blames a token, it is one of these. -/
def Error.PointsInto (e : Error) (tokens : List Token) : Prop :=
  ∀ cause, e = .parse cause → ∀ span ∈ cause.span?, ∃ t ∈ tokens, t.span = span

theorem Error.pointsInto_of_fatal {e : Error} (h : e.isRecoverable = false)
    (tokens : List Token) : e.PointsInto tokens := by
  rintro cause rfl
  contradiction

theorem Error.PointsInto.mono {e : Error} {ts us : List Token} (h : e.PointsInto ts)
    (hsub : ∀ t ∈ ts, t ∈ us) : e.PointsInto us := by
  intro cause hcause span hspan
  obtain ⟨t, ht, heq⟩ := h cause hcause span hspan
  exact ⟨t, hsub t ht, heq⟩

namespace Cursor

variable {c c₁ c₂ : Cursor} {t : Token} {ts us rest : List Token}

/-- `c₁` is `c` moved past the tokens `ts`. -/
structure Moved (c : Cursor) (ts : List Token) (c₁ : Cursor) : Prop where
  rest : c.rest = ts ++ c₁.rest
  position : c₁.position = c.position + ts.length

namespace Moved

theorem refl (c : Cursor) : c.Moved [] c := ⟨rfl, rfl⟩

theorem trans (h : c.Moved ts c₁) (h' : c₁.Moved us c₂) : c.Moved (ts ++ us) c₂ where
  rest := by rw [h.rest, h'.rest, List.append_assoc]
  position := by rw [h'.position, h.position, List.length_append, Nat.add_assoc]

theorem since (h : c.Moved ts c₁) : c₁.since c = ts := by
  rw [Cursor.since, h.position, Nat.add_sub_cancel_left, h.rest, List.take_left]

theorem eq (h : c.Moved ts c₁) (h' : c.Moved us c₁) : ts = us :=
  List.append_cancel_right (h.rest.symm.trans h'.rest)

theorem eq_of_nil (h : c.Moved [] c₁) : c₁ = c := by
  obtain ⟨position, rest⟩ := c
  obtain ⟨position₁, rest₁⟩ := c₁
  obtain rfl : rest = rest₁ := h.rest
  obtain rfl : position₁ = position := h.position
  rfl

theorem unique (h : c.Moved ts c₁) (h' : c.Moved us c₂) (hrest : c₁.rest = c₂.rest) : c₁ = c₂ := by
  have heq : ts = us := by
    have hboth := h.rest.symm.trans h'.rest
    rw [hrest] at hboth
    exact List.append_cancel_right hboth
  obtain ⟨position₁, rest₁⟩ := c₁
  obtain ⟨position₂, rest₂⟩ := c₂
  obtain rfl : rest₁ = rest₂ := hrest
  obtain rfl : position₁ = position₂ := (heq ▸ h.position).trans h'.position.symm
  rfl

theorem mem (h : c.Moved ts c₁) {t : Token} (ht : t ∈ c₁.rest) : t ∈ c.rest := by
  rw [h.rest]
  exact List.mem_append_right ts ht

end Moved

theorem moved_cons (position : Nat) (t : Token) (rest : List Token) :
    (⟨position, t :: rest⟩ : Cursor).Moved [t] ⟨position + 1, rest⟩ := ⟨rfl, rfl⟩

theorem moved_next (h : c.peek? = some t) : c.Moved [t] c.next := by
  obtain ⟨rest, h⟩ := List.head?_eq_some_iff.1 h
  unfold next
  rw [h]
  exact ⟨h, rfl⟩

theorem exists_peek? {test : Token → Bool} (h : c.rest[0]?.any test = true) :
    ∃ t, c.peek? = some t ∧ test t = true := by
  rw [← List.head?_eq_getElem?] at h
  exact (Option.any_eq_true _ _).1 h

theorem moved_finish (c : Cursor) : c.Moved c.rest c.finish := ⟨(List.append_nil c.rest).symm, rfl⟩

end Cursor

namespace Grammar

variable {α β : Type} {c : Cursor} {t : Token}

theorem bind_eq_ok {g : Grammar α} {f : α → Grammar β} {c₂ : Cursor} {b : β} :
    (g >>= f) c = .ok b c₂ ↔ ∃ a c₁, g c = .ok a c₁ ∧ f a c₁ = .ok b c₂ := by
  change EStateM.bind g f c = _ ↔ _
  unfold EStateM.bind
  cases g c with
  | ok a c₁ => simp
  | error e c₁ => simp

theorem bind_congr_of_ok {g : Grammar α} {f f' : α → Grammar β}
    (h : ∀ a c₁, g c = .ok a c₁ → f a c₁ = f' a c₁) : (g >>= f) c = (g >>= f') c := by
  change EStateM.bind g f c = EStateM.bind g f' c
  unfold EStateM.bind
  cases hg : g c with
  | ok a c₁ => exact h a c₁ hg
  | error e c₁ => rfl

/-- What a step that started at `c` comes to, given how its result goes with the tokens taken. -/
def Lands (c : Cursor) (P : α → List Token → Prop) : EStateM.Result Error Cursor α → Prop
  | .ok a c₁ => ∃ taken, c.Moved taken c₁ ∧ P a taken
  | .error e _ => e.PointsInto c.rest

/-- From `c` the step takes tokens that go with its result, or blames a token ahead or none. -/
def Moves (c : Cursor) (g : Grammar α) (P : α → List Token → Prop) : Prop := Lands c P (g c)

namespace Moves

variable {g : Grammar α} {f : α → Grammar β} {P P' : α → List Token → Prop}
  {Q : β → List Token → Prop} {T : List Token → Prop}

theorem mono (h : Moves c g P) (hP : ∀ a taken, P a taken → P' a taken) : Moves c g P' := by
  unfold Moves at h ⊢
  cases hg : g c with
  | ok a c₁ =>
    rw [hg] at h
    obtain ⟨taken, hmoved, ha⟩ := h
    exact ⟨taken, hmoved, hP a taken ha⟩
  | error e c₁ =>
    rw [hg] at h
    exact h

theorem of_ok {a : α} {c₁ : Cursor} (h : Moves c g P) (ha : g c = .ok a c₁) :
    ∃ taken, c.Moved taken c₁ ∧ P a taken := by
  unfold Moves at h
  rwa [ha] at h

theorem of_error {e : Error} {c₁ : Cursor} (h : Moves c g P) (he : g c = .error e c₁) :
    e.PointsInto c.rest := by
  unfold Moves at h
  rwa [he] at h

theorem pure {a : α} (h : P a []) : Moves c (pure a) P := ⟨[], .refl c, h⟩

theorem error {e : Error} (h : e.PointsInto c.rest) : Moves c (throw e) P := h

theorem exhausted {loop : Loop} : Moves c (exhausted loop) P :=
  Error.pointsInto_of_fatal rfl c.rest

theorem unexpected {fault : Fault} : Moves c (unexpected fault) P := by
  intro cause hcause span hspan
  cases hcause
  obtain ⟨t, ht, rfl⟩ := Option.mem_map.1 hspan
  exact ⟨t, List.mem_of_mem_head? ht, rfl⟩

/-- The second step may also blame a token that the first one took. -/
theorem bind_lands (hg : Moves c g P)
    (hf : ∀ a taken c₁, c.Moved taken c₁ → P a taken → Lands c Q (f a c₁)) :
    Moves c (g >>= f) Q := by
  change Lands c Q (EStateM.bind g f c)
  unfold EStateM.bind
  unfold Moves at hg
  cases hc : g c with
  | ok a c₁ =>
    rw [hc] at hg
    obtain ⟨taken, hmoved, ha⟩ := hg
    exact hf a taken c₁ hmoved ha
  | error e c₁ =>
    rw [hc] at hg
    exact hg

theorem bind (hg : Moves c g P) (hf : ∀ a taken c₁, c.Moved taken c₁ → P a taken →
    Moves c₁ (f a) fun b more => Q b (taken ++ more)) : Moves c (g >>= f) Q := by
  refine hg.bind_lands fun a taken c₁ hmoved ha => ?_
  have h := hf a taken c₁ hmoved ha
  unfold Moves at h
  cases hb : f a c₁ with
  | ok b c₂ =>
    rw [hb] at h
    obtain ⟨more, hmore, hb⟩ := h
    exact ⟨taken ++ more, hmoved.trans hmore, hb⟩
  | error e c₂ =>
    rw [hb] at h
    exact h.mono fun t => hmoved.mem

theorem map {f : α → β} (h : Moves c g fun a taken => Q (f a) taken) : Moves c (f <$> g) Q := by
  rw [← bind_pure_comp]
  exact h.bind fun a taken c₁ _ ha => .pure (by rwa [List.append_nil])

/-! Steps that only look. -/

theorem get {f : Cursor → Grammar β} (h : Moves c (f c) Q) : Moves c (get >>= f) Q := h

theorem peek? {f : Option Token → Grammar β} (h : Moves c (f c.peek?) Q) :
    Moves c (peek? >>= f) Q := h

theorem looksAt {n : Nat} {test : Token → Bool} {f : Bool → Grammar β}
    (h : Moves c (f (c.rest[n]?.any test)) Q) : Moves c (looksAt n test >>= f) Q := h

theorem check {ceiling : Ceiling} {value : Nat} :
    Moves c (check ceiling value) fun _ taken => taken = [] := by
  unfold Moves Grammar.check
  cases h : ceiling.check value with
  | ok => exact ⟨[], .refl c, rfl⟩
  | error e =>
    obtain ⟨-, rfl⟩ := Ceiling.check_eq_error.1 h
    exact Error.pointsInto_of_fatal rfl c.rest

end Moves

section Steps

variable {P : Token → Prop}

theorem moves_advance (h : c.peek? = some t) : Moves c advance fun _ taken => taken = [t] :=
  ⟨[t], Cursor.moved_next h, rfl⟩

theorem moves_finish : Moves c (modify Cursor.finish) fun _ _ => True :=
  ⟨c.rest, c.moved_finish, trivial⟩

theorem moves_accept? (test : Token → Bool) : Moves c (accept? test) fun t? taken =>
    taken = t?.toList ∧ ∀ t ∈ t?, test t = true := by
  unfold Moves accept?
  split
  · next t rest hrest =>
    split_ifs with ht
    · exact ⟨[t], ⟨hrest, rfl⟩, rfl, fun u hu => by cases hu; exact ht⟩
    · exact ⟨[], .refl c, rfl, nofun⟩
  · exact ⟨[], .refl c, rfl, nofun⟩

theorem moves_eat (kind : TokenKind) : Moves c (eat kind) fun eaten taken =>
    (eaten = true ∧ ∃ t, taken = [t] ∧ t.kind = kind) ∨ (eaten = false ∧ taken = []) := by
  refine (moves_accept? _).mono (fun t? taken h => ?_) |>.map
  obtain ⟨rfl, h⟩ := h
  cases t? with
  | some t => exact .inl ⟨rfl, t, rfl, by simpa using h t rfl⟩
  | none => exact .inr ⟨rfl, rfl⟩

theorem moves_require (test : Token → Bool) (what : Expected) :
    Moves c (require test what) fun t taken => taken = [t] ∧ test t = true := by
  refine (moves_accept? test).bind fun t? taken c₁ _ h => ?_
  obtain ⟨rfl, h⟩ := h
  cases t? with
  | some t => exact .pure ⟨rfl, h t rfl⟩
  | none => exact .unexpected

theorem moves_expect (kind : TokenKind) (what : Expected) :
    Moves c (expect kind what) fun t taken => taken = [t] ∧ t.kind = kind :=
  (moves_require _ what).mono fun _ _ ⟨h, hk⟩ => ⟨h, by simpa using hk⟩

theorem moves_discard (kind : TokenKind) (what : Expected) :
    Moves c (discard (expect kind what)) fun _ taken => ∃ t, taken = [t] ∧ t.kind = kind :=
  (moves_expect kind what).mono (fun t _ h => ⟨t, h⟩) |>.map

theorem moves_expectKeyword (k : Keyword) :
    Moves c (expectKeyword k) fun _ taken => ∃ t, taken = [t] ∧ t.kind = .keyword k :=
  moves_discard (.keyword k) (.keyword k)

theorem moves_expectName (what : Expected) :
    Moves c (expectName what) fun _ taken => ∃ t, taken = [t] ∧ t.isName = true :=
  (moves_require _ what).mono (fun t _ h => ⟨t, h⟩) |>.map

end Steps

section Runs

variable {stop : Token → Bool}

theorem lands_skipRun (budget depth position : Nat) (tokens : List Token) :
    Lands ⟨position, tokens⟩ (fun opened taken => (opened = 0 → Closes depth taken) ∧
      hasOutside (endsRun stop) depth taken = false)
      (skipRun stop budget depth position tokens) := by
  fun_induction skipRun stop budget depth position tokens with
  | case1 budget depth position => exact ⟨[], .refl _, id, rfl⟩
  | case2 depth position t rest => exact Error.pointsInto_of_fatal rfl _
  | case3 depth position t rest budget h =>
    have hdepth : depth = 0 := by simpa using (Bool.and_elim_left h)
    exact ⟨[], .refl _, fun _ => hdepth, rfl⟩
  | case4 depth position t rest budget h ih =>
    have h : (depth == 0 && endsRun stop t) = false := by simpa using h
    have hclose (hk : t.kind = .closeParen) : 0 < depth := by
      refine Nat.pos_of_ne_zero fun hd => ?_
      simp [hd, endsRun, hk] at h
    have hmoved := Cursor.moved_cons position t rest
    cases hr : skipRun stop budget (t.nest depth) (position + 1) rest with
    | ok opened c₁ =>
      rw [hr] at ih
      obtain ⟨taken, htaken, hcloses, houtside⟩ := ih
      refine ⟨t :: taken, hmoved.trans htaken, fun hopened => ⟨hclose, hcloses hopened⟩, ?_⟩
      rw [hasOutside, h, houtside, Bool.or_false]
    | error e c₁ =>
      rw [hr] at ih
      exact Error.PointsInto.mono ih fun u => hmoved.mem

/-- A run is balanced, and no token ends it that stands outside the parentheses in it. -/
theorem moves_run (stop : Token → Bool) :
    Moves c (run stop) fun tokens taken => tokens = taken ∧ Clear (endsRun stop) taken := by
  have hskip : Moves c (fun c => skipRun stop (Ceiling.steps .expression).limit 0 c.position c.rest)
    _ := lands_skipRun _ 0 c.position c.rest
  refine .get (hskip.bind fun opened taken c₁ hmoved h => ?_)
  obtain ⟨hcloses, houtside⟩ := h
  dsimp only
  split_ifs with hopened
  · exact Moves.error fun cause hcause => by cases hcause; nofun
  · have hclear : Clear (endsRun stop) taken := ⟨hcloses (by omega), houtside⟩
    refine .get (.pure ?_)
    rw [List.append_nil]
    exact ⟨hmoved.since, hclear⟩

theorem moves_captureExpression (source : String) (stop : Token → Bool) :
    Moves c (captureExpression source stop) fun _ => Clear (endsRun stop) := by
  refine (moves_run stop).bind fun tokens taken c₁ _ h => ?_
  split <;> exact .pure (by simpa using h.2)

end Runs

section Groups

theorem lands_skipGroup (budget depth position : Nat) (tokens : List Token) :
    Lands ⟨position, tokens⟩
      (fun _ taken => ∃ ts t, taken = ts ++ [t] ∧ t.kind = .closeParen ∧ Closes depth ts)
      (skipGroup budget depth position tokens) := by
  fun_induction skipGroup budget depth position tokens with
  | case1 budget depth position => exact fun cause hcause => by cases hcause; nofun
  | case2 depth position t rest => exact Error.pointsInto_of_fatal rfl _
  | case3 depth position t rest budget h =>
    obtain ⟨hdepth, hclose⟩ : depth = 0 ∧ t.kind = .closeParen := by simpa using h
    exact ⟨[t], ⟨rfl, rfl⟩, [], t, rfl, hclose, hdepth⟩
  | case4 depth position t rest budget h ih =>
    have hclose (hk : t.kind = .closeParen) : 0 < depth := by
      refine Nat.pos_of_ne_zero fun hd => h ?_
      simp [hd, hk]
    have hmoved := Cursor.moved_cons position t rest
    cases hr : skipGroup budget (t.nest depth) (position + 1) rest with
    | ok _ c₁ =>
      rw [hr] at ih
      obtain ⟨taken, htaken, ts, last, rfl, hlast, hcloses⟩ := ih
      exact ⟨_, hmoved.trans htaken, t :: ts, last, rfl, hlast, hclose, hcloses⟩
    | error e c₁ =>
      rw [hr] at ih
      exact Error.PointsInto.mono ih fun u => hmoved.mem

theorem moves_skipToClose : Moves c skipToClose fun _ => GroupEnd :=
  lands_skipGroup _ 0 c.position c.rest

theorem moves_skipBalanced : Moves c skipBalanced fun _ => Group := by
  refine (moves_discard _ _).bind fun _ taken c₁ _ h => ?_
  obtain ⟨o, rfl, ho⟩ := h
  exact moves_skipToClose.mono fun _ taken h => ⟨o, taken, rfl, ho, h⟩

end Groups

section Names

/-- Names and the dots between them. -/
def Dotted (tokens : List Token) : Prop := ∀ t ∈ tokens, t.isName = true ∨ t.kind = .dot

theorem moves_qualifiers (what : Expected) (budget : Nat) (parts : List String) :
    Moves c (qualifiers what budget parts) fun _ => Dotted := by
  induction budget generalizing c parts with
  | zero =>
    unfold qualifiers
    refine (moves_eat _).bind fun eaten taken c₁ _ h => ?_
    obtain ⟨rfl, -⟩ | ⟨rfl, rfl⟩ := h
    · exact .exhausted
    · exact .pure nofun
  | succ budget ih =>
    unfold qualifiers
    refine (moves_eat _).bind fun eaten taken c₁ _ h => ?_
    obtain ⟨rfl, dot, rfl, hdot⟩ | ⟨rfl, rfl⟩ := h
    · refine (moves_expectName what).bind fun name taken c₂ _ h => ?_
      obtain ⟨t, rfl, ht⟩ := h
      refine (ih _).mono fun _ more hmore => ?_
      exact List.forall_mem_cons.2 ⟨.inr hdot, List.forall_mem_cons.2 ⟨.inl ht, hmore⟩⟩
    · exact .pure nofun

theorem moves_qualifiedName (what : Expected) :
    Moves c (qualifiedName what) fun _ => Dotted := by
  refine (moves_expectName what).bind fun first taken c₁ _ h => ?_
  obtain ⟨t, rfl, ht⟩ := h
  refine (moves_qualifiers what _ _).bind fun parts taken c₂ _ h => ?_
  have hall : Dotted ([t] ++ (taken ++ [])) := by
    rw [List.append_nil]
    exact List.forall_mem_cons.2 ⟨.inl ht, h⟩
  split <;> exact .pure hall

end Names

/-- From wherever the step starts, what it takes has the property, whatever its result. -/
def Takes (T : List Token → Prop) (g : Grammar α) : Prop := ∀ c, Moves c g fun _ => T

namespace Takes

variable {T T' : List Token → Prop} {g : Grammar α} {f : α → Grammar β}

theorem mono (h : Takes T g) (hT : ∀ {ts}, T ts → T' ts) : Takes T' g :=
  fun c => (h c).mono fun _ _ => hT

theorem map {f : α → β} (h : Takes T g) : Takes T (f <$> g) := fun c => (h c).map

theorem unexpected {fault : Fault} : Takes T (Grammar.unexpected fault : Grammar α) :=
  fun _ => .unexpected

theorem exhausted {loop : Loop} : Takes T (Grammar.exhausted loop : Grammar α) :=
  fun _ => .exhausted

theorem looksAt {n : Nat} {test : Token → Bool} {f : Bool → Grammar β}
    (h : ∀ found, Takes T (f found)) : Takes T (Grammar.looksAt n test >>= f) :=
  fun c => .looksAt (h _ c)

theorem get {f : Cursor → Grammar β} (h : ∀ c, Takes T (f c)) : Takes T (MonadState.get >>= f) :=
  fun c => .get (h c c)

theorem eat {kind : TokenKind} (hnil : T []) (h : ∀ t, t.kind = kind → T [t]) :
    Takes T (Grammar.eat kind) := fun _ => (moves_eat kind).mono fun _ _ h' => by
  obtain ⟨-, t, rfl, ht⟩ | ⟨-, rfl⟩ := h'
  exacts [h t ht, hnil]

theorem require {test : Token → Bool} {what : Expected} (h : ∀ t, test t = true → T [t]) :
    Takes T (Grammar.require test what) := fun _ => (moves_require test what).mono fun t _ h' => by
  obtain ⟨rfl, ht⟩ := h'
  exact h t ht

theorem expect {kind : TokenKind} {what : Expected} (h : ∀ t, t.kind = kind → T [t]) :
    Takes T (Grammar.expect kind what) := .require fun t ht => h t (by simpa using ht)

theorem expectKeyword {k : Keyword} (h : ∀ t, t.kind = .keyword k → T [t]) :
    Takes T (Grammar.expectKeyword k) := .map (.expect h)

theorem expectName {what : Expected} (h : ∀ t, t.isName = true → T [t]) :
    Takes T (Grammar.expectName what) := .map (.require h)

variable [Joins T]

theorem pure {a : α} : Takes T (Pure.pure a : Grammar α) := fun _ => .pure Joins.nil

theorem check {ceiling : Ceiling} {value : Nat} : Takes T (Grammar.check ceiling value) :=
  fun _ => Moves.check.mono fun _ _ h => by rw [h]; exact Joins.nil

theorem bind (hg : Takes T g) (hf : ∀ a, Takes T (f a)) : Takes T (g >>= f) := fun c =>
  (hg c).bind fun a _ c₁ _ ha => (hf a c₁).mono fun _ _ => Joins.append ha

end Takes

/-- A token that has been looked at is taken. -/
theorem Moves.advance {T : List Token → Prop} [Joins T] {f : Unit → Grammar β}
    (hpeek : c.peek? = some t) (ht : T [t]) (hf : Takes T (f ())) :
    Moves c (Grammar.advance >>= f) fun _ => T :=
  (moves_advance hpeek).bind fun _ taken c₁ _ h => by
    rw [h]
    exact (hf c₁).mono fun _ _ => Joins.append ht

end Grammar

end TypedTables
