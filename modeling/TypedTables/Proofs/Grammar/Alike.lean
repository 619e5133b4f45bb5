import TypedTables.Proofs.Grammar.Extent
import TypedTables.Proofs.Grammar.Type
import TypedTables.Proofs.Token.Content

/-!
The same tokens in another place. A step that succeeds looks at the tokens that it takes and at the
next one, and at what they say, not where they stand. So it takes such tokens wherever they are, and
gives the same for them.
-/

namespace TypedTables

section Alike

variable {α : Type} {source source' : String} {t t' : Token} {ts us vs rest rest' : List Token}

/-- A property of what a token says. -/
def OfContent (f : Token → α) : Prop :=
  ∀ kind text span span', f ⟨kind, text, span⟩ = f ⟨kind, text, span'⟩

theorem OfContent.eq {f : Token → α} (hf : OfContent f) (h : t.content = t'.content) :
    f t = f t' := by
  obtain ⟨kind, text, span⟩ := t
  obtain ⟨kind', text', span'⟩ := t'
  obtain ⟨rfl, rfl⟩ := Prod.mk.inj h
  exact hf _ _ _ _

/-- Tokens of two texts that say the same, and of which the texts show the same. -/
structure Alike (source source' : String) (ts ts' : List Token) : Prop where
  contents : ts.map Token.content = ts'.map Token.content
  texts : ∀ i n, sourceText source ((ts.drop i).take n) = sourceText source' ((ts'.drop i).take n)

namespace Alike

theorem length_eq (h : Alike source source' ts us) : ts.length = us.length := by
  simpa using congrArg List.length h.contents

theorem sourceText_eq (h : Alike source source' ts us) :
    sourceText source ts = sourceText source' us := by
  have htexts := h.texts 0 ts.length
  rwa [List.drop_zero, List.drop_zero, List.take_length, h.length_eq, List.take_length] at htexts

theorem drop (h : Alike source source' ts us) (n : Nat) :
    Alike source source' (ts.drop n) (us.drop n) where
  contents := by rw [List.map_drop, List.map_drop, h.contents]
  texts i m := by rw [List.drop_drop, List.drop_drop, h.texts]

theorem nil : Alike source source' [] [] := ⟨rfl, fun i n => by simp [sourceText]⟩

theorem eq_nil (h : Alike source source' [] us) : us = [] :=
  List.eq_nil_of_length_eq_zero h.length_eq.symm

/-- A part of a front is one of the whole that does not go beyond the front. -/
theorem take_drop_append (xs ys : List Token) (i n : Nat) :
    ((xs ++ ys).drop i).take (min n (xs.length - i)) = (xs.drop i).take n := by
  have hlength : min n (xs.length - i) ≤ (xs.drop i).length := by
    rw [List.length_drop]
    exact Nat.min_le_right _ _
  rw [List.drop_append, List.take_append_of_le_length hlength, ← List.length_drop,
    ← List.take_take, List.take_length]

theorem exists_append (h : Alike source source' (ts ++ us) vs) : ∃ ts' us', vs = ts' ++ us' ∧
    Alike source source' ts ts' ∧ Alike source source' us us' := by
  obtain ⟨ts', us', rfl, hts⟩ : ∃ ts' us', vs = ts' ++ us' ∧ ts'.length = ts.length := by
    refine ⟨vs.take ts.length, vs.drop ts.length, (List.take_append_drop _ vs).symm, ?_⟩
    have hlength := h.length_eq
    rw [List.length_append] at hlength
    rw [List.length_take]
    omega
  have hcontents := h.contents
  rw [List.map_append, List.map_append] at hcontents
  obtain ⟨hfront, hback⟩ := List.append_inj hcontents (by simpa using hts.symm)
  refine ⟨ts', us', rfl, ⟨hfront, fun i n => ?_⟩, ⟨hback, fun i n => ?_⟩⟩
  · have htexts := h.texts i (min n (ts.length - i))
    rwa [take_drop_append, ← hts, take_drop_append] at htexts
  · have htexts := h.texts (ts.length + i) n
    rwa [← List.drop_drop, List.drop_left, ← hts, ← List.drop_drop, List.drop_left] at htexts

theorem exists_cons (h : Alike source source' (t :: ts) vs) : ∃ t' ts', vs = t' :: ts' ∧
    t.content = t'.content ∧ Alike source source' ts ts' := by
  have h : Alike source source' ([t] ++ ts) vs := h
  obtain ⟨first, ts', rfl, hfirst, hts⟩ := h.exists_append
  obtain ⟨t', rfl⟩ := List.length_eq_one_iff.1 hfirst.length_eq.symm
  exact ⟨t', ts', rfl, (List.cons.inj hfirst.contents).1, hts⟩

theorem exists_single (h : Alike source source' [t] vs) :
    ∃ t', vs = [t'] ∧ t.content = t'.content := by
  obtain ⟨t', ts', rfl, ht, hts⟩ := h.exists_cons
  exact ⟨t', by rw [hts.eq_nil], ht⟩

end Alike

/-- Two lists of tokens of which the first ones say the same, if there are any. -/
def SameNext (rest rest' : List Token) : Prop :=
  rest.head?.map Token.content = rest'.head?.map Token.content

namespace SameNext

theorem eq_nil (h : SameNext [] rest) : rest = [] := by
  cases rest with
  | nil => rfl
  | cons t rest => contradiction

theorem exists_cons (h : SameNext (t :: rest) us) :
    ∃ t' rest', us = t' :: rest' ∧ t.content = t'.content := by
  cases us with
  | nil => contradiction
  | cons t' rest' => exact ⟨t', rest', rfl, Option.some.inj h⟩

theorem append (h : SameNext rest rest') (hts : Alike source source' ts us) :
    SameNext (ts ++ rest) (us ++ rest') := by
  cases ts with
  | nil =>
    rw [hts.eq_nil]
    exact h
  | cons t ts =>
    obtain ⟨t', ts', rfl, ht, -⟩ := hts.exists_cons
    exact congrArg some ht

theorem of_moved {c c₁ : Cursor} (h : SameNext c₁.rest rest') (hmoved : c.Moved ts c₁)
    (hts : Alike source source' ts us) : SameNext c.rest (us ++ rest') := by
  rw [hmoved.rest]
  exact h.append hts

/-- All that can be seen up to the next token is alike. -/
theorem any_getElem? (h : SameNext rest rest') (hts : Alike source source' ts us) {n : Nat}
    (hn : n ≤ ts.length) {test : Token → Bool} (htest : OfContent test) :
    (ts ++ rest)[n]?.any test = (us ++ rest')[n]?.any test := by
  induction n generalizing ts us with
  | zero =>
    have hsame := h.append hts
    rw [← List.head?_eq_getElem?, ← List.head?_eq_getElem?]
    generalize ts ++ rest = xs at hsame
    cases xs with
    | nil => rw [hsame.eq_nil]
    | cons t xs =>
      obtain ⟨t', xs', hxs, ht⟩ := hsame.exists_cons
      rw [hxs]
      exact htest.eq ht
  | succ n ih =>
    cases ts with
    | nil => contradiction
    | cons t ts =>
      obtain ⟨t', ts', rfl, -, hts⟩ := hts.exists_cons
      exact ih hts (Nat.le_of_succ_le_succ hn)

end SameNext

end Alike

namespace Grammar

variable {α β γ δ : Type} {source source' : String} {R : α → β → Prop} {S : γ → δ → Prop}
  {c c₁ : Cursor} {taken taken' rest' : List Token}

/-- Where the first step succeeds, the second one takes tokens that are alike, wherever they stand,
if the next tokens say the same; and its result goes with that of the first. -/
def Repeats (source source' : String) (R : α → β → Prop) (g : Grammar α) (g' : Grammar β) : Prop :=
  ∀ c a c₁, g c = .ok a c₁ → ∃ taken, c.Moved taken c₁ ∧ ∀ p taken' rest',
    Alike source source' taken taken' → SameNext c₁.rest rest' →
      ∃ b, g' ⟨p, taken' ++ rest'⟩ = .ok b ⟨p + taken'.length, rest'⟩ ∧ R a b

namespace Repeats

variable {g : Grammar α} {g' : Grammar β} {f : α → Grammar γ} {f' : β → Grammar δ}

/-- The tokens that a step takes are those that it is known to move past. -/
theorem of_moved (hg : Repeats source source' R g g') {a : α} (ha : g c = .ok a c₁)
    (hmoved : c.Moved taken c₁) (p : Nat) (halike : Alike source source' taken taken')
    (hnext : SameNext c₁.rest rest') :
    ∃ b, g' ⟨p, taken' ++ rest'⟩ = .ok b ⟨p + taken'.length, rest'⟩ ∧ R a b := by
  obtain ⟨taken₁, hmoved₁, hg⟩ := hg c a c₁ ha
  obtain rfl := hmoved₁.eq hmoved
  exact hg p taken' rest' halike hnext

theorem pure {a : α} {b : β} (h : R a b) :
    Repeats source source' R (Pure.pure a) (Pure.pure b) := by
  rintro c _ _ ⟨⟩
  refine ⟨[], .refl c, fun p taken' rest' halike _ => ⟨b, ?_, h⟩⟩
  rw [halike.eq_nil]
  rfl

theorem mono (h : Repeats source source' R g g') {R' : α → β → Prop} (hR : ∀ a b, R a b → R' a b) :
    Repeats source source' R' g g' := by
  intro c a c₁ ha
  obtain ⟨taken, hmoved, h⟩ := h c a c₁ ha
  refine ⟨taken, hmoved, fun p taken' rest' halike hnext => ?_⟩
  obtain ⟨b, hb, hR'⟩ := h p taken' rest' halike hnext
  exact ⟨b, hb, hR a b hR'⟩

theorem throw {e : Error} : Repeats source source' R (throw e) g' := nofun

theorem unexpected {fault : Fault} : Repeats source source' R (Grammar.unexpected fault) g' := nofun

theorem exhausted {loop : Loop} : Repeats source source' R (Grammar.exhausted loop) g' := nofun

theorem bind (hg : Repeats source source' R g g') (hR : ∀ a, ∃ b, R a b)
    (hf : ∀ a b, R a b → Repeats source source' S (f a) (f' b)) :
    Repeats source source' S (g >>= f) (g' >>= f') := by
  intro c x c₂ h
  obtain ⟨a, c₁, ha, hx⟩ := bind_eq_ok.1 h
  obtain ⟨ts, hts, hg⟩ := hg c a c₁ ha
  obtain ⟨b, hab⟩ := hR a
  obtain ⟨us, hus, -⟩ := hf a b hab c₁ x c₂ hx
  refine ⟨ts ++ us, hts.trans hus, fun p taken' rest' halike hnext => ?_⟩
  obtain ⟨ts', us', rfl, hts', hus'⟩ := halike.exists_append
  obtain ⟨b, hb, hab⟩ := hg p ts' (us' ++ rest') hts' (hnext.of_moved hus hus')
  obtain ⟨y, hy, hxy⟩ := (hf a b hab).of_moved hx hus (p + ts'.length) hus' hnext
  rw [← List.append_assoc] at hb
  rw [Nat.add_assoc, ← List.length_append] at hy
  exact ⟨y, bind_eq_ok.2 ⟨b, _, hb, hy⟩, hxy⟩

theorem seq {g : Grammar α} {g' : Grammar α} {f : α → Grammar γ} {f' : α → Grammar δ}
    (hg : Repeats source source' Eq g g') (hf : ∀ a, Repeats source source' S (f a) (f' a)) :
    Repeats source source' S (g >>= f) (g' >>= f') :=
  hg.bind (fun a => ⟨a, rfl⟩) fun a _ hab => hab ▸ hf a

theorem map {h : α → γ} {h' : β → δ} (hg : Repeats source source' (fun a b => S (h a) (h' b)) g g') :
    Repeats source source' S (h <$> g) (h' <$> g') := by
  intro c x c₁ hx
  rw [← bind_pure_comp] at hx
  obtain ⟨a, c₂, ha, hx⟩ := bind_eq_ok.1 hx
  cases hx
  obtain ⟨taken, hmoved, hg⟩ := hg c a c₁ ha
  refine ⟨taken, hmoved, fun p taken' rest' halike hnext => ?_⟩
  obtain ⟨b, hb, hab⟩ := hg p taken' rest' halike hnext
  refine ⟨h' b, ?_, hab⟩
  rw [← bind_pure_comp]
  exact bind_eq_ok.2 ⟨b, _, hb, rfl⟩

/-! Steps that only look. -/

/-- What is looked at lies among the tokens that are taken, or is the next one. -/
theorem look {ε : Type} (look : List Token → ε) (f : ε → Grammar α) (f' : ε → Grammar β)
    {T : List Token → Prop} (hf : ∀ x, Repeats source source' R (f x) (f' x))
    (hT : ∀ c a c₁, f (look c.rest) c = .ok a c₁ → ∃ taken, c.Moved taken c₁ ∧ T taken)
    (hlook : ∀ taken taken' rest rest', T taken → Alike source source' taken taken' →
      SameNext rest rest' → look (taken ++ rest) = look (taken' ++ rest')) :
    Repeats source source' R (fun c => f (look c.rest) c) (fun c => f' (look c.rest) c) := by
  intro c a c₁ h
  obtain ⟨taken, hmoved, htaken⟩ := hT c a c₁ h
  refine ⟨taken, hmoved, fun p taken' rest' halike hnext => ?_⟩
  dsimp only
  rw [← hlook taken taken' c₁.rest rest' htaken halike hnext, ← hmoved.rest]
  exact (hf _).of_moved h hmoved p halike hnext

theorem peek? {f : Option Token → Grammar α} {f' : Option Token → Grammar β}
    (hf : ∀ t? t'?, t?.map Token.content = t'?.map Token.content →
      Repeats source source' R (f t?) (f' t'?)) :
    Repeats source source' R (Grammar.peek? >>= f) (Grammar.peek? >>= f') := by
  intro c a c₁ h
  change f c.peek? c = .ok a c₁ at h
  obtain ⟨taken, hmoved, -⟩ := hf c.peek? c.peek? rfl c a c₁ h
  refine ⟨taken, hmoved, fun p taken' rest' halike hnext => ?_⟩
  have hsame : c.peek?.map Token.content = (taken' ++ rest').head?.map Token.content :=
    hnext.of_moved hmoved halike
  exact (hf c.peek? (taken' ++ rest').head? hsame).of_moved h hmoved p halike hnext

theorem looksAt {test : Token → Bool} (htest : OfContent test) {f : Bool → Grammar α}
    {f' : Bool → Grammar β} (hf : ∀ found, Repeats source source' R (f found) (f' found)) :
    Repeats source source' R (Grammar.looksAt 0 test >>= f) (Grammar.looksAt 0 test >>= f') := by
  refine look (fun ts => ts[0]?.any test) f f' (T := fun _ => True) hf (fun c a c₁ h => ?_)
    fun taken taken' rest rest' _ halike hnext => ?_
  · obtain ⟨taken, hmoved, -⟩ := hf _ c a c₁ h
    exact ⟨taken, hmoved, trivial⟩
  · exact hnext.any_getElem? halike (Nat.zero_le _) htest

end Repeats

section Steps

variable {test stop : Token → Bool} {kind : TokenKind} {k : Keyword} {what : Expected}

theorem ofContent_kind (f : TokenKind → α) : OfContent fun t => f t.kind := fun _ _ _ _ => rfl

theorem repeats_advance : Repeats source source' Eq advance advance := by
  rintro c _ _ ⟨⟩
  obtain ⟨position, rest⟩ := c
  cases rest with
  | nil =>
    refine ⟨[], .refl _, fun p taken' rest' halike hnext => ⟨(), ?_, rfl⟩⟩
    rw [halike.eq_nil, hnext.eq_nil]
    rfl
  | cons t rest =>
    refine ⟨[t], ⟨rfl, rfl⟩, fun p taken' rest' halike hnext => ⟨(), ?_, rfl⟩⟩
    obtain ⟨t', rfl, -⟩ := halike.exists_single
    rfl

theorem repeats_finish :
    Repeats source source' Eq (modify Cursor.finish) (modify Cursor.finish) := by
  rintro c _ _ ⟨⟩
  refine ⟨c.rest, c.moved_finish, fun p taken' rest' halike hnext => ⟨(), ?_, rfl⟩⟩
  rw [hnext.eq_nil, List.append_nil]
  rfl

theorem repeats_check (ceiling : Ceiling) (value : Nat) :
    Repeats source source' Eq (check ceiling value) (check ceiling value) := by
  intro c a c₁ h
  obtain ⟨taken, hmoved, rfl⟩ := Moves.check.of_ok h
  obtain rfl : c₁ = c := by
    unfold check at h
    split at h <;> cases h
    rfl
  refine ⟨[], hmoved, fun p taken' rest' halike _ => ⟨a, ?_, rfl⟩⟩
  have hvalue : value ≤ ceiling.limit := Yields.check _ _ _ h
  rw [halike.eq_nil, check, Ceiling.check_eq_ok.2 hvalue]
  rfl

theorem repeats_accept? (htest : OfContent test) :
    Repeats source source' (fun t? t'? => t?.map Token.content = t'?.map Token.content)
      (accept? test) (accept? test) := by
  intro c t? c₁ h
  obtain ⟨position, rest⟩ := c
  unfold accept? at h
  cases rest with
  | nil =>
    cases h
    refine ⟨[], .refl _, fun p taken' rest' halike hnext => ⟨none, ?_, rfl⟩⟩
    rw [halike.eq_nil, hnext.eq_nil]
    rfl
  | cons t rest =>
    dsimp only at h
    split_ifs at h with ht
    · cases h
      refine ⟨[t], ⟨rfl, rfl⟩, fun p taken' rest' halike hnext => ?_⟩
      obtain ⟨t', rfl, hcontent⟩ := halike.exists_single
      refine ⟨some t', ?_, congrArg some hcontent⟩
      have ht' : test t' = true := by rw [← htest.eq hcontent, ht]
      simp [accept?, ht']
    · cases h
      refine ⟨[], .refl _, fun p taken' rest' halike hnext => ⟨none, ?_, rfl⟩⟩
      obtain ⟨t', rest', rfl, hcontent⟩ := hnext.exists_cons
      have ht' : ¬ test t' = true := by rwa [← htest.eq hcontent]
      simp [halike.eq_nil, accept?, ht']

theorem repeats_eat (kind : TokenKind) : Repeats source source' Eq (eat kind) (eat kind) :=
  ((repeats_accept? (ofContent_kind (· == kind))).mono fun t? t'? h => by
    cases t? <;> cases t'? <;> first | rfl | contradiction).map

theorem repeats_require (htest : OfContent test) (what : Expected) :
    Repeats source source' (fun t t' => t.content = t'.content) (require test what)
      (require test what) := by
  refine (repeats_accept? htest).bind (fun t? => ⟨t?, rfl⟩) fun t? t'? h => ?_
  cases t? with
  | none =>
    exact .unexpected
  | some t =>
    cases t'? with
    | none => contradiction
    | some t' => exact .pure (Option.some.inj h)

theorem repeats_expect (kind : TokenKind) (what : Expected) :
    Repeats source source' (fun t t' => t.content = t'.content) (expect kind what)
      (expect kind what) := repeats_require (ofContent_kind (· == kind)) what

theorem repeats_discard (kind : TokenKind) (what : Expected) :
    Repeats source source' Eq (discard (expect kind what)) (discard (expect kind what)) :=
  ((repeats_expect kind what).mono fun _ _ _ => rfl).map

theorem repeats_expectKeyword (k : Keyword) :
    Repeats source source' Eq (expectKeyword k) (expectKeyword k) := repeats_discard _ _

theorem repeats_text (htest : OfContent test) (what : Expected) :
    Repeats source source' Eq (Token.text <$> require test what)
      (Token.text <$> require test what) :=
  ((repeats_require htest what).mono fun _ _ h => (Prod.mk.inj h).2).map

theorem ofContent_isName : OfContent Token.isName := fun _ _ _ _ => rfl

theorem repeats_expectName (what : Expected) :
    Repeats source source' Eq (expectName what) (expectName what) :=
  repeats_text ofContent_isName what

end Steps

section Runs

variable {stop : Token → Bool} {ts us : List Token}

theorem nest_eq {t t' : Token} (h : t.content = t'.content) (depth : Nat) :
    t.nest depth = t'.nest depth := OfContent.eq (f := (·.nest depth)) (fun _ _ _ _ => rfl) h

theorem closes_congr (h : ts.map Token.content = us.map Token.content) {depth : Nat}
    (hts : Closes depth ts) : Closes depth us := by
  induction ts generalizing us depth with
  | nil =>
    rw [List.map_eq_nil_iff.1 h.symm]
    exact hts
  | cons t ts ih =>
    obtain ⟨u, us, rfl, hu, hus⟩ := List.map_eq_cons_iff.1 h.symm
    refine ⟨fun hclose => hts.1 ?_, ?_⟩
    · rw [← hclose, (Prod.mk.inj hu).1]
    · rw [nest_eq hu]
      exact ih hus.symm hts.2

theorem hasOutside_congr (h : ts.map Token.content = us.map Token.content) {p : Token → Bool}
    (hp : OfContent p) (depth : Nat) : hasOutside p depth ts = hasOutside p depth us := by
  induction ts generalizing us depth with
  | nil => rw [List.map_eq_nil_iff.1 h.symm]
  | cons t ts ih =>
    obtain ⟨u, us, rfl, hu, hus⟩ := List.map_eq_cons_iff.1 h.symm
    rw [hasOutside, hasOutside, hp.eq hu, nest_eq hu, ih hus.symm]

theorem clear_congr (h : ts.map Token.content = us.map Token.content) {p : Token → Bool}
    (hp : OfContent p) (hts : Clear p ts) : Clear p us :=
  ⟨closes_congr h hts.closes, by rw [← hasOutside_congr h hp, hts.outside]⟩

theorem ofContent_endsRun (hstop : OfContent stop) : OfContent (endsRun stop) :=
  fun kind text span span' => by rw [endsRun, endsRun, hstop kind text span span']

theorem repeats_skipRun (hstop : OfContent stop) (budget depth : Nat) :
    Repeats source source' Eq (fun c => skipRun stop budget depth c.position c.rest)
      (fun c => skipRun stop budget depth c.position c.rest) := by
  rintro ⟨position, rest⟩ opened c₁ h
  dsimp only at h
  fun_induction skipRun stop budget depth position rest with
  | case1 budget depth position =>
    cases h
    refine ⟨[], .refl _, fun p taken' rest' halike hnext => ⟨_, ?_, rfl⟩⟩
    dsimp only
    rw [halike.eq_nil, hnext.eq_nil, List.append_nil, skipRun]
    rfl
  | case2 depth position t rest => contradiction
  | case3 depth position t rest budget hends =>
    cases h
    refine ⟨[], .refl _, fun p taken' rest' halike hnext => ⟨_, ?_, rfl⟩⟩
    obtain ⟨t', rest', rfl, ht⟩ := hnext.exists_cons
    dsimp only
    rw [halike.eq_nil, List.nil_append, skipRun, ← (ofContent_endsRun hstop).eq ht, if_pos hends]
    rfl
  | case4 depth position t rest budget hends ih =>
    obtain ⟨taken, hmoved, hrepeats⟩ := ih h
    refine ⟨t :: taken, (Cursor.moved_cons position t rest).trans hmoved,
      fun p taken' rest' halike hnext => ?_⟩
    obtain ⟨t', taken', rfl, ht, halike⟩ := halike.exists_cons
    obtain ⟨opened', hopened, rfl⟩ := hrepeats (p + 1) taken' rest' halike hnext
    refine ⟨opened, ?_, rfl⟩
    dsimp only at hopened ⊢
    rw [List.cons_append, skipRun, ← (ofContent_endsRun hstop).eq ht, if_neg hends, ← nest_eq ht,
      hopened, List.length_cons, Nat.add_assoc, Nat.add_comm 1]

/-- What has been taken by a step that may be marked before it. -/
theorem Repeats.since {g : Grammar α} {g' : Grammar β} (f : α → List Token → Grammar γ)
    (f' : β → List Token → Grammar δ) (hg : Repeats source source' R g g')
    (hf : ∀ a b ts us, R a b → Alike source source' ts us →
      Repeats source source' S (f a ts) (f' b us))
    (hmoves : ∀ a ts, Takes Anything (f a ts)) :
    Repeats source source' S (do let mark ← get; let a ← g; f a ((← get).since mark))
      (do let mark ← get; let b ← g'; f' b ((← get).since mark)) := by
  intro c x c₂ h
  obtain ⟨mark, c, ⟨⟩, h⟩ := bind_eq_ok.1 h
  obtain ⟨a, c₁, ha, h⟩ := bind_eq_ok.1 h
  obtain ⟨_, _, ⟨⟩, hx⟩ := bind_eq_ok.1 h
  obtain ⟨ts, hts, hg⟩ := hg c a c₁ ha
  obtain ⟨us, hus, -⟩ := (hmoves a _ c₁).of_ok hx
  rw [hts.since] at hx
  refine ⟨ts ++ us, hts.trans hus, fun p taken' rest' halike hnext => ?_⟩
  obtain ⟨ts', us', rfl, hts', hus'⟩ := halike.exists_append
  obtain ⟨b, hb, hab⟩ := hg p ts' (us' ++ rest') hts' (hnext.of_moved hus hus')
  obtain ⟨y, hy, hxy⟩ :=
    (hf a b ts ts' hab hts').of_moved hx hus (p + ts'.length) hus' hnext
  rw [← List.append_assoc] at hb
  rw [Nat.add_assoc, ← List.length_append] at hy
  have hmoved : (⟨p, ts' ++ us' ++ rest'⟩ : Cursor).Moved ts' ⟨p + ts'.length, us' ++ rest'⟩ :=
    ⟨List.append_assoc _ _ _, rfl⟩
  refine ⟨y, bind_eq_ok.2 ⟨_, _, rfl, bind_eq_ok.2 ⟨b, _, hb, bind_eq_ok.2 ⟨_, _, rfl, ?_⟩⟩⟩, hxy⟩
  rw [hmoved.since]
  exact hy

theorem run_eq_ok {tokens : List Token} {c c₁ : Cursor} : run stop c = .ok tokens c₁ ↔
    skipRun stop (Ceiling.steps .expression).limit 0 c.position c.rest = .ok 0 c₁ ∧
      tokens = c₁.since c := by
  unfold run
  constructor
  · intro h
    obtain ⟨mark, c, ⟨⟩, h⟩ := bind_eq_ok.1 h
    obtain ⟨opened, c₂, hskip, h⟩ := bind_eq_ok.1 h
    dsimp only at h
    split_ifs at h with hopened
    · contradiction
    · cases h
      obtain rfl : opened = 0 := by omega
      exact ⟨hskip, rfl⟩
  · rintro ⟨hskip, rfl⟩
    exact bind_eq_ok.2 ⟨c, c, rfl, bind_eq_ok.2 ⟨0, c₁, hskip, rfl⟩⟩

theorem repeats_run (hstop : OfContent stop) :
    Repeats source source' (Alike source source') (run stop) (run stop) := by
  intro c tokens c₁ h
  obtain ⟨hskip, rfl⟩ := run_eq_ok.1 h
  obtain ⟨taken, hmoved, hrepeats⟩ := repeats_skipRun hstop _ _ c 0 c₁ hskip
  refine ⟨taken, hmoved, fun p taken' rest' halike hnext => ?_⟩
  obtain ⟨_, hskip', rfl⟩ := hrepeats p taken' rest' halike hnext
  have hmoved' : (⟨p, taken' ++ rest'⟩ : Cursor).Moved taken' ⟨p + taken'.length, rest'⟩ :=
    ⟨rfl, rfl⟩
  refine ⟨taken', run_eq_ok.2 ⟨hskip', hmoved'.since.symm⟩, ?_⟩
  rwa [hmoved.since]

theorem repeats_discard_run (hstop : OfContent stop) :
    Repeats source source' Eq (discard (run stop)) (discard (run stop)) :=
  ((repeats_run hstop).mono fun _ _ _ => rfl).map

theorem captureExpression_eq (source : String) (stop : Token → Bool) :
    captureExpression source stop =
      (fun tokens => if tokens = [] then none else some (sourceText source tokens)) <$> run stop := by
  rw [captureExpression, ← bind_pure_comp]
  congr 1
  funext tokens
  cases tokens <;> rfl

theorem repeats_captureExpression (hstop : OfContent stop) :
    Repeats source source' Eq (captureExpression source stop) (captureExpression source' stop) := by
  rw [captureExpression_eq, captureExpression_eq]
  refine ((repeats_run hstop).mono fun tokens tokens' halike => ?_).map
  cases tokens with
  | nil => rw [halike.eq_nil]; rfl
  | cons t tokens =>
    obtain ⟨t', tokens', rfl, -, -⟩ := halike.exists_cons
    rw [if_neg (List.cons_ne_nil _ _), if_neg (List.cons_ne_nil _ _), halike.sourceText_eq]

end Runs

section Groups

theorem repeats_skipGroup (budget depth : Nat) :
    Repeats source source' Eq (fun c => skipGroup budget depth c.position c.rest)
      (fun c => skipGroup budget depth c.position c.rest) := by
  rintro ⟨position, rest⟩ _ c₁ h
  dsimp only at h
  fun_induction skipGroup budget depth position rest with
  | case1 budget depth position => contradiction
  | case2 depth position t rest => contradiction
  | case3 depth position t rest budget hclose =>
    cases h
    refine ⟨[t], ⟨rfl, rfl⟩, fun p taken' rest' halike hnext => ⟨(), ?_, rfl⟩⟩
    obtain ⟨t', rfl, ht⟩ := halike.exists_single
    have hkind : t.kind = t'.kind := (Prod.mk.inj ht).1
    dsimp only
    rw [List.singleton_append, skipGroup, ← hkind, if_pos hclose]
    rfl
  | case4 depth position t rest budget hclose ih =>
    obtain ⟨taken, hmoved, hrepeats⟩ := ih h
    refine ⟨t :: taken, (Cursor.moved_cons position t rest).trans hmoved,
      fun p taken' rest' halike hnext => ?_⟩
    obtain ⟨t', taken', rfl, ht, halike⟩ := halike.exists_cons
    have hkind : t.kind = t'.kind := (Prod.mk.inj ht).1
    obtain ⟨_, hskip, -⟩ := hrepeats (p + 1) taken' rest' halike hnext
    refine ⟨(), ?_, rfl⟩
    dsimp only at hskip ⊢
    rw [List.cons_append, skipGroup, ← hkind, if_neg hclose, ← nest_eq ht, hskip,
      List.length_cons, Nat.add_assoc, Nat.add_comm 1]

theorem repeats_skipToClose : Repeats source source' Eq skipToClose skipToClose :=
  repeats_skipGroup _ 0

theorem repeats_skipBalanced : Repeats source source' Eq skipBalanced skipBalanced :=
  (repeats_discard _ _).seq fun _ => repeats_skipToClose

end Groups

section Names

variable {what : Expected}

theorem repeats_qualifiers (budget : Nat) (parts : List String) :
    Repeats source source' Eq (qualifiers what budget parts) (qualifiers what budget parts) := by
  induction budget generalizing parts with
  | zero =>
    unfold qualifiers
    refine (repeats_eat _).seq fun dot => ?_
    cases dot with
    | true => exact .exhausted
    | false => exact .pure rfl
  | succ budget ih =>
    unfold qualifiers
    refine (repeats_eat _).seq fun dot => ?_
    cases dot with
    | true => exact (repeats_expectName what).seq fun name => ih _
    | false => exact .pure rfl

theorem repeats_qualifiedName (what : Expected) :
    Repeats source source' Eq (qualifiedName what) (qualifiedName what) := by
  refine (repeats_expectName what).seq fun first => ?_
  refine (repeats_qualifiers _ _).seq fun parts => ?_
  split <;> exact .pure rfl

end Names

end Grammar

end TypedTables
