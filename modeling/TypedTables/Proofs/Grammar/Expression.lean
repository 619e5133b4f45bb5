import TypedTables.Proofs.Grammar.Reads
import TypedTables.Proofs.Token.Excerpt

/-!
Where expressions end: at the first token outside the parentheses in them that ends a run. There is
no such place exactly if a parenthesis that is opened in front of it is never closed.
-/

namespace TypedTables

open String (utf8Len)

section Balance

variable {ts us : List Token} {depth n : Nat}

theorem Closes.of_append (h : Closes depth ts) (h' : Closes (depth + n) (ts ++ us)) :
    Closes n us := by
  induction ts generalizing depth with
  | nil =>
    obtain rfl : depth = 0 := h
    rwa [Nat.zero_add] at h'
  | cons t ts ih =>
    obtain ⟨hc, h⟩ := h
    refine ih h ?_
    rw [← t.nest_add hc]
    exact h'.2

/-- What closes the innermost of the open parentheses comes first. -/
theorem exists_groupEnd (h : Closes (depth + 1) ts) :
    ∃ us vs, ts = us ++ vs ∧ GroupEnd us ∧ Closes depth vs := by
  -- along the length: the group of a parenthesis that is opened in between is passed at once
  induction hn : ts.length using Nat.strong_induction_on generalizing ts depth with
  | _ n ih =>
    cases ts with
    | nil => contradiction
    | cons t ts =>
      obtain ⟨-, h⟩ := h
      have hlt : ts.length < n := by rw [← hn]; exact Nat.lt_succ_self _
      by_cases hc : t.kind = .closeParen
      · refine ⟨[t], ts, rfl, .single hc, ?_⟩
        simpa [Token.nest, hc] using h
      · by_cases ho : t.kind = .openParen
        · have h : Closes (depth + 1 + 1) ts := by simpa [Token.nest, ho] using h
          obtain ⟨us, vs, rfl, hus, hvs⟩ := ih _ hlt h rfl
          have hlt' : vs.length < n := by
            rw [List.length_append] at hlt
            omega
          obtain ⟨us', vs, rfl, hus', hvs⟩ := ih _ hlt' hvs rfl
          have hgroup : Group (t :: us) := ⟨t, us, rfl, ho, hus⟩
          exact ⟨t :: us ++ us', vs, by simp, hus'.prepend hgroup.closes, hvs⟩
        · rw [t.nest_of_other ho hc] at h
          obtain ⟨us, vs, rfl, hus, hvs⟩ := ih _ hlt h rfl
          exact ⟨t :: us, vs, rfl, hus.prepend (.single ho hc), hvs⟩

end Balance

namespace Grammar

variable {stop : Token → Bool} {tokens taken rest : List Token} {c : Cursor}

/-- Balanced tokens, and the first token outside of the parentheses in them that ends a run. -/
structure IsRun (stop : Token → Bool) (taken rest : List Token) : Prop where
  clear : Clear (endsRun stop) taken
  ends : ∀ t ∈ rest.head?, endsRun stop t = true

/-- A parenthesis that a run comes to is not closed behind it. -/
def StaysOpen (stop : Token → Bool) (tokens : List Token) : Prop :=
  ∃ before o inner, tokens = before ++ o :: inner ∧ Clear (endsRun stop) before ∧
    o.kind = .openParen ∧ endsRun stop o = false ∧ ∀ group, group <+: inner → ¬GroupEnd group

theorem StaysOpen.prepend (h : StaysOpen stop rest) (hclear : Clear (endsRun stop) taken) :
    StaysOpen stop (taken ++ rest) := by
  obtain ⟨before, o, inner, rfl, hbefore, h⟩ := h
  exact ⟨taken ++ before, o, inner, (List.append_assoc ..).symm, hclear.append hbefore, h⟩

namespace IsRun

/-- Balanced tokens from the same place on reach no further. -/
theorem prefix_of_clear (h : IsRun stop taken rest) {ts : List Token} (hts : ts <+: taken ++ rest)
    (hclear : Clear (endsRun stop) ts) : ts <+: taken := by
  refine (List.prefix_or_prefix_of_prefix hts (List.prefix_append taken rest)).elim id fun hle => ?_
  obtain ⟨us, rfl⟩ := hle
  cases us with
  | nil => rw [List.append_nil]
  | cons t us =>
    obtain ⟨vs, hvs⟩ := (List.prefix_append_right_inj taken).1 hts
    have ht := h.ends t (by rw [← hvs]; rfl)
    have hout := hclear.outside
    rw [hasOutside_append h.clear.closes, hasOutside, ht, Bool.or_eq_false_iff] at hout
    exact absurd hout.2 (by simp)

theorem not_staysOpen (h : IsRun stop taken rest) : ¬StaysOpen stop (taken ++ rest) := by
  rintro ⟨before, o, inner, heq, hbefore, ho, hends, hopen⟩
  obtain ⟨us, rfl⟩ := h.prefix_of_clear ⟨o :: inner, heq.symm⟩ hbefore
  rw [List.append_assoc] at heq
  replace heq := List.append_cancel_left heq
  have hcloses : Closes 0 us := hbefore.closes.of_append h.clear.closes
  cases us with
  | nil =>
    have ho := h.ends o (by rw [show rest = o :: inner from heq]; rfl)
    rw [hends] at ho
    contradiction
  | cons t us =>
    obtain ⟨rfl, rfl⟩ := List.cons.inj heq
    have hcloses : Closes (0 + 1) us := by simpa [Token.nest, ho] using hcloses.2
    obtain ⟨group, behind, rfl, hgroup, -⟩ := exists_groupEnd hcloses
    exact hopen group ⟨behind ++ rest, (List.append_assoc ..).symm⟩ hgroup

end IsRun

theorem exists_isRun_or_staysOpen (stop : Token → Bool) (tokens : List Token) :
    (∃ taken rest, tokens = taken ++ rest ∧ IsRun stop taken rest) ∨ StaysOpen stop tokens := by
  -- along the length: a group that is closed is passed at once
  induction hn : tokens.length using Nat.strong_induction_on generalizing tokens with
  | _ n ih =>
    have pass {ts us : List Token} (hts : Clear (endsRun stop) ts) (hlt : us.length < n) :
        (∃ taken rest, ts ++ us = taken ++ rest ∧ IsRun stop taken rest) ∨
          StaysOpen stop (ts ++ us) := by
      obtain ⟨taken, rest, rfl, hrun⟩ | hopen := ih _ hlt us rfl
      · exact .inl ⟨ts ++ taken, rest, (List.append_assoc ..).symm, hts.append hrun.clear, hrun.ends⟩
      · exact .inr (hopen.prepend hts)
    cases tokens with
    | nil => exact .inl ⟨[], [], rfl, .nil, nofun⟩
    | cons t ts =>
      have hlt : ts.length < n := by rw [← hn]; exact Nat.lt_succ_self _
      cases hends : endsRun stop t with
      | true => exact .inl ⟨[], t :: ts, rfl, .nil, by rintro _ ⟨⟩; exact hends⟩
      | false =>
        have hc : t.kind ≠ .closeParen := by
          rintro hc
          simp [endsRun, hc] at hends
        by_cases ho : t.kind = .openParen
        · by_cases hgroup : ∃ group, group <+: ts ∧ GroupEnd group
          · obtain ⟨group, ⟨us, rfl⟩, hgroup⟩ := hgroup
            rw [List.length_append] at hlt
            exact pass (hgroup.clear ho hends) (by omega)
          · exact .inr ⟨[], t, ts, rfl, .nil, ho, hends, by simpa using hgroup⟩
        · exact pass (.single ho hc hends) hlt

/-- Tokens are skipped up to one that ends the run, if there are steps enough for them. -/
theorem skipRun_eq_ok (stop : Token → Bool) (budget depth position : Nat) (tokens : List Token)
    (h : tokens.length ≤ budget) : ∃ opened c, skipRun stop budget depth position tokens =
      .ok opened c ∧ (opened = 0 → ∀ t ∈ c.rest.head?, endsRun stop t = true) := by
  fun_induction skipRun stop budget depth position tokens with
  | case1 => exact ⟨_, _, rfl, fun _ t ht => absurd ht (by simp)⟩
  | case2 => contradiction
  | case3 depth position t rest budget hends =>
    refine ⟨_, _, rfl, fun _ => ?_⟩
    rintro _ ⟨⟩
    exact Bool.and_elim_right hends
  | case4 depth position t rest budget hends ih => exact ih (Nat.le_of_succ_le_succ h)

theorem runSteps_le_length (ts rest : List Token) : runSteps ts rest ≤ (ts ++ rest).length := by
  rw [List.length_append]
  exact Nat.add_le_add_left (List.length_take_le' 1 rest) _

/-- A run is consumed as a whole, or else a parenthesis in it is not closed. -/
theorem run_cases (stop : Token → Bool) (h : c.rest.length ≤ (Ceiling.steps .expression).limit) :
    (∃ taken c₁, run stop c = .ok taken c₁ ∧ c.Moved taken c₁ ∧ IsRun stop taken c₁.rest) ∨
      ∃ c₁, run stop c = .error (.parse .unbalanced) c₁ ∧ StaysOpen stop c.rest := by
  obtain ⟨opened, c₁, hskip, hends⟩ := skipRun_eq_ok stop _ 0 c.position c.rest h
  have hrun : run stop c =
      if 0 < opened then .error (.parse .unbalanced) c₁ else .ok (c₁.since c) c₁ := by
    change EStateM.bind (fun c => skipRun stop _ 0 c.position c.rest) _ c = _
    unfold EStateM.bind
    simp only [hskip]
    split_ifs <;> rfl
  split_ifs at hrun with hopened
  · refine .inr ⟨c₁, hrun, ?_⟩
    refine (exists_isRun_or_staysOpen stop c.rest).resolve_left ?_
    rintro ⟨taken, rest, heq, hisRun⟩
    have hread := reads_run hisRun.clear hisRun.ends c.position
    rw [← heq, hrun] at hread
    have hsteps := runSteps_le_length taken rest
    rw [← heq] at hsteps
    exact absurd hread (Nat.not_lt.2 (hsteps.trans h))
  · obtain ⟨taken, hmoved, rfl, hclear⟩ := (moves_run stop).of_ok hrun
    exact .inl ⟨_, c₁, hrun, hmoved, hclear, hends (by omega)⟩

/-- The text from the start of the first token to the end of the last one. -/
def IsExcerpt (source : String) (ts : List Token) (text : String) : Prop :=
  ∃ front back first last, source.toList = front ++ text.toList ++ back ∧
    ts.head? = some first ∧ first.span.offset = utf8Len front ∧
    ts.getLast? = some last ∧ last.span.stop = utf8Len front + utf8Len text.toList

theorem isExcerpt_sourceText {source : String} {before ts after : List Token}
    (h : tokenize source = before ++ (ts ++ after)) (hne : ts ≠ []) :
    IsExcerpt source ts (sourceText source ts) := by
  have hfirst := List.head?_eq_some_head hne
  have hlast := List.getLast?_eq_some_getLast hne
  obtain ⟨front, raw, back, hsource, -, hstart, hstop⟩ := exists_excerpt h hfirst hlast
  have hraw := toList_sourceText hsource hfirst hlast hstart hstop
  refine ⟨front, back, _, _, ?_, hfirst, hstart, hlast, ?_⟩
  · rw [hraw, hsource]
  · rw [hraw, hstop]

theorem captureExpression_of_run (source : String) {ts : List Token} {c₁ : Cursor}
    (h : run stop c = .ok ts c₁) : captureExpression source stop c =
      .ok (if ts = [] then none else some (sourceText source ts)) c₁ := by
  rw [captureExpression, bind_of_ok h]
  cases ts <;> rfl

/-- An expression from any token of a text on reaches as far as balanced tokens can before one that
ends it, and its text is what they were read from. It is an error exactly if a parenthesis that it
comes to is never closed. -/
theorem captureExpression_maximal (source : String) (stop : Token → Bool) (p : Nat)
    (h : (tokenize source).length ≤ (Ceiling.steps .expression).limit) :
    let c : Cursor := ⟨p, (tokenize source).drop p⟩
    ((∃ text c₁, captureExpression source stop c = .ok text c₁) ↔ ¬StaysOpen stop c.rest) ∧
    ((∃ cause c₁, captureExpression source stop c = .error (.parse cause) c₁) ↔
      StaysOpen stop c.rest) ∧
    ∀ text c₁, captureExpression source stop c = .ok text c₁ →
      ∃ taken, c.Moved taken c₁ ∧ IsRun stop taken c₁.rest ∧
        (∀ ts, ts <+: c.rest → Clear (endsRun stop) ts → ts <+: taken) ∧
        (text = none ↔ taken = []) ∧ ∀ excerpt ∈ text, IsExcerpt source taken excerpt := by
  intro c
  have hlength : c.rest.length ≤ (Ceiling.steps .expression).limit :=
    ((List.drop_sublist p _).length_le).trans h
  obtain ⟨taken, c₁, hrun, hmoved, hisRun⟩ | ⟨c₁, hrun, hopen⟩ := run_cases stop hlength
  · have hclosed : ¬StaysOpen stop c.rest := hmoved.rest ▸ hisRun.not_staysOpen
    have htext := captureExpression_of_run source hrun
    refine ⟨⟨fun _ => hclosed, fun _ => ⟨_, c₁, htext⟩⟩, ⟨?_, fun hopen => absurd hopen hclosed⟩, ?_⟩
    · rintro ⟨cause, c₂, he⟩
      rw [htext] at he
      contradiction
    · intro text c₂ hok
      rw [htext] at hok
      cases hok
      refine ⟨taken, hmoved, hisRun, fun ts hts hclear => ?_, by simp, fun excerpt hexcerpt => ?_⟩
      · exact hisRun.prefix_of_clear (hmoved.rest ▸ hts) hclear
      · split_ifs at hexcerpt with hnil
        · contradiction
        · cases hexcerpt
          have hsplit : tokenize source = (tokenize source).take p ++ (taken ++ c₁.rest) := by
            rw [← hmoved.rest, List.take_append_drop]
          exact isExcerpt_sourceText hsplit hnil
  · have he : captureExpression source stop c = .error (.parse .unbalanced) c₁ := bind_of_error hrun
    have hnone (text : Option String) (c₂ : Cursor) :
        captureExpression source stop c ≠ .ok text c₂ := by
      rw [he]
      nofun
    refine ⟨⟨fun ⟨text, c₂, hok⟩ => absurd hok (hnone text c₂), fun hclosed => absurd hopen hclosed⟩,
      ⟨fun _ => hopen, fun _ => ⟨_, c₁, he⟩⟩, fun text c₂ hok => absurd hok (hnone text c₂)⟩

instance decidableEqResult {α : Type} [DecidableEq α] : DecidableEq (EStateM.Result Error Cursor α)
  | .ok a c, .ok b d => decidable_of_iff (a = b ∧ c = d) (by simp)
  | .error e c, .error e' d => decidable_of_iff (e = e' ∧ c = d) (by simp)
  | .ok _ _, .error _ _ => .isFalse nofun
  | .error _ _, .ok _ _ => .isFalse nofun

def nestedCall : String := "f(a, (b)), g(c"

/-- One item of a list is read, and behind the comma is one whose parenthesis is not closed. -/
theorem captureExpression_nestedCall :
    (tokenize nestedCall).length ≤ (Ceiling.steps .expression).limit ∧
    (∃ taken c₁, captureExpression nestedCall (·.kind == .comma) ⟨0, tokenize nestedCall⟩ =
      .ok (some "f(a, (b))") c₁ ∧ taken.length = 8 ∧
      (⟨0, tokenize nestedCall⟩ : Cursor).Moved taken c₁ ∧ IsRun (·.kind == .comma) taken c₁.rest ∧
      IsExcerpt nestedCall taken "f(a, (b))") ∧
    StaysOpen (·.kind == .comma) ((tokenize nestedCall).drop 9) := by
  have hlength : (tokenize nestedCall).length ≤ (Ceiling.steps .expression).limit := by
    decide +kernel
  refine ⟨hlength, ?_, ?_⟩
  · obtain ⟨-, -, hall⟩ := captureExpression_maximal nestedCall (·.kind == .comma) 0 hlength
    have hcall : captureExpression nestedCall (·.kind == .comma) ⟨0, tokenize nestedCall⟩ =
        .ok (some "f(a, (b))") ⟨8, (tokenize nestedCall).drop 8⟩ := by decide +kernel
    obtain ⟨taken, hmoved, hrun, -, -, htext⟩ := hall _ _ hcall
    refine ⟨taken, _, hcall, ?_, hmoved, hrun, htext _ rfl⟩
    simpa using hmoved.position.symm
  · obtain ⟨-, herror, -⟩ := captureExpression_maximal nestedCall (·.kind == .comma) 9 hlength
    have hopen : captureExpression nestedCall (·.kind == .comma) ⟨9, (tokenize nestedCall).drop 9⟩ =
        .error (.parse .unbalanced) ⟨12, []⟩ := by decide +kernel
    exact herror.1 ⟨_, _, hopen⟩

end Grammar

end TypedTables
