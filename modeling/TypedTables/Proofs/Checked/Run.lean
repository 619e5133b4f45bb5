import TypedTables.Proofs.Checked.Access
import TypedTables.Proofs.Grammar.Layout
import TypedTables.Proofs.Token.Excerpt

/-!
Steps over the tokens of a statement, by position: what they take out of the text is a slice between
two tokens, found by their indices, and the parentheses that are left open are counted down.
-/

namespace TypedTables.Checked

open Grammar (endsRun)
open String (utf8Len)

/-- Why a step over tokens stops. -/
inductive Stop
  | trapped (trap : Trap)
  | failed (e : Error)
  deriving DecidableEq, Repr

/-- Steps over the tokens of a statement, with the number of tokens that are passed. -/
abbrev Parse := EStateM Stop Nat

instance : MonadLift Access Parse where
  monadLift x := fun position =>
    match x with
    | .ok a => .ok a position
    | .error trap => .error (.trapped trap) position

section Definitions

variable {α : Type} (largest : Nat) (l : Listing)

/-- A step of the grammar that only looks at the tokens ahead, or passes them. -/
def plain (g : Grammar α) : Parse α := fun position =>
  match g ⟨position, l.tokens.drop position⟩ with
  | .ok a c => .ok a c.position
  | .error e c => .error (.failed e) c.position

def fail (e : Error) : Parse α := throw (.failed e)

def exhausted (loop : Loop) : Parse α := fail (.exceeded (.steps loop))

/-- The source of the tokens from `first` to before `stop`. -/
def rawText (first stop : Nat) : Access String := do
  if stop ≤ first then return ""
  else
    let t ← element l.tokens first
    let u ← element l.tokens (← sub stop 1)
    textSlice l.source t.span.offset (← add largest u.span.offset u.span.length)

/-- Parentheses open behind a token. -/
def nest (t : Token) (depth : Nat) : Access Nat :=
  match t.kind with
  | .openParen => .ok (depth + 1)
  | .closeParen => sub depth 1
  | _ => .ok depth

/-- Goes to the end of a run and counts the parentheses that are left open. -/
def skipRun (stop : Token → Bool) : (budget depth : Nat) → Parse Nat
  | budget, depth => do
    match ← plain l Grammar.peek? with
    | none => return depth
    | some t =>
      match budget with
      | 0 => exhausted .expression
      | budget + 1 =>
        if depth == 0 && endsRun stop t then return depth
        else
          let depth ← nest t depth
          plain l Grammar.advance
          skipRun stop budget depth

/-- The source text of a run, if there is any. -/
def capture (stop : Token → Bool) : Parse (Option String) := do
  let first ← get
  let opened ← skipRun l stop (Ceiling.steps .expression).limit 0
  if 0 < opened then fail (.parse .unbalanced)
  let text ← rawText largest l first (← get)
  return if text.isEmpty then none else some text

/-- The positions of the first token of a run and of the one behind it. -/
def captureRange (stop : Token → Bool) : Parse (Nat × Nat) := do
  let first ← get
  let _ ← capture largest l stop
  return (first, ← get)

/-- Goes past the parenthesis that closes the group. -/
def skipGroup : (budget depth : Nat) → Parse Unit
  | budget, depth => do
    match ← plain l (Grammar.accept? fun _ => true) with
    | none => fail (.parse .unbalanced)
    | some t =>
      match budget with
      | 0 => exhausted .balancedParentheses
      | budget + 1 =>
        if depth == 0 && t.kind == .closeParen then return ()
        else skipGroup budget (← nest t depth)

def skipToClose : Parse Unit := skipGroup l (Ceiling.steps .balancedParentheses).limit 0

def skipBalanced : Parse Unit := do
  discard (plain l (Grammar.expect .openParen .openParen))
  skipToClose l

end Definitions

/-- The cursor has passed `position` of the tokens. -/
structure At (l : Listing) (c : Cursor) (position : Nat) : Prop where
  eq : c = ⟨position, l.tokens.drop position⟩
  within : position ≤ l.tokens.length

/-- The checked step comes to what the step of the grammar comes to, and springs no trap. -/
abbrev Safe {α β : Type} (l : Listing) (R : α → β → Prop) (g : Grammar α) (g' : Parse β) : Prop :=
  Lockstep (At l) (fun e stop => stop = .failed e) R g g'

section Steps

variable {α β γ : Type} {largest : Nat} {l : Listing} {R : α → β → Prop} {c : Cursor}
  {position depth : Nat} {t : Token}

theorem At.next (h : At l c position) :
    (c = ⟨position, []⟩ ∧ l.tokens.drop position = []) ∨ ∃ t rest, c = ⟨position, t :: rest⟩ ∧
      l.tokens.drop position = t :: rest ∧ At l ⟨position + 1, rest⟩ (position + 1) := by
  obtain ⟨rfl, hwithin⟩ := h
  cases hdrop : l.tokens.drop position with
  | nil => exact .inl ⟨rfl, rfl⟩
  | cons t rest =>
    have hrest : rest = l.tokens.drop (position + 1) := by
      rw [← List.drop_drop, hdrop, List.drop_one, List.tail_cons]
    have hlength : rest.length + 1 = l.tokens.length - position := by
      simpa using (congrArg List.length hdrop).symm
    exact .inr ⟨t, rest, rfl, rfl, by rw [← hrest], by omega⟩

theorem At.since {mark : Cursor} {first : Nat} (hmark : At l mark first) (h : At l c position) :
    c.since mark = l.part first (position - first) := by
  rw [hmark.eq, h.eq]
  rfl

theorem safe_plain {g : Grammar α} {R : α → α → Prop} (h : Grammar.InStep l l R g g) :
    Safe l Eq g (plain l g) := by
  rintro _ position ⟨rfl, hwithin⟩
  have hpaired := h _ _ (show Abreast l l ⟨position, l.tokens.drop position⟩ _ from
    ⟨rfl, hwithin, rfl, rfl, rfl⟩)
  unfold plain
  cases hg : g ⟨position, l.tokens.drop position⟩ with
  | ok a c =>
    rw [hg] at hpaired
    cases hpaired with
    | ok _ hat => exact .ok rfl ⟨by rw [← hat.left], hat.within⟩
  | error e c =>
    rw [hg] at hpaired
    cases hpaired with
    | error _ hat => exact .error rfl ⟨by rw [← hat.left], hat.within⟩

theorem safe_fail (e : Error) : Safe l R (throw e : Grammar α) (fail e) := .throw rfl

theorem safe_exhausted (loop : Loop) :
    Safe l R (Grammar.exhausted loop : Grammar α) (exhausted loop) := .throw rfl

theorem safe_unexpected (fault : Fault) : Safe l R (Grammar.unexpected fault : Grammar α)
    (plain l (Grammar.unexpected fault : Grammar β)) := by
  rintro _ position ⟨rfl, hwithin⟩
  exact .error rfl ⟨rfl, hwithin⟩

theorem nest_eq (h : (depth == 0 && t.kind == .closeParen) = false) :
    nest t depth = .ok (t.nest depth) := by
  obtain ⟨kind, text, span⟩ := t
  cases kind with
  | closeParen =>
    refine sub_eq (Nat.one_le_iff_ne_zero.2 fun hzero => ?_)
    simp [hzero] at h
  | _ => rfl

/-- No parenthesis is counted below zero where one that closes an enclosing group ends the loop. -/
theorem nest_of_not_ends {ends : Bool} (hends : ¬(depth == 0 && ends) = true)
    (hclose : t.kind = .closeParen → ends = true) : nest t depth = .ok (t.nest depth) := by
  refine nest_eq (Bool.eq_false_iff.2 fun hboth => ?_)
  obtain ⟨hdepth, hkind⟩ := Bool.and_eq_true_iff.1 hboth
  exact hends (Bool.and_eq_true_iff.2 ⟨hdepth, hclose (beq_iff_eq.1 hkind)⟩)

theorem access_eq {x : Access α} {a : α} (h : x = .ok a) : (liftM x : Parse α) = pure a := by
  rw [h]
  rfl

theorem access_bind {f : α → Parse β} {x : Access α} {a : α} (h : x = .ok a) :
    ((liftM x : Parse α) >>= f) = f a := by
  rw [access_eq h, pure_bind]

theorem plain_of_ok (g : Grammar α) {a : α} {tokens : List Token}
    (htokens : l.tokens.drop position = tokens) (h : g ⟨position, tokens⟩ = .ok a c) :
    plain l g position = .ok a c.position := by
  unfold plain
  rw [htokens, h]

theorem safe_skipRun (stop : Token → Bool) (budget depth : Nat) :
    Safe l Eq (fun c => Grammar.skipRun stop budget depth c.position c.rest)
      (skipRun l stop budget depth) := by
  intro c position h
  unfold skipRun
  obtain ⟨rfl, hdrop⟩ | ⟨t, rest, rfl, hdrop, hnext⟩ := h.next
  · rw [bind_of_ok (plain_of_ok Grammar.peek? hdrop rfl)]
    dsimp only
    rw [Grammar.skipRun]
    exact .ok rfl h
  · rw [bind_of_ok (plain_of_ok Grammar.peek? hdrop rfl)]
    cases budget with
    | zero => exact .error rfl h
    | succ budget =>
      dsimp only [Cursor.peek?, List.head?_cons]
      rw [Grammar.skipRun]
      by_cases hends : (depth == 0 && endsRun stop t) = true
      · rw [if_pos hends, if_pos hends]
        exact .ok rfl h
      · have hnest : nest t depth = .ok (t.nest depth) :=
          nest_of_not_ends hends fun hkind => by rw [endsRun, hkind]; simp
        rw [if_neg hends, if_neg hends, access_bind hnest,
          bind_of_ok (plain_of_ok Grammar.advance hdrop rfl)]
        exact safe_skipRun stop budget _ _ _ hnext

theorem safe_skipGroup (budget depth : Nat) :
    Safe l Eq (fun c => Grammar.skipGroup budget depth c.position c.rest)
      (skipGroup l budget depth) := by
  intro c position h
  unfold skipGroup
  obtain ⟨rfl, hdrop⟩ | ⟨t, rest, rfl, hdrop, hnext⟩ := h.next
  · rw [bind_of_ok (plain_of_ok (Grammar.accept? fun _ => true) hdrop rfl)]
    dsimp only
    rw [Grammar.skipGroup]
    exact .error rfl h
  · rw [bind_of_ok (plain_of_ok (Grammar.accept? fun _ => true) hdrop rfl)]
    cases budget with
    | zero => exact .error rfl hnext
    | succ budget =>
      dsimp only
      rw [Grammar.skipGroup]
      by_cases hclose : (depth == 0 && t.kind == .closeParen) = true
      · rw [if_pos hclose, if_pos hclose]
        exact .ok rfl hnext
      · rw [if_neg hclose, if_neg hclose, access_bind (nest_eq (Bool.not_eq_true _ ▸ hclose))]
        exact safe_skipGroup budget _ _ _ hnext

theorem safe_skipToClose : Safe l Eq Grammar.skipToClose (skipToClose l) := safe_skipGroup _ 0

theorem safe_skipBalanced : Safe l Eq Grammar.skipBalanced (skipBalanced l) :=
  (safe_plain (Grammar.inStep_expect _ _)).discard.seq fun _ => safe_skipToClose

end Steps

theorem length_part {l : Listing} {first n : Nat} (h : first + n ≤ l.tokens.length) :
    (l.part first n).length = n := by
  rw [Listing.part, List.length_take, List.length_drop]
  omega

/-- The tokens are the last ones of the text, and counters can go through the text. -/
structure Covers (largest : Nat) (l : Listing) : Prop where
  fits : Fits largest l.source
  tokens : l.tokens <:+ TypedTables.tokenize l.source

namespace Covers

variable {largest : Nat} {l : Listing} (hl : Covers largest l)
include hl

/-- A part of the tokens begins and ends between characters of the text. -/
theorem exists_part {first n : Nat} (hn : 0 < n) (hstop : first + n ≤ l.tokens.length) :
    ∃ t u front raw back, element l.tokens first = .ok t ∧
      element l.tokens (first + n - 1) = .ok u ∧ l.source.toList = front ++ raw ++ back ∧
      raw ≠ [] ∧ t.span.offset = utf8Len front ∧ u.span.stop = utf8Len front + utf8Len raw ∧
      l.text first n = String.ofList raw := by
  obtain ⟨before, hbefore⟩ := hl.tokens
  have htokens : TypedTables.tokenize l.source =
      (before ++ l.tokens.take first) ++ (l.part first n ++ (l.tokens.drop first).drop n) := by
    rw [Listing.part, List.take_append_drop, List.append_assoc, List.take_append_drop, hbefore]
  have hget (i : Nat) (hi : i < n) : ∃ t, (l.part first n)[i]? = some t ∧
      element l.tokens (first + i) = .ok t := by
    have hlt : first + i < l.tokens.length := by omega
    refine ⟨l.tokens[first + i], ?_, ?_⟩
    · rw [Listing.part, List.getElem?_take_of_lt hi, List.getElem?_drop,
        List.getElem?_eq_getElem hlt]
    · rw [element, List.getElem?_eq_getElem hlt]
  obtain ⟨t, ht, helement⟩ := hget 0 hn
  obtain ⟨u, hu, helement'⟩ := hget (n - 1) (by omega)
  have hfirst : (l.part first n).head? = some t := by rw [List.head?_eq_getElem?, ht]
  have hlast : (l.part first n).getLast? = some u := by
    rw [List.getLast?_eq_getElem?, length_part hstop, hu]
  obtain ⟨front, raw, back, hsource, hne, hoffset, hend⟩ := exists_excerpt htokens hfirst hlast
  refine ⟨t, u, front, raw, back, helement, ?_, hsource, hne, hoffset, hend, ?_⟩
  · rw [← helement', Nat.add_sub_assoc hn]
  · rw [Listing.text, ← String.toList_inj, String.toList_ofList]
    exact toList_sourceText hsource hfirst hlast hoffset hend

theorem rawText_eq (first : Nat) {stop : Nat} (hstop : stop ≤ l.tokens.length) :
    rawText largest l first stop = .ok (l.text first (stop - first)) := by
  by_cases hle : stop ≤ first
  · rw [rawText, if_pos hle, Nat.sub_eq_zero_of_le hle, Listing.text, Listing.part, List.take_zero]
    rfl
  · obtain ⟨t, u, front, raw, back, ht, hu, hsource, -, hoffset, hend, htext⟩ :=
      hl.exists_part (Nat.sub_pos_of_lt (Nat.lt_of_not_le hle))
        (by omega : first + (stop - first) ≤ l.tokens.length)
    rw [Nat.add_sub_cancel' (by omega)] at hu
    have hadd : add largest u.span.offset u.span.length = .ok (utf8Len front + utf8Len raw) := by
      have hfits := hl.fits
      have hsize : utf8Len front + utf8Len raw ≤ l.source.utf8ByteSize := by
        rw [← String.utf8Len_toList, hsource, String.utf8Len_append, String.utf8Len_append]
        omega
      unfold Fits at hfits
      rw [← hend, Span.stop, add_eq (by rw [Span.stop] at hend; omega)]
    rw [rawText, if_neg hle, Access.bind_eq ht, Access.bind_eq (sub_eq (by omega)),
      Access.bind_eq hu, Access.bind_eq hadd, hoffset, textSlice_eq hsource, htext]

theorem text_ne_empty {first n : Nat} (hn : 0 < n) (hstop : first + n ≤ l.tokens.length) :
    l.text first n ≠ "" := by
  obtain ⟨t, u, front, raw, back, -, -, -, hne, -, -, htext⟩ := hl.exists_part hn hstop
  rwa [htext, ne_eq, String.ofList_eq_empty_iff]

end Covers

section Runs

variable {largest : Nat} {l : Listing} (hl : Covers largest l)
include hl

/-- The source text of tokens, if there are any. -/
def shown? (source : String) (tokens : List Token) : Option String :=
  if tokens = [] then none else some (sourceText source tokens)

theorem safe_capture (stop : Token → Bool) :
    Safe l (fun tokens text? => shown? l.source tokens = text?) (Grammar.run stop)
      (capture largest l stop) := by
  have hbehind (c : Cursor) (first : Nat) (hat : At l c first) :
      Safe l (fun tokens text? => shown? l.source tokens = text?)
        (do return (← get).since c) (do
          let text ← rawText largest l first (← get)
          return if text.isEmpty then none else some text) := by
    refine Lockstep.get.bind fun c' stop' hat' => ?_
    have hsince := hat.since hat'
    have hwithin := hat'.within
    rw [access_bind (hl.rawText_eq first hwithin)]
    refine .pure ?_
    by_cases hle : stop' ≤ first
    · have hpart : l.part first (stop' - first) = [] := by
        rw [Nat.sub_eq_zero_of_le hle, Listing.part, List.take_zero]
      rw [hsince, Listing.text, hpart]
      rfl
    · have htext : l.text first (stop' - first) ≠ "" := hl.text_ne_empty (by omega) (by omega)
      have hne : l.part first (stop' - first) ≠ [] := by
        intro hnil
        rw [Listing.text, hnil] at htext
        exact htext rfl
      rw [hsince, shown?, if_neg hne, if_neg (by simpa using htext), Listing.text]
  refine Lockstep.get.bind fun c first hat => (safe_skipRun stop _ _).seq fun opened => ?_
  dsimp only
  split_ifs
  · exact Lockstep.seq (α := Unit) (safe_fail _) fun _ => hbehind c first hat
  · exact hbehind c first hat

theorem safe_captureExpression (stop : Token → Bool) :
    Safe l Eq (Grammar.captureExpression l.source stop) (capture largest l stop) := by
  rw [Grammar.captureExpression_eq, ← id_map (capture largest l stop)]
  exact (safe_capture hl stop).map

theorem safe_discard_run (stop : Token → Bool) :
    Safe l Eq (discard (Grammar.run stop)) (discard (capture largest l stop)) :=
  (safe_capture hl stop).discard

theorem safe_captureRange (stop : Token → Bool) :
    Safe l (fun tokens range => range.1 ≤ range.2 ∧ range.2 ≤ l.tokens.length ∧
      tokens = l.part range.1 (range.2 - range.1)) (Grammar.run stop)
      (captureRange largest l stop) := by
  intro c first hat
  have hmoves : Grammar.Lands c _ (Grammar.run stop c) := Grammar.moves_run stop
  have hpaired := safe_capture hl stop c first hat
  rw [captureRange, get_bind]
  generalize Grammar.run stop c = result at hmoves hpaired ⊢
  generalize hcapture : capture largest l stop first = result' at hpaired
  cases hpaired with
  | @ok tokens text? c' stop' _ hat' =>
    obtain ⟨taken, hmoved, rfl, -⟩ := hmoves
    rw [bind_of_ok hcapture, get_bind]
    have hposition : stop' = first + tokens.length := by
      simpa [hat.eq, hat'.eq] using hmoved.position
    have hpart : tokens = l.part first (stop' - first) := by
      rw [hposition, Nat.add_sub_cancel_left, Listing.part]
      have hrest : l.tokens.drop first = tokens ++ c'.rest := by
        simpa [hat.eq] using hmoved.rest
      rw [hrest, List.take_left]
    exact .ok ⟨by omega, hat'.within, hpart⟩ hat'
  | error he hat' =>
    rw [bind_of_error hcapture]
    exact .error he hat'

end Runs

end TypedTables.Checked
