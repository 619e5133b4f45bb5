import Mathlib
import TypedTables.Token.Basic

/-!
Parentheses among tokens: runs in which they are balanced, and what stands outside of them.
-/

namespace TypedTables

/-- The parentheses that are open before the tokens, `depth` of them, and those that open among the
tokens are closed, and no others. -/
def Closes : (depth : Nat) → List Token → Prop
  | depth, [] => depth = 0
  | depth, t :: ts => (t.kind = .closeParen → 0 < depth) ∧ Closes (t.nest depth) ts

/-- Whether a token with the property stands outside parentheses. -/
def hasOutside (p : Token → Bool) : (depth : Nat) → List Token → Bool
  | _, [] => false
  | depth, t :: ts => (depth == 0 && p t) || hasOutside p (t.nest depth) ts

/-- Balanced tokens of which none outside parentheses has the property. -/
structure Clear (p : Token → Bool) (ts : List Token) : Prop where
  closes : Closes 0 ts
  outside : hasOutside p 0 ts = false

variable {p q : Token → Bool} {t o c : Token} {ts us : List Token} {depth n : Nat}

theorem Token.nest_of_other (ho : t.kind ≠ .openParen) (hc : t.kind ≠ .closeParen) (depth : Nat) :
    t.nest depth = depth := by
  unfold nest
  split <;> simp_all

theorem Token.nest_add (h : t.kind = .closeParen → 0 < depth) (n : Nat) :
    t.nest (depth + n) = t.nest depth + n := by
  unfold nest
  split
  · exact Nat.add_right_comm depth n 1
  · next hc => exact Nat.sub_add_comm (h hc)
  · rfl

theorem Closes.append (h : Closes depth ts) (h' : Closes n us) : Closes (depth + n) (ts ++ us) := by
  induction ts generalizing depth with
  | nil =>
    obtain rfl : depth = 0 := h
    rwa [Nat.zero_add]
  | cons t ts ih =>
    obtain ⟨hc, h⟩ := h
    exact ⟨fun hk => Nat.add_pos_left (hc hk) n, by rw [t.nest_add hc]; exact ih h⟩

theorem hasOutside_append (h : Closes depth ts) (p : Token → Bool) (us : List Token) :
    hasOutside p depth (ts ++ us) = (hasOutside p depth ts || hasOutside p 0 us) := by
  induction ts generalizing depth with
  | nil =>
    obtain rfl : depth = 0 := h
    simp [hasOutside]
  | cons t ts ih => simp only [List.cons_append, hasOutside, ih h.2, Bool.or_assoc]

/-- Inside parentheses no token stands outside of them. -/
theorem hasOutside_append_inside (h : Closes depth ts) (p : Token → Bool) (us : List Token) :
    hasOutside p (depth + (n + 1)) (ts ++ us) = hasOutside p (n + 1) us := by
  induction ts generalizing depth with
  | nil =>
    obtain rfl : depth = 0 := h
    rw [Nat.zero_add, List.nil_append]
  | cons t ts ih =>
    rw [List.cons_append, hasOutside, t.nest_add h.1, ih h.2]
    rfl

theorem hasOutside_of_imp (h : ∀ t, p t = true → q t = true) (hq : hasOutside q depth ts = false) :
    hasOutside p depth ts = false := by
  induction ts generalizing depth with
  | nil => rfl
  | cons t ts ih =>
    obtain ⟨ht, hts⟩ := Bool.or_eq_false_iff.1 hq
    have hp : (depth == 0 && p t) = false := by
      cases hpt : p t with
      | true => rwa [h t hpt] at ht
      | false => exact Bool.and_false _
    rw [hasOutside, hp, ih hts, Bool.or_false]

namespace Clear

theorem nil : Clear p [] := ⟨rfl, rfl⟩

theorem append (h : Clear p ts) (h' : Clear p us) : Clear p (ts ++ us) where
  closes := h.closes.append h'.closes
  outside := by rw [hasOutside_append h.closes, h.outside, h'.outside, Bool.or_false]

theorem of_imp (h : ∀ t, p t = true → q t = true) (hq : Clear q ts) : Clear p ts :=
  ⟨hq.closes, hasOutside_of_imp h hq.outside⟩

theorem single (ho : t.kind ≠ .openParen) (hc : t.kind ≠ .closeParen) (hp : p t = false) :
    Clear p [t] where
  closes := ⟨fun h => absurd h hc, t.nest_of_other ho hc 0⟩
  outside := by simp [hasOutside, hp]

theorem of_forall (h : ∀ t ∈ ts, t.kind ≠ .openParen ∧ t.kind ≠ .closeParen ∧ p t = false) :
    Clear p ts := by
  induction ts with
  | nil => exact .nil
  | cons t ts ih =>
    obtain ⟨⟨ho, hc, hp⟩, hts⟩ := List.forall_mem_cons.1 h
    exact (single ho hc hp).append (ih hts)

end Clear

theorem Closes.single (ho : t.kind ≠ .openParen) (hc : t.kind ≠ .closeParen) : Closes 0 [t] :=
  ⟨fun h => absurd h hc, t.nest_of_other ho hc 0⟩

/-- What is left of a parenthesized group behind its opening parenthesis. -/
def GroupEnd (ts : List Token) : Prop :=
  ∃ inner c, ts = inner ++ [c] ∧ c.kind = .closeParen ∧ Closes 0 inner

/-- A parenthesized group. -/
def Group (ts : List Token) : Prop := ∃ o rest, ts = o :: rest ∧ o.kind = .openParen ∧ GroupEnd rest

theorem GroupEnd.single (hc : c.kind = .closeParen) : GroupEnd [c] := ⟨[], c, rfl, hc, rfl⟩

theorem GroupEnd.prepend (h : GroupEnd us) (hts : Closes 0 ts) : GroupEnd (ts ++ us) := by
  obtain ⟨inner, c, rfl, hc, hinner⟩ := h
  exact ⟨ts ++ inner, c, (List.append_assoc ts inner [c]).symm, hc, hts.append hinner⟩

/-- All of a group but its opening parenthesis stands inside of it. -/
theorem GroupEnd.clear (h : GroupEnd ts) (ho : o.kind = .openParen) (hp : p o = false) :
    Clear p (o :: ts) := by
  obtain ⟨inner, c, rfl, hc, hinner⟩ := h
  have hopen : o.nest 0 = 1 := by simp [Token.nest, ho]
  have hclose : c.nest 1 = 0 := by simp [Token.nest, hc]
  constructor
  · refine ⟨fun hk => by rw [ho] at hk; contradiction, ?_⟩
    have hlast : Closes 1 [c] := ⟨fun _ => Nat.one_pos, hclose⟩
    rw [hopen]
    exact hinner.append hlast
  · have hin := @hasOutside_append_inside inner 0 0 hinner p [c]
    rw [hasOutside, hopen, hp, hin]
    rfl

theorem Group.clear (h : Group ts) (hp : ∀ o, o.kind = .openParen → p o = false) : Clear p ts := by
  obtain ⟨o, _, rfl, ho, hend⟩ := h
  exact hend.clear ho (hp o ho)

theorem Group.closes (h : Group ts) : Closes 0 ts :=
  (h.clear (p := fun _ => false) fun _ _ => rfl).closes

/-- What holds of no tokens, and of tokens put together if it holds of each part. -/
class Joins (T : List Token → Prop) : Prop where
  nil : T []
  append {ts us : List Token} : T ts → T us → T (ts ++ us)

instance : Joins fun _ => True := ⟨trivial, fun _ _ => trivial⟩

instance : Joins (Closes 0) := ⟨rfl, Closes.append⟩

instance : Joins (Clear p) := ⟨.nil, .append⟩

end TypedTables
