import TypedTables.Proofs.TypeExpr.Within

/-!
Two folds over one type tree. Both look at the same shapes, so that a relation which their steps
keep holds between their results.
-/

namespace TypedTables

theorem forall₂_of_common {ι α β : Type} {P : ι → α → Prop} {Q : ι → β → Prop} {R : α → β → Prop}
    {xs : List ι} {as : List α} {bs : List β} (hP : List.Forall₂ P xs as)
    (hQ : List.Forall₂ Q xs bs) (h : ∀ x a b, P x a → Q x b → R a b) : List.Forall₂ R as bs := by
  induction hP generalizing bs with
  | nil =>
    cases hQ
    exact .nil
  | cons ha _ ih =>
    obtain _ | ⟨hb, hbs⟩ := hQ
    exact .cons (h _ _ _ ha hb) (ih hbs)

theorem map_eq_map_of_forall₂ {α β γ : Type} {f : α → γ} {g : β → γ} {as : List α} {bs : List β}
    (h : List.Forall₂ (fun a b => f a = g b) as bs) : as.map f = bs.map g := by
  induction h with
  | nil => rfl
  | cons hab _ ih => rw [List.map_cons, List.map_cons, hab, ih]

theorem eq_map_of_forall₂ {α β : Type} {f : α → β} {as : List α} {bs : List β}
    (h : List.Forall₂ (fun a b => b = f a) as bs) : bs = as.map f := by
  rw [← bs.map_id]
  exact (map_eq_map_of_forall₂ (h.imp fun _ _ hb => hb.symm)).symm

namespace TypeFold

variable {α β : Type} {fold : TypeFold α} {fold' : TypeFold β}

/-- What the steps of two folds keep between their results. -/
structure Respects (fold : TypeFold α) (fold' : TypeFold β) (R : α → β → Prop) : Prop where
  nullable : ∀ {a b}, R a b → R (fold.nullable a) (fold'.nullable b)
  array : ∀ {a b}, R a b → R (fold.array a) (fold'.array b)
  tuple : ∀ {as bs}, List.Forall₂ R as bs → R (fold.tuple as) (fold'.tuple bs)
  map : ∀ {a b}, R a b → R (fold.map a) (fold'.map b)
  enumeration : ∀ keys, R (fold.enumeration keys) (fold'.enumeration keys)
  leaf : ∀ leaf, R (fold.leaf leaf) (fold'.leaf leaf)
  unknown : ∀ {name a b}, fold.unknown name = .ok a → fold'.unknown name = .ok b → R a b

theorem Respects.of_runWithin {R : α → β → Prop} (hR : fold.Respects fold' R) (hp : fold.Plain)
    (hp' : fold'.Plain) {room : Nat} {ty : TypeExpr} {a : α} {b : β}
    (ha : fold.runWithin room ty = .ok a) (hb : fold'.runWithin room ty = .ok b) : R a b := by
  induction room generalizing ty a b with
  | zero => contradiction
  | succ room ih =>
    rw [runWithin_succ_eq_ok hp] at ha
    rw [runWithin_succ_eq_ok hp'] at hb
    cases hs : ty.shape with
    | nullable inner =>
      rw [hs] at ha hb
      obtain ⟨a, ha, rfl⟩ := ha
      obtain ⟨b, hb, rfl⟩ := hb
      exact hR.nullable (ih ha hb)
    | transparent inner =>
      rw [hs] at ha hb
      exact ih ha hb
    | array item =>
      rw [hs] at ha hb
      obtain ⟨a, ha, rfl⟩ := ha
      obtain ⟨b, hb, rfl⟩ := hb
      exact hR.array (ih ha hb)
    | tuple items =>
      rw [hs] at ha hb
      obtain ⟨-, as, has, rfl⟩ := ha
      obtain ⟨-, bs, hbs, rfl⟩ := hb
      exact hR.tuple (forall₂_of_common has hbs fun _ _ _ => ih)
    | map value =>
      rw [hs] at ha hb
      obtain ⟨a, ha, rfl⟩ := ha
      obtain ⟨b, hb, rfl⟩ := hb
      exact hR.map (ih ha hb)
    | enumeration keys =>
      rw [hs] at ha hb
      rw [← ha.2, ← hb.2]
      exact hR.enumeration keys
    | leaf leaf =>
      rw [hs] at ha hb
      rw [← ha, ← hb]
      exact hR.leaf leaf
    | unknown name =>
      rw [hs] at ha hb
      exact hR.unknown ha hb

/-- A fold that answers for unknown types succeeds where any other one does. -/
theorem exists_run_of_run (hp : fold.Plain) (hp' : fold'.Plain) (ht' : fold'.Total) {ty : TypeExpr}
    {a : α} (h : fold.run ty = .ok a) : ∃ b, fold'.run ty = .ok b :=
  (exists_runWithin_iff hp' ht').2 (within_of_runWithin hp h)

end TypeFold

end TypedTables
