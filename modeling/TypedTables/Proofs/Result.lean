import Mathlib

/-!
When results put together are results: a chain, a list of them, and what the error is if not; and
when two of them fail alike.
-/

namespace TypedTables

variable {ε α β : Type} {x : Except ε α} {xs : List α} {e : ε}

instance decidableEqError [DecidableEq ε] (x : Except ε α) (e : ε) : Decidable (x = .error e) :=
  match x with
  | .ok _ => .isFalse nofun
  | .error e' => decidable_of_iff (e' = e) (by simp)

theorem exists_of_any {p : α → Bool} (h : x.toOption.any p = true) :
    ∃ a, x = .ok a ∧ p a = true := by
  cases x with
  | ok a => exact ⟨a, rfl, h⟩
  | error => contradiction

theorem bind_eq_ok {f : α → Except ε β} {b : β} :
    (x >>= f) = .ok b ↔ ∃ a, x = .ok a ∧ f a = .ok b := by
  cases x with
  | ok a => exact ⟨fun h => ⟨a, rfl, h⟩, fun ⟨_, ha, h⟩ => Except.ok.inj ha ▸ h⟩
  | error e => exact ⟨nofun, nofun⟩

theorem bind_eq_error {f : α → Except ε β} :
    (x >>= f) = .error e ↔ x = .error e ∨ ∃ a, x = .ok a ∧ f a = .error e := by
  cases x with
  | ok a =>
    change f a = .error e ↔ _
    simp
  | error e' =>
    change Except.error e' = .error e ↔ _
    simp

theorem exists_bind {f : α → Except ε β} (hx : ∃ a, x = .ok a) (hf : ∀ a, ∃ b, f a = .ok b) :
    ∃ b, (x >>= f) = .ok b := by
  obtain ⟨a, rfl⟩ := hx
  exact hf a

theorem exists_map (f : α → β) (hx : ∃ a, x = .ok a) : ∃ b, f <$> x = .ok b := by
  obtain ⟨a, rfl⟩ := hx
  exact ⟨f a, rfl⟩

theorem map_eq_ok {f : α → β} {b : β} : f <$> x = .ok b ↔ ∃ a, x = .ok a ∧ f a = b := by
  cases x with
  | ok a => exact ⟨fun h => ⟨a, rfl, Except.ok.inj h⟩, fun ⟨_, ha, h⟩ => by cases ha; rw [← h]; rfl⟩
  | error e => exact ⟨nofun, nofun⟩

theorem map_eq_error {f : α → β} : f <$> x = .error e ↔ x = .error e := by
  cases x with
  | ok a => exact ⟨nofun, nofun⟩
  | error e' => exact ⟨fun h => by simpa using h, fun h => by rw [h]; rfl⟩

theorem mapM_eq_ok {f : α → Except ε β} {bs : List β} :
    xs.mapM f = .ok bs ↔ List.Forall₂ (fun x b => f x = .ok b) xs bs := by
  induction xs generalizing bs with
  | nil => simp [pure, Except.pure, eq_comm]
  | cons x xs ih =>
    rw [List.mapM_cons, bind_eq_ok]
    simp only [bind_eq_ok, ih]
    constructor
    · rintro ⟨b, hb, bs', hbs, h⟩
      rw [← Except.ok.inj h]
      exact .cons hb hbs
    · rintro (_ | ⟨hb, hbs⟩)
      exact ⟨_, hb, _, hbs, rfl⟩

theorem exists_getElem?_of_forall₂ {R : α → β → Prop} {ys : List β} (h : List.Forall₂ R xs ys)
    {i : Nat} {x : α} (hx : xs[i]? = some x) : ∃ y, ys[i]? = some y ∧ R x y := by
  obtain ⟨hi, rfl⟩ := List.getElem?_eq_some_iff.1 hx
  have hi' : i < ys.length := h.length_eq ▸ hi
  exact ⟨ys[i], List.getElem?_eq_getElem hi', (List.forall₂_iff_get.1 h).2 i hi hi'⟩

theorem exists_of_forall₂ {R : α → β → Prop} {ys : List β}
    (h : List.Forall₂ R xs ys) {x : α} (hx : x ∈ xs) : ∃ y ∈ ys, R x y := by
  obtain ⟨i, hi⟩ := List.mem_iff_getElem?.1 hx
  obtain ⟨y, hy, hxy⟩ := exists_getElem?_of_forall₂ h hi
  exact ⟨y, List.mem_of_getElem? hy, hxy⟩

theorem exists_mapM_iff {f : α → Except ε β} :
    (∃ bs, xs.mapM f = .ok bs) ↔ ∀ x ∈ xs, ∃ b, f x = .ok b := by
  simp only [mapM_eq_ok]
  induction xs with
  | nil => simp
  | cons x xs ih =>
    rw [List.forall_mem_cons, ← ih]
    constructor
    · rintro ⟨_, _ | ⟨hb, hbs⟩⟩
      exact ⟨⟨_, hb⟩, _, hbs⟩
    · rintro ⟨⟨b, hb⟩, bs, hbs⟩
      exact ⟨b :: bs, .cons hb hbs⟩

theorem exists_of_mapM_eq_error {f : α → Except ε β} (h : xs.mapM f = .error e) :
    ∃ x ∈ xs, f x = .error e := by
  induction xs with
  | nil => contradiction
  | cons x xs ih =>
    rw [List.mapM_cons, bind_eq_error] at h
    obtain h | ⟨b, -, h⟩ := h
    · exact ⟨x, List.mem_cons_self, h⟩
    · obtain h | ⟨bs, -, h⟩ := bind_eq_error.1 h
      · obtain ⟨y, hy, h⟩ := ih h
        exact ⟨y, List.mem_cons_of_mem x hy, h⟩
      · contradiction

theorem mapM_map {γ : Type} (g : β → γ) (f : α → Except ε β) (xs : List α) :
    xs.mapM (fun x => g <$> f x) = List.map g <$> xs.mapM f := by
  induction xs with
  | nil => rfl
  | cons x xs ih =>
    rw [List.mapM_cons, List.mapM_cons, ih]
    cases f x with
    | error e => rfl
    | ok b => cases xs.mapM f <;> rfl

theorem mapM_congr_forall₂ {ys : List α} {f g : α → Except ε β}
    (h : List.Forall₂ (fun x y => g y = f x) xs ys) : ys.mapM g = xs.mapM f := by
  induction h with
  | nil => rfl
  | cons hxy _ ih => rw [List.mapM_cons, List.mapM_cons, hxy, ih]

theorem forM_eq_ok {f : α → Except ε Unit} : xs.forM f = .ok () ↔ ∀ x ∈ xs, f x = .ok () := by
  induction xs with
  | nil => exact ⟨nofun, fun _ => rfl⟩
  | cons x xs ih =>
    change (f x >>= fun _ => xs.forM f) = .ok () ↔ _
    rw [bind_eq_ok, List.forall_mem_cons, ← ih]
    exact ⟨fun ⟨_, hx, hxs⟩ => ⟨hx, hxs⟩, fun ⟨hx, hxs⟩ => ⟨(), hx, hxs⟩⟩

theorem forM_congr_forall₂ {ys : List α} {f g : α → Except ε Unit}
    (h : List.Forall₂ (fun x y => g y = f x) xs ys) : ys.forM g = xs.forM f := by
  induction h with
  | nil => rfl
  | cons hxy _ ih =>
    change (g _ >>= fun _ => _) = (f _ >>= fun _ => _)
    rw [hxy, ih]

section FailAlike

variable {γ δ : Type} {y : Except ε β}

/-- Two results that are both there, or are not there for the same reason. -/
inductive FailAlike : Except ε α → Except ε β → Prop
  | ok (a : α) (b : β) : FailAlike (.ok a) (.ok b)
  | error (e : ε) : FailAlike (.error e) (.error e)

namespace FailAlike

theorem refl (x : Except ε α) : FailAlike x x := by
  cases x with
  | ok a => exact .ok a a
  | error e => exact .error e

theorem symm (h : FailAlike x y) : FailAlike y x := by
  cases h with
  | ok a b => exact .ok b a
  | error e => exact .error e

theorem trans {z : Except ε γ} (h : FailAlike x y) (h' : FailAlike y z) : FailAlike x z := by
  cases h with
  | ok a b =>
    cases h' with
    | ok _ c => exact .ok a c
  | error e =>
    cases h' with
    | error => exact .error e

theorem of_exists (hx : ∃ a, x = .ok a) (hy : ∃ b, y = .ok b) : FailAlike x y := by
  obtain ⟨a, rfl⟩ := hx
  obtain ⟨b, rfl⟩ := hy
  exact .ok a b

theorem bind {f : α → Except ε γ} {g : β → Except ε δ} (h : FailAlike x y)
    (hf : ∀ a b, FailAlike (f a) (g b)) : FailAlike (x >>= f) (y >>= g) := by
  cases h with
  | ok a b => exact hf a b
  | error e => exact .error e

/-- What cannot fail behind a result makes no difference. -/
theorem bind_left {f : α → Except ε γ} (h : FailAlike x y) (hf : ∀ a, ∃ c, f a = .ok c) :
    FailAlike (x >>= f) y := by
  cases h with
  | ok a b => exact of_exists (hf a) ⟨b, rfl⟩
  | error e => exact .error e

/-- What fails as the result before it does makes no difference behind it. -/
theorem bind_self {f : α → Except ε γ} (hf : ∀ a, FailAlike (f a) x) : FailAlike (x >>= f) x := by
  cases x with
  | ok a => exact hf a
  | error e => exact .error e

theorem map (f : α → γ) (g : β → δ) (h : FailAlike x y) : FailAlike (f <$> x) (g <$> y) := by
  cases h with
  | ok a b => exact .ok (f a) (g b)
  | error e => exact .error e

theorem mapM {f : α → Except ε γ} {g : α → Except ε δ} (h : ∀ a, FailAlike (f a) (g a))
    (xs : List α) : FailAlike (xs.mapM f) (xs.mapM g) := by
  induction xs with
  | nil => exact .ok [] []
  | cons x xs ih =>
    rw [List.mapM_cons, List.mapM_cons]
    refine (h x).bind fun c d => ih.bind fun cs ds => ?_
    exact .ok (c :: cs) (d :: ds)

end FailAlike

end FailAlike

end TypedTables
