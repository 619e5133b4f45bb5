import Mathlib

/-!
A step behind one that succeeds, and two steps side by side. Begun in states that go together, both
succeed or both fail, and what comes out of them goes together again.
-/

namespace TypedTables

section Single

variable {σ ε α β : Type} {g : EStateM ε σ α} {f : α → EStateM ε σ β} {a : α} {e : ε} {s t : σ}

theorem bind_of_ok (h : g s = .ok a t) : (g >>= f) s = f a t := by
  change EStateM.bind g f s = _
  unfold EStateM.bind
  rw [h]

theorem bind_of_error (h : g s = .error e t) : (g >>= f) s = .error e t := by
  change EStateM.bind g f s = _
  unfold EStateM.bind
  rw [h]

theorem get_bind (f : σ → EStateM ε σ β) (s : σ) :
    ((get : EStateM ε σ σ) >>= f) s = f s s := rfl

end Single

section Pair

variable {σ τ ε δ α β γ κ : Type} {S : σ → τ → Prop} {E : ε → δ → Prop} {R R' : α → β → Prop}
  {Q : γ → κ → Prop}

/-- Both steps succeeded, or both failed. -/
inductive Paired (S : σ → τ → Prop) (E : ε → δ → Prop) (R : α → β → Prop) :
    EStateM.Result ε σ α → EStateM.Result δ τ β → Prop
  | ok {a : α} {b : β} {s : σ} {t : τ} : R a b → S s t → Paired S E R (.ok a s) (.ok b t)
  | error {e : ε} {f : δ} {s : σ} {t : τ} : E e f → S s t → Paired S E R (.error e s) (.error f t)

/-- Steps that come to the same from states that go together by `S`: their errors go together by
`E`, their results by `R`. -/
def Lockstep (S : σ → τ → Prop) (E : ε → δ → Prop) (R : α → β → Prop) (g : EStateM ε σ α)
    (g' : EStateM δ τ β) : Prop :=
  ∀ s t, S s t → Paired S E R (g s) (g' t)

namespace Lockstep

variable {g : EStateM ε σ α} {g' : EStateM δ τ β} {f : α → EStateM ε σ γ} {f' : β → EStateM δ τ κ}

theorem pure {a : α} {b : β} (h : R a b) : Lockstep S E R (Pure.pure a) (Pure.pure b) :=
  fun _ _ hs => .ok h hs

theorem throw {e : ε} {e' : δ} (h : E e e') :
    Lockstep S E R (MonadExcept.throw e) (MonadExcept.throw e') := fun _ _ hs => .error h hs

theorem get : Lockstep S E S (MonadState.get : EStateM ε σ σ) (MonadState.get : EStateM δ τ τ) :=
  fun _ _ hs => .ok hs hs

theorem mono (h : Lockstep S E R g g') (hR : ∀ a b, R a b → R' a b) : Lockstep S E R' g g' := by
  intro s t hs
  match g s, g' t, h s t hs with
  | _, _, .ok hab hs => exact .ok (hR _ _ hab) hs
  | _, _, .error he hs => exact .error he hs

theorem bind (hg : Lockstep S E R g g') (hf : ∀ a b, R a b → Lockstep S E Q (f a) (f' b)) :
    Lockstep S E Q (g >>= f) (g' >>= f') := by
  intro s t hs
  change Paired S E Q (EStateM.bind g f s) (EStateM.bind g' f' t)
  unfold EStateM.bind
  match g s, g' t, hg s t hs with
  | _, _, .ok hab hs => exact hf _ _ hab _ _ hs
  | _, _, .error he hs => exact .error he hs

theorem map {h : α → γ} {h' : β → κ} (hg : Lockstep S E (fun a b => Q (h a) (h' b)) g g') :
    Lockstep S E Q (h <$> g) (h' <$> g') := by
  rw [← bind_pure_comp, ← bind_pure_comp]
  exact hg.bind fun _ _ hab => .pure hab

end Lockstep

/-- A step and its counterpart with a result of the same kind. -/
theorem Lockstep.seq {g : EStateM ε σ α} {g' : EStateM δ τ α} {f : α → EStateM ε σ γ}
    {f' : α → EStateM δ τ κ} (hg : Lockstep S E Eq g g')
    (hf : ∀ a, Lockstep S E Q (f a) (f' a)) : Lockstep S E Q (g >>= f) (g' >>= f') :=
  hg.bind fun a _ hab => hab ▸ hf a

theorem Lockstep.discard {g : EStateM ε σ α} {g' : EStateM δ τ β} (hg : Lockstep S E R g g') :
    Lockstep S E Eq (Functor.discard g) (Functor.discard g') :=
  (hg.mono fun _ _ _ => rfl).map

end Pair

end TypedTables
