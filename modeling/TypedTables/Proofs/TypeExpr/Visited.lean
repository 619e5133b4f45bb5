import TypedTables.Proofs.TypeExpr.Within

/-!
What a fold visits of a tree: the tree itself, the parts of its shape, and what it visits of those.
Arguments that no shape keeps, such as the keys of maps or what stands under an unknown name, are
not visited: they count neither for the depth of a tree nor as unknown types in it.
-/

namespace TypedTables

/-- The types that a fold goes on to. -/
def Shape.parts : Shape → List TypeExpr
  | .nullable inner | .transparent inner | .array inner | .map inner => [inner]
  | .tuple items => items
  | .enumeration _ | .leaf _ | .unknown _ => []

namespace TypeExpr

/-- A fold of the tree comes to the node. -/
inductive Visits : (ty node : TypeExpr) → Prop
  | root (ty : TypeExpr) : Visits ty ty
  | part {ty part node : TypeExpr} (hpart : part ∈ ty.shape.parts) (h : Visits part node) :
    Visits ty node

/-- An unknown type stands where a fold of the tree comes to it. -/
def ReachesUnknown (ty : TypeExpr) : Prop :=
  ∃ node name, ty.Visits node ∧ node.shape = .unknown name

/-- No way that a fold takes through the tree has more than `room` nodes. -/
def DepthWithin : (room : Nat) → TypeExpr → Prop
  | 0, _ => False
  | room + 1, ty => ∀ part ∈ ty.shape.parts, part.DepthWithin room

instance decidableDepthWithin : (room : Nat) → (ty : TypeExpr) → Decidable (ty.DepthWithin room)
  | 0, _ => .isFalse id
  | room + 1, ty => @List.decidableBAll _ _ (decidableDepthWithin room) ty.shape.parts

variable {ty : TypeExpr}

theorem reachesUnknown_iff : ty.ReachesUnknown ↔
    (∃ name, ty.shape = .unknown name) ∨ ∃ part ∈ ty.shape.parts, part.ReachesUnknown := by
  constructor
  · rintro ⟨node, name, hvisits, hname⟩
    cases hvisits with
    | root => exact .inl ⟨name, hname⟩
    | part hpart hvisits => exact .inr ⟨_, hpart, node, name, hvisits, hname⟩
  · rintro (⟨name, hname⟩ | ⟨part, hpart, node, name, hvisits, hname⟩)
    · exact ⟨ty, name, .root ty, hname⟩
    · exact ⟨node, name, .part hpart hvisits, hname⟩

theorem DepthWithin.succ {room : Nat} (h : ty.DepthWithin room) : ty.DepthWithin (room + 1) := by
  induction room generalizing ty with
  | zero => contradiction
  | succ room ih =>
    rw [DepthWithin] at h ⊢
    exact fun part hpart => ih (h part hpart)

end TypeExpr

namespace TypeFold

variable {α : Type} {fold : TypeFold α} {ty : TypeExpr}

/-- The fold, except that it answers for no unknown type. -/
def refusing (fold : TypeFold α) (error : String → Error) : TypeFold α :=
  { fold with unknown := fun name => .error (error name) }

/-- Refusing unknown types takes away the results for trees that reach one, and no others. -/
theorem runWithin_refusing (hp : fold.Plain) (error : String → Error) {room : Nat} {a : α} :
    (fold.refusing error).runWithin room ty = .ok a ↔
      fold.runWithin room ty = .ok a ∧ ¬ ty.ReachesUnknown := by
  have hp' : (fold.refusing error).Plain := hp
  induction room generalizing ty a with
  | zero => exact ⟨nofun, nofun⟩
  | succ room ih =>
    rw [runWithin_succ_eq_ok hp', runWithin_succ_eq_ok hp, TypeExpr.reachesUnknown_iff]
    cases hs : ty.shape with
    | nullable inner | array inner | map inner =>
      have hparts (P : TypeExpr → Prop) : (∃ part ∈ [inner], P part) ↔ P inner := by simp
      simp only [ih, Shape.parts, hparts, reduceCtorEq, exists_false, false_or]
      constructor
      · rintro ⟨b, ⟨hb, hn⟩, rfl⟩
        exact ⟨⟨b, hb, rfl⟩, hn⟩
      · rintro ⟨⟨b, hb, rfl⟩, hn⟩
        exact ⟨b, ⟨hb, hn⟩, rfl⟩
    | transparent inner => simp [ih, Shape.parts]
    | tuple items =>
      simp only [ih, Shape.parts, reduceCtorEq, exists_false, false_or, not_exists, not_and]
      constructor
      · rintro ⟨hlen, bs, hbs, rfl⟩
        refine ⟨⟨hlen, bs, hbs.imp fun _ _ h => h.1, rfl⟩, fun item hitem => ?_⟩
        obtain ⟨b, -, -, hn⟩ := exists_of_forall₂ hbs hitem
        exact hn
      · rintro ⟨⟨hlen, bs, hbs, rfl⟩, hn⟩
        have hboth := (List.forall₂_and_left _ _).2 ⟨hn, hbs⟩
        exact ⟨hlen, bs, hboth.imp fun _ _ h => h.symm, rfl⟩
    | enumeration keys | leaf leaf =>
      simp [Shape.parts, refusing]
    | unknown name => simp [refusing]

end TypeFold

end TypedTables
