import TypedTables.Proofs.Result
import TypedTables.TypeExpr.Fold

/-!
Types that keep to the ceilings. Whether a fold succeeds does not depend on what it makes of the
shapes: one that answers for unknown types succeeds on exactly the types within its room.
-/

namespace TypedTables

/-- Whether a fold with `room` levels left finds no ceiling exceeded in what it visits. -/
def TypeExpr.Within : (room : Nat) → TypeExpr → Prop
  | 0, _ => False
  | room + 1, ty =>
    match ty.shape with
    | .nullable inner | .transparent inner | .array inner | .map inner => inner.Within room
    | .tuple items => items.length ≤ Ceiling.tupleArity.limit ∧ ∀ item ∈ items, item.Within room
    | .enumeration keys => keys.length ≤ Ceiling.enumMembers.limit
    | .leaf _ | .unknown _ => True

/-- Where the parts of a type's shape come from. -/
def Shape.PartOf (ty : TypeExpr) : Shape → Prop
  | .nullable inner | .transparent inner | .array inner | .map inner => inner ∈ ty.typeArgs
  | .tuple items => ty.name = "Tuple" ∧ items = ty.typeArgs
  | .enumeration keys =>
    isEnumName ty.name = true ∧ keys = ty.args.filterMap TypeArg.key? ∧ keys ≠ []
  | .leaf _ | .unknown _ => True

namespace TypeExpr

theorem partOf_getD {ty : TypeExpr} {wrap : TypeExpr → Shape} {inner? : Option TypeExpr}
    (hw : ∀ inner, (wrap inner).PartOf ty ↔ inner ∈ ty.typeArgs)
    (h : ∀ inner ∈ inner?, inner ∈ ty.typeArgs) :
    ((inner?.map wrap).getD (.unknown ty.name)).PartOf ty := by
  cases inner? with
  | none => trivial
  | some inner => exact (hw inner).2 (h inner rfl)

theorem shape_partOf (ty : TypeExpr) : ty.shape.PartOf ty := by
  unfold shape
  dsimp only
  split
  · exact partOf_getD (fun _ => Iff.rfl) fun _ => List.mem_of_head?
  · exact partOf_getD (fun _ => Iff.rfl) fun _ => List.mem_of_head?
  · exact partOf_getD (fun _ => Iff.rfl) fun _ => List.mem_of_getLast?
  · exact partOf_getD (fun _ => Iff.rfl) fun _ => List.mem_of_head?
  · next h => exact ⟨h, rfl⟩
  · exact partOf_getD (fun _ => Iff.rfl) fun _ => List.mem_of_getElem?
  · split_ifs with he
    · split
      · trivial
      · next h => exact ⟨he, rfl, h⟩
    · split <;> trivial

theorem within_succ {room : Nat} {ty : TypeExpr} (hargs : ∀ t ∈ ty.typeArgs, t.Within room)
    (htuple : ty.name = "Tuple" → ty.args.length ≤ Ceiling.tupleArity.limit)
    (henum : isEnumName ty.name = true → ty.args.length ≤ Ceiling.enumMembers.limit) :
    ty.Within (room + 1) := by
  have hpart := ty.shape_partOf
  rw [Within]
  cases hs : ty.shape with
  | nullable inner | transparent inner | array inner | map inner =>
    rw [hs] at hpart
    exact hargs inner hpart
  | tuple items =>
    rw [hs] at hpart
    obtain ⟨hname, rfl⟩ := hpart
    exact ⟨(List.length_filterMap_le ..).trans (htuple hname), hargs⟩
  | enumeration keys =>
    rw [hs] at hpart
    obtain ⟨hname, rfl, -⟩ := hpart
    exact (List.length_filterMap_le ..).trans (henum hname)
  | leaf | unknown => trivial

theorem within_plain (name : String) (room : Nat) : (plain name).Within (room + 1) :=
  within_succ (by simp [plain, typeArgs]) (fun _ => Nat.zero_le _) fun _ => Nat.zero_le _

theorem within_nullable {room : Nat} {ty : TypeExpr} :
    ty.nullable.Within (room + 1) ↔ ty.Within room := Iff.rfl

theorem Within.mono {room room' : Nat} {ty : TypeExpr} (h : ty.Within room) (hle : room ≤ room') :
    ty.Within room' := by
  induction room' generalizing room ty with
  | zero => rwa [Nat.le_zero.1 hle] at h
  | succ room' ih =>
    cases room with
    | zero => contradiction
    | succ room =>
      have hle := Nat.le_of_succ_le_succ hle
      rw [Within] at h ⊢
      cases hs : ty.shape with
      | nullable inner | transparent inner | array inner | map inner =>
        rw [hs] at h
        exact ih h hle
      | tuple items =>
        rw [hs] at h
        exact ⟨h.1, fun item hi => ih (h.2 item hi) hle⟩
      | enumeration keys => rwa [hs] at h
      | leaf | unknown => trivial

end TypeExpr

theorem Ceiling.check_eq_ok {ceiling : Ceiling} {value : Nat} :
    ceiling.check value = .ok () ↔ value ≤ ceiling.limit := by
  unfold Ceiling.check
  split <;> simp <;> omega

theorem Ceiling.check_eq_error {ceiling : Ceiling} {value : Nat} {e : Error} :
    ceiling.check value = .error e ↔ ceiling.limit < value ∧ e = .exceeded ceiling := by
  unfold Ceiling.check
  split <;> simp [*, eq_comm]

theorem Ceiling.check_bind_eq_ok {α : Type} {ceiling : Ceiling} {value : Nat} {x : Except Error α}
    {a : α} :
    (ceiling.check value >>= fun _ => x) = .ok a ↔ value ≤ ceiling.limit ∧ x = .ok a := by
  rw [bind_eq_ok, ← check_eq_ok]
  exact ⟨fun ⟨_, hc, h⟩ => ⟨hc, h⟩, fun ⟨hc, h⟩ => ⟨(), hc, h⟩⟩

namespace TypeFold

variable {α : Type} {fold : TypeFold α} {ty : TypeExpr}

/-- No node is answered for in place of the fold. -/
def Plain (fold : TypeFold α) : Prop := ∀ ty depth, fold.intercept ty depth = none

/-- Unknown types are answered for. -/
def Total (fold : TypeFold α) : Prop := ∀ name, ∃ a, fold.unknown name = .ok a

/-- What a fold has found when it succeeds on a node. -/
theorem runWithin_succ_eq_ok (hp : fold.Plain) {room : Nat} {a : α} :
    fold.runWithin (room + 1) ty = .ok a ↔
      match ty.shape with
      | .nullable inner => ∃ b, fold.runWithin room inner = .ok b ∧ fold.nullable b = a
      | .transparent inner => fold.runWithin room inner = .ok a
      | .array item => ∃ b, fold.runWithin room item = .ok b ∧ fold.array b = a
      | .tuple items => items.length ≤ Ceiling.tupleArity.limit ∧
        ∃ bs, List.Forall₂ (fun item b => fold.runWithin room item = .ok b) items bs ∧
          fold.tuple bs = a
      | .map value => ∃ b, fold.runWithin room value = .ok b ∧ fold.map b = a
      | .enumeration keys =>
        keys.length ≤ Ceiling.enumMembers.limit ∧ fold.enumeration keys = a
      | .leaf leaf => fold.leaf leaf = a
      | .unknown name => fold.unknown name = .ok a := by
  cases hs : ty.shape with
  | nullable inner | array inner | map inner =>
    simp only [runWithin, hp ty, hs]
    exact map_eq_ok
  | transparent inner => simp only [runWithin, hp ty, hs]
  | tuple items =>
    simp only [runWithin, hp ty, hs, Ceiling.check_bind_eq_ok, map_eq_ok, mapM_eq_ok]
  | enumeration keys =>
    simp only [runWithin, hp ty, hs, Ceiling.check_bind_eq_ok, pure, Except.pure, Except.ok.injEq]
  | leaf leaf => simp only [runWithin, hp ty, hs, Except.ok.injEq]
  | unknown name => simp only [runWithin, hp ty, hs]

theorem within_of_runWithin (hp : fold.Plain) {room : Nat} {a : α}
    (h : fold.runWithin room ty = .ok a) : ty.Within room := by
  induction room generalizing ty a with
  | zero => contradiction
  | succ room ih =>
    rw [runWithin_succ_eq_ok hp] at h
    rw [TypeExpr.Within]
    cases hs : ty.shape with
    | nullable inner | array inner | map inner =>
      rw [hs] at h
      obtain ⟨b, hb, -⟩ := h
      exact ih hb
    | transparent inner =>
      rw [hs] at h
      exact ih h
    | tuple items =>
      rw [hs] at h
      obtain ⟨hlen, bs, hbs, -⟩ := h
      refine ⟨hlen, fun item hi => ?_⟩
      obtain ⟨b, -, hb⟩ := exists_of_forall₂ hbs hi
      exact ih hb
    | enumeration keys =>
      rw [hs] at h
      exact h.1
    | leaf | unknown => trivial

/-- A fold on a type that keeps to the other ceilings fails on its depth or on an unknown type. -/
theorem error_of_runWithin (hp : fold.Plain) {room depth : Nat} {e : Error} (hty : ty.Within depth)
    (h : fold.runWithin room ty = .error e) :
    room < depth ∧ e = .tooDeep ∨ ∃ name, fold.unknown name = .error e := by
  induction room generalizing ty depth with
  | zero =>
    cases depth with
    | zero => contradiction
    | succ depth => exact .inl ⟨Nat.succ_pos depth, (Except.error.inj h).symm⟩
  | succ room ih =>
    cases depth with
    | zero => contradiction
    | succ depth =>
      rw [Nat.add_lt_add_iff_right]
      cases hs : ty.shape with
      | nullable inner | array inner | map inner =>
        simp only [runWithin, hp ty, TypeExpr.Within, hs] at h hty
        exact ih hty (map_eq_error.1 h)
      | transparent inner =>
        simp only [runWithin, hp ty, TypeExpr.Within, hs] at h hty
        exact ih hty h
      | tuple items =>
        simp only [runWithin, hp ty, TypeExpr.Within, hs] at h hty
        obtain ⟨hlen, hitems⟩ := hty
        obtain h | ⟨_, -, h⟩ := bind_eq_error.1 h
        · rw [Ceiling.check_eq_ok.2 hlen] at h
          contradiction
        · obtain ⟨item, hi, h⟩ := exists_of_mapM_eq_error (map_eq_error.1 h)
          exact ih (hitems item hi) h
      | enumeration keys =>
        simp only [runWithin, hp ty, TypeExpr.Within, hs] at h hty
        obtain h | ⟨_, -, h⟩ := bind_eq_error.1 h
        · rw [Ceiling.check_eq_ok.2 hty] at h
          contradiction
        · contradiction
      | leaf leaf =>
        simp only [runWithin, hp ty, hs] at h
        contradiction
      | unknown name =>
        simp only [runWithin, hp ty, hs] at h
        exact .inr ⟨name, h⟩

/-- Among the types that keep to the other ceilings a fold fails on those that are too deep. -/
theorem tooDeep_of_runWithin (hp : fold.Plain) (ht : fold.Total) {room depth : Nat} {e : Error}
    (hty : ty.Within depth) (h : fold.runWithin room ty = .error e) :
    room < depth ∧ e = .tooDeep := by
  obtain h | ⟨name, h⟩ := error_of_runWithin hp hty h
  · exact h
  · obtain ⟨a, ha⟩ := ht name
    exact absurd (h.symm.trans ha) nofun

theorem exists_runWithin_iff (hp : fold.Plain) (ht : fold.Total) {room : Nat} :
    (∃ a, fold.runWithin room ty = .ok a) ↔ ty.Within room := by
  refine ⟨fun ⟨_, h⟩ => within_of_runWithin hp h, fun hty => ?_⟩
  cases h : fold.runWithin room ty with
  | ok a => exact ⟨a, rfl⟩
  | error e => exact absurd (tooDeep_of_runWithin hp ht hty h).1 (Nat.lt_irrefl room)

/-- What every step of a fold keeps holds of its results. An enumeration has at least one key. -/
structure Keeps (fold : TypeFold α) (Q : α → Prop) : Prop where
  nullable : ∀ a, Q a → Q (fold.nullable a)
  array : ∀ a, Q a → Q (fold.array a)
  tuple : ∀ as, (∀ a ∈ as, Q a) → Q (fold.tuple as)
  map : ∀ a, Q a → Q (fold.map a)
  enumeration : ∀ keys, keys ≠ [] → Q (fold.enumeration keys)
  leaf : ∀ leaf, Q (fold.leaf leaf)
  unknown : ∀ name a, fold.unknown name = .ok a → Q a

theorem Keeps.of_runWithin {Q : α → Prop} (hk : fold.Keeps Q) (hp : fold.Plain) {room : Nat} {a : α}
    (h : fold.runWithin room ty = .ok a) : Q a := by
  induction room generalizing ty a with
  | zero => contradiction
  | succ room ih =>
    have hpart := ty.shape_partOf
    rw [runWithin_succ_eq_ok hp] at h
    cases hs : ty.shape with
    | nullable inner =>
      rw [hs] at h
      obtain ⟨b, hb, rfl⟩ := h
      exact hk.nullable b (ih hb)
    | transparent inner =>
      rw [hs] at h
      exact ih h
    | array item =>
      rw [hs] at h
      obtain ⟨b, hb, rfl⟩ := h
      exact hk.array b (ih hb)
    | tuple items =>
      rw [hs] at h
      obtain ⟨-, bs, hbs, rfl⟩ := h
      refine hk.tuple bs fun b hb => ?_
      obtain ⟨item, -, hb⟩ := exists_of_forall₂ hbs.flip hb
      exact ih hb
    | map value =>
      rw [hs] at h
      obtain ⟨b, hb, rfl⟩ := h
      exact hk.map b (ih hb)
    | enumeration keys =>
      rw [hs] at h hpart
      obtain ⟨-, rfl⟩ := h
      exact hk.enumeration keys hpart.2.2
    | leaf leaf =>
      rw [hs] at h
      exact h ▸ hk.leaf leaf
    | unknown name =>
      rw [hs] at h
      exact hk.unknown name a h

end TypeFold

end TypedTables
