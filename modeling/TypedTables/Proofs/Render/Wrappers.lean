import TypedTables.Proofs.Resolve.Ceilings
import TypedTables.Proofs.TypeExpr.Visited
import TypedTables.Render.JsonSchema
import TypedTables.Render.Validator

/-!
Wrappers that leave the value as it is. Wherever one is put around a type in a tree, the outputs for
the tree stay what they were, as long as it does not become too deep: every fold makes of the
wrapper what it makes of the type in it, and no shape looks further into its arguments than at which
of them are types.
-/

namespace TypedTables

/-- A tree with a place for a type: the root, or an argument in a tree with such a place. -/
inductive TypeContext
  | hole
  | arg (name : String) (before : List TypeArg) (inner : TypeContext) (after : List TypeArg)

def TypeContext.fill : TypeContext → TypeExpr → TypeExpr
  | .hole, ty => ty
  | .arg name before inner after, ty => .mk name (before ++ .type (inner.fill ty) :: after)

/-- A wrapper of a type that leaves the value as it is. -/
inductive TypeExpr.Wraps : (wrapper ty : TypeExpr) → Prop
  | lowCardinality (ty : TypeExpr) : Wraps (.mk "LowCardinality" [.type ty]) ty
  | simpleAggregate {args : List TypeArg} {ty : TypeExpr}
    (h : (args.filterMap TypeArg.type?).getLast? = some ty) :
    Wraps (.mk "SimpleAggregateFunction" args) ty

theorem TypeExpr.Wraps.shape {wrapper ty : TypeExpr} (h : wrapper.Wraps ty) :
    wrapper.shape = .transparent ty := by
  cases h with
  | lowCardinality => rfl
  | simpleAggregate h =>
    change ((List.getLast? _).map Shape.transparent).getD _ = _
    rw [typeArgs, args_mk, h]
    rfl

/-- Shapes of one kind whose parts go together. -/
inductive Shape.Alike (R : TypeExpr → TypeExpr → Prop) : Shape → Shape → Prop
  | nullable {a b : TypeExpr} (h : R a b) : Alike R (.nullable a) (.nullable b)
  | transparent {a b : TypeExpr} (h : R a b) : Alike R (.transparent a) (.transparent b)
  | array {a b : TypeExpr} (h : R a b) : Alike R (.array a) (.array b)
  | tuple {as bs : List TypeExpr} (h : List.Forall₂ R as bs) : Alike R (.tuple as) (.tuple bs)
  | map {a b : TypeExpr} (h : R a b) : Alike R (.map a) (.map b)
  | enumeration (keys : List String) : Alike R (.enumeration keys) (.enumeration keys)
  | leaf (kind : Leaf) : Alike R (.leaf kind) (.leaf kind)
  | unknown (name : String) : Alike R (.unknown name) (.unknown name)

section Shape

variable {R : TypeExpr → TypeExpr → Prop} {as bs : List TypeArg}

theorem rel_getElem? {α β : Type} {R : α → β → Prop} {xs : List α} {ys : List β}
    (h : List.Forall₂ R xs ys) (i : Nat) : Option.Rel R xs[i]? ys[i]? := by
  induction h generalizing i with
  | nil => exact .none
  | cons hxy _ ih =>
    cases i with
    | zero => exact .some hxy
    | succ i => exact ih i

theorem Shape.alike_getD {wrap : TypeExpr → Shape} (hwrap : ∀ {a b}, R a b → (wrap a).Alike R (wrap b))
    {a b : Option TypeExpr} (h : Option.Rel R a b) (name : String) :
    ((a.map wrap).getD (.unknown name)).Alike R ((b.map wrap).getD (.unknown name)) := by
  cases h with
  | none => exact .unknown name
  | some h => exact hwrap h

/-- A shape depends on the name, on the type arguments and on the keys. -/
theorem TypeExpr.shape_alike (hkeys : as.filterMap TypeArg.key? = bs.filterMap TypeArg.key?)
    (htypes : List.Forall₂ R (as.filterMap TypeArg.type?) (bs.filterMap TypeArg.type?))
    (name : String) : (mk name as).shape.Alike R (mk name bs).shape := by
  have hhead := rel_getElem? htypes 0
  have hlast := rel_getElem? htypes ((as.filterMap TypeArg.type?).length - 1)
  have hsecond := rel_getElem? htypes 1
  rw [← List.getLast?_eq_getElem?, htypes.length_eq, ← List.getLast?_eq_getElem?] at hlast
  rw [← List.head?_eq_getElem?, ← List.head?_eq_getElem?] at hhead
  unfold shape
  dsimp only [name_mk, typeArgs, args_mk]
  split
  · exact Shape.alike_getD .nullable hhead _
  · exact Shape.alike_getD .transparent hhead _
  · exact Shape.alike_getD .transparent hlast _
  · exact Shape.alike_getD .array hhead _
  · exact .tuple htypes
  · exact Shape.alike_getD .map hsecond _
  · rw [hkeys]
    split_ifs
    · split
      · exact .leaf _
      · exact .enumeration _
    · split
      · exact .leaf _
      · exact .unknown _

end Shape

namespace TypeFold

variable {α : Type} {fold : TypeFold α}

/-- Within the depth of a tree the room does not matter. -/
theorem runWithin_of_depthWithin (hp : fold.Plain) {room room' : Nat} {ty : TypeExpr}
    (h : ty.DepthWithin room) (h' : ty.DepthWithin room') :
    fold.runWithin room ty = fold.runWithin room' ty := by
  induction room generalizing room' ty with
  | zero => contradiction
  | succ room ih =>
    cases room' with
    | zero => contradiction
    | succ room' =>
      rw [TypeExpr.DepthWithin] at h h'
      simp only [runWithin, hp ty]
      cases hs : ty.shape with
      | nullable inner | transparent inner | array inner | map inner =>
        rw [hs] at h h'
        have hinner := ih (h inner List.mem_cons_self) (h' inner List.mem_cons_self)
        simp only [hinner]
      | tuple items =>
        rw [hs] at h h'
        have hitems : items.mapM (fold.runWithin room) = items.mapM (fold.runWithin room') :=
          mapM_congr_forall₂ (List.forall₂_same.2 fun item hitem =>
            ih (h item hitem) (h' item hitem))
        simp only [hitems]
      | enumeration | leaf | unknown => rfl

/-- The fold makes the same of both types in any room that the first one has. -/
def Same (fold : TypeFold α) (ty ty' : TypeExpr) : Prop :=
  ∀ room, ty.DepthWithin room → fold.runWithin room ty = fold.runWithin room ty'

theorem Same.refl (ty : TypeExpr) : fold.Same ty ty := fun _ _ => rfl

theorem Same.of_alike (hp : fold.Plain) {ty ty' : TypeExpr} (h : ty.shape.Alike fold.Same ty'.shape) :
    fold.Same ty ty' := by
  intro room hdepth
  cases room with
  | zero => contradiction
  | succ room =>
    rw [TypeExpr.DepthWithin] at hdepth
    simp only [runWithin, hp ty, hp ty']
    generalize ty.shape = s at h hdepth
    generalize ty'.shape = s' at h
    cases h with
    | nullable h | transparent h | array h | map h =>
      simp only [h room (hdepth _ List.mem_cons_self)]
    | @tuple items items' h =>
      have hdepth : ∀ item ∈ items, item.DepthWithin room := hdepth
      have hitems := mapM_congr_forall₂ (((List.forall₂_and_left _ _).2 ⟨hdepth, h⟩).imp
        fun item item' hsame => (hsame.2 room hsame.1).symm)
      simp only [h.length_eq, hitems]
    | enumeration | leaf | unknown => rfl

/-- A wrapper takes one level more than the type in it, and is nothing else to the fold. -/
theorem Same.of_wraps (hp : fold.Plain) {wrapper ty : TypeExpr} (h : wrapper.Wraps ty) :
    fold.Same wrapper ty := by
  intro room hdepth
  cases room with
  | zero => contradiction
  | succ room =>
    rw [TypeExpr.DepthWithin, h.shape] at hdepth
    have hty : ty.DepthWithin room := hdepth ty List.mem_cons_self
    conv_lhs => simp only [runWithin, hp wrapper, h.shape]
    exact runWithin_of_depthWithin hp hty hty.succ

theorem Same.fill (hp : fold.Plain) {ty ty' : TypeExpr} (h : fold.Same ty ty')
    (context : TypeContext) : fold.Same (context.fill ty) (context.fill ty') := by
  induction context with
  | hole => exact h
  | arg name before inner after ih =>
    refine .of_alike hp (TypeExpr.shape_alike ?_ ?_ name)
    · simp only [List.filterMap_append, List.filterMap_cons, TypeArg.key?]
    · simp only [List.filterMap_append, List.filterMap_cons, TypeArg.type?]
      have hsame (types : List TypeExpr) : List.Forall₂ fold.Same types types :=
        List.forall₂_same.2 fun ty _ => .refl ty
      exact List.rel_append (hsame _) (.cons ih (hsame _))

end TypeFold

/-- A wrapper that leaves the value as it is may be put around any type of a tree: as long as the
tree does not become too deep by it, the outputs for the tree stay as they are. -/
theorem outputs_of_wrapped {options : ResolveOptions} (hp : options.plugins = [])
    {wrapper ty : TypeExpr} (h : wrapper.Wraps ty) {context : TypeContext}
    (hdepth : (context.fill wrapper).DepthWithin maxTypeDepth) (table column : String)
    (representation : MappingOptions) :
    mapType options table column (context.fill wrapper) =
        mapType options table column (context.fill ty) ∧
      Validator.ofType representation (context.fill wrapper) =
        Validator.ofType representation (context.fill ty) ∧
      JsonSchema.ofType representation (context.fill wrapper) =
        JsonSchema.ofType representation (context.fill ty) := by
  have hrun {α : Type} {fold : TypeFold α} (hp : fold.Plain) :
      fold.run (context.fill wrapper) = fold.run (context.fill ty) :=
    (TypeFold.Same.of_wraps hp h).fill hp context maxTypeDepth hdepth
  refine ⟨?_, hrun fun _ _ => rfl, hrun fun _ _ => rfl⟩
  rw [mapType_eq hp, mapType_eq hp, hrun (TsType.plainFold_plain _)]

/-- Maps whose values are sums that may be missing. -/
def sums : TypeContext :=
  .arg "Map" [.type (.plain "String")] (.arg "Nullable" [] .hole [.number "0"]) []

def summed : TypeExpr := .mk "SimpleAggregateFunction" [.type (.plain "sum"), .type (.plain "UInt64")]

theorem outputs_of_wrapped_sum :
    summed.Wraps (.plain "UInt64") ∧ (sums.fill summed).DepthWithin maxTypeDepth ∧
      mapType {} "t" "c" (sums.fill summed) = .ok "Record<string, bigint | null>" ∧
      Validator.ofType {} (sums.fill summed) =
        .ok "z.record(z.string(), z.bigint().nullable())" ∧
      JsonSchema.ofType {} (sums.fill summed) =
        JsonSchema.ofType {} (sums.fill (.plain "UInt64")) := by
  have hwraps : summed.Wraps (.plain "UInt64") := .simpleAggregate rfl
  have hdepth : (sums.fill summed).DepthWithin maxTypeDepth := by decide +kernel
  have h := @outputs_of_wrapped {} rfl _ _ hwraps _ hdepth "t" "c" {}
  refine ⟨hwraps, hdepth, h.1.trans ?_, h.2.1.trans ?_, h.2.2⟩
  · decide +kernel
  · decide +kernel

end TypedTables
