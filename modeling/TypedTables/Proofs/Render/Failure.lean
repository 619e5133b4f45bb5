import TypedTables.Proofs.TypeExpr.Within
import TypedTables.Render.Interface
import TypedTables.Render.JsonSchema

/-!
Renderers fail together. Folds that answer for unknown types fail alike on every type, whatever they
make of it, and all renderers visit the types of all columns in the same order.
-/

namespace TypedTables

theorem TypeFold.failAlike_runWithin {α β : Type} {fold : TypeFold α} {fold' : TypeFold β}
    (hp : fold.Plain) (hp' : fold'.Plain) (ht : fold.Total) (ht' : fold'.Total) (room : Nat)
    (ty : TypeExpr) : FailAlike (fold.runWithin room ty) (fold'.runWithin room ty) := by
  induction room generalizing ty with
  | zero => exact .error Error.tooDeep
  | succ room ih =>
    simp only [runWithin, hp ty, hp' ty]
    cases ty.shape with
    | nullable inner | array inner | map inner => exact (ih inner).map _ _
    | transparent inner => exact ih inner
    | tuple items =>
      exact (FailAlike.refl _).bind fun _ _ => (FailAlike.mapM ih items).map _ _
    | enumeration keys => exact (FailAlike.refl _).bind fun _ _ => .ok _ _
    | leaf leaf => exact .ok _ _
    | unknown name => exact .of_exists (ht name) (ht' name)

section Tables

open Interface (Usage)

variable {α : Type} {fold : TypeFold α} (table : MappedTable) (tables : List MappedTable)

theorem Interface.Usage.failAlike_run (hp : fold.Plain) (ht : fold.Total) (ty : TypeExpr) :
    FailAlike (fold.run ty) (Usage.fold.run ty) :=
  TypeFold.failAlike_runWithin hp (fun _ _ => rfl) ht (fun _ => ⟨_, rfl⟩) maxTypeDepth ty

theorem Validator.failAlike_ofTable : FailAlike (ofTable table) (Usage.ofTable table) := by
  refine FailAlike.bind (.mapM (fun column => ?_) table.columns) fun _ _ => .ok _ _
  have h : FailAlike (ofType table.representation column.type) (Usage.fold.run column.type) :=
    Usage.failAlike_run (fun _ _ => rfl) (fun _ => ⟨_, rfl⟩) column.type
  exact h.bind fun _ _ => .ok _ _

theorem JsonSchema.failAlike_ofTable : FailAlike (ofTable table) (Usage.ofTable table) := by
  refine FailAlike.bind (.mapM (fun column => ?_) table.columns) fun _ _ => .ok _ _
  have h : FailAlike (ofType table.representation column.type) (Usage.fold.run column.type) :=
    Usage.failAlike_run (fun _ _ => rfl) (fun _ => ⟨_, rfl⟩) column.type
  have hcolumn : FailAlike (ofColumn table.representation column) (Usage.fold.run column.type) :=
    h.bind_left fun _ => ⟨_, rfl⟩
  exact hcolumn.bind fun _ _ => .ok _ _

theorem Interface.failAlike_declaration :
    FailAlike (declaration true table) (Usage.ofTable table) := by
  have h : FailAlike (validator table <$> Validator.ofTable table) (Usage.ofTable table) := by
    simpa using (Validator.failAlike_ofTable table).map (validator table) id
  exact h.bind_left fun _ => ⟨_, rfl⟩

/-- What every renderer may fail with: the tables are checked, then the types of their columns. -/
def walkTables : Except Error Usage := do
  validateTables tables
  Usage.ofTables tables

theorem Interface.failAlike_walkTables (validators : Bool) :
    FailAlike (render validators tables) (walkTables tables) := by
  refine (FailAlike.refl (validateTables tables)).bind fun _ _ => ?_
  cases validators with
  | false =>
    refine (FailAlike.refl (Usage.ofTables tables)).bind_left fun usage => ?_
    exact exists_bind (exists_mapM_iff.2 fun _ _ => ⟨_, rfl⟩) fun _ => ⟨_, rfl⟩
  | true =>
    refine FailAlike.bind_self fun usage => ?_
    exact (FailAlike.mapM failAlike_declaration tables).bind fun _ _ => .ok _ _

theorem JsonSchema.failAlike_walkTables : FailAlike (render tables) (walkTables tables) := by
  have h : FailAlike (documents tables) (walkTables tables) := by
    refine (FailAlike.refl (validateTables tables)).bind fun _ _ => ?_
    have htables : FailAlike (tables.mapM Usage.ofTable) (tables.mapM fun table => do
        return (table.declaredName, ← ofTable table)) :=
      .mapM (fun table => ((failAlike_ofTable table).bind_left fun _ => ⟨_, rfl⟩).symm) tables
    exact (htables.bind_left fun _ => ⟨_, rfl⟩).symm
  exact h.bind_left fun _ => ⟨_, rfl⟩

theorem failAlike_render (validators : Bool) :
    FailAlike (Interface.render validators tables) (JsonSchema.render tables) :=
  (Interface.failAlike_walkTables tables validators).trans
    (JsonSchema.failAlike_walkTables tables).symm

end Tables

end TypedTables
