import TypedTables.Error
import TypedTables.TypeExpr.Shape

/-!
Folds over type trees. An output format says what it makes of each shape; `run` goes through the
tree, keeps to the ceilings, and asks `intercept` before it looks at a shape.
-/

namespace TypedTables

structure TypeFold (α : Type) where
  nullable : α → α
  array : α → α
  tuple : List α → α
  map : α → α
  enumeration : List String → α
  leaf : Leaf → α
  unknown : String → Except Error α
  /-- Answers for a node at a depth in place of the fold; the root of a tree has depth 1. -/
  intercept : TypeExpr → Nat → Option α := fun _ _ => none

namespace TypeFold

/-- `room` is how many levels are left, that of the node itself included. -/
def runWithin {α : Type} (fold : TypeFold α) : (room : Nat) → TypeExpr → Except Error α
  | 0, _ => .error .tooDeep
  | room + 1, ty =>
    match fold.intercept ty (maxTypeDepth - room) with
    | some result => .ok result
    | none =>
      match ty.shape with
      | .nullable inner => fold.nullable <$> fold.runWithin room inner
      | .transparent inner => fold.runWithin room inner
      | .array item => fold.array <$> fold.runWithin room item
      | .tuple items => do
        Ceiling.tupleArity.check items.length
        fold.tuple <$> items.mapM (fold.runWithin room)
      | .map value => fold.map <$> fold.runWithin room value
      | .enumeration keys => do
        Ceiling.enumMembers.check keys.length
        pure (fold.enumeration keys)
      | .leaf leaf => .ok (fold.leaf leaf)
      | .unknown name => fold.unknown name

def run {α : Type} (fold : TypeFold α) (ty : TypeExpr) : Except Error α :=
  fold.runWithin maxTypeDepth ty

end TypeFold

end TypedTables
