import Mathlib

/-!
The ends of block comments in a text.
-/

namespace TypedTables.Text

/-- How often `*/` stands in a text. -/
def closings (cs : List Char) : Nat := cs.tails.countP (['*', '/'].isPrefixOf ·)

theorem closings_nil : closings [] = 0 := rfl

theorem closings_cons (c : Char) (cs : List Char) :
    closings (c :: cs) = closings cs + if c = '*' ∧ cs.head? = some '/' then 1 else 0 := by
  rw [closings, List.tails_cons, List.countP_cons, closings]
  have hfirst : ['*', '/'].isPrefixOf (c :: cs) = true ↔ c = '*' ∧ cs.head? = some '/' := by
    cases cs with
    | nil => simp [List.isPrefixOf]
    | cons d cs => simp [List.isPrefixOf, eq_comm (a := '*'), eq_comm (a := '/')]
  simp only [hfirst]

theorem closings_concat (cs : List Char) (c : Char) :
    closings (cs ++ [c]) = closings cs + if cs.getLast? = some '*' ∧ c = '/' then 1 else 0 := by
  induction cs with
  | nil => simp [closings_cons, closings_nil]
  | cons d cs ih =>
    rw [List.cons_append, closings_cons, ih, closings_cons]
    cases cs with
    | nil => simp [closings_nil]
    | cons e cs => simp [List.getLast?_cons_cons, Nat.add_right_comm]

/-- A character that belongs to no `*/` parts the text. -/
theorem closings_append_cons {c : Char} (hstar : c ≠ '*') (hslash : c ≠ '/') (xs ys : List Char) :
    closings (xs ++ c :: ys) = closings xs + closings ys := by
  induction xs with
  | nil => simp [closings_cons, closings_nil, hstar]
  | cons x xs ih =>
    have hhead : (xs ++ c :: ys).head? = some '/' ↔ xs.head? = some '/' := by
      cases xs with
      | nil => simp [hslash]
      | cons => rfl
    rw [List.cons_append, closings_cons, ih, closings_cons, Nat.add_right_comm]
    simp only [hhead]

end TypedTables.Text
