/-!
Values by name, in a search tree. Its order is that of numbers computed from the names, so that the
tree stays low also if names come in their own order. What is inserted last under a name is found,
by `get?_insert`.
-/

namespace TypedTables

inductive Index (α : Type)
  | empty
  /-- Names with smaller codes stand before, all others behind. -/
  | node (before : Index α) (code : Nat) (name : String) (value : α) (behind : Index α)

namespace Index

variable {α β : Type}

/-- A number below 2³¹ for a name. Names that are alike have codes far apart. -/
def codeOf (name : String) : Nat :=
  name.toList.foldl (fun code c => (code + c.toNat + 1) * 1103515245 % 2147483647) 0

def getAt? (code : Nat) (name : String) : Index α → Option α
  | empty => none
  | node before c n value behind =>
    if code < c then before.getAt? code name
    else if c = code && n == name then some value
    else behind.getAt? code name

def insertAt (code : Nat) (name : String) (value : α) : Index α → Index α
  | empty => node empty code name value empty
  | node before c n v behind =>
    if code < c then node (before.insertAt code name value) c n v behind
    else if c = code && n == name then node before c n value behind
    else node before c n v (behind.insertAt code name value)

def get? (index : Index α) (name : String) : Option α := index.getAt? (codeOf name) name

/-- Puts a value under a name, in the place of the one that is there. -/
def insert (index : Index α) (name : String) (value : α) : Index α :=
  index.insertAt (codeOf name) name value

@[simp] theorem get?_empty (name : String) : (empty : Index α).get? name = none := rfl

theorem getAt?_insertAt_self (code : Nat) (name : String) (value : α) (index : Index α) :
    (index.insertAt code name value).getAt? code name = some value := by
  induction index with
  | empty => simp [insertAt, getAt?]
  | node before c n v behind ihb ihe => grind [insertAt, getAt?]

theorem getAt?_insertAt_of_ne {code c : Nat} {name other : String} (h : other ≠ name) (value : α)
    (index : Index α) :
    (index.insertAt c name value).getAt? code other = index.getAt? code other := by
  induction index with
  | empty => grind [insertAt, getAt?]
  | node before c n v behind ihb ihe => grind [insertAt, getAt?]

theorem get?_insert (index : Index α) (name other : String) (value : α) :
    (index.insert name value).get? other = if other = name then some value else index.get? other := by
  split
  · next h => rw [h]; exact getAt?_insertAt_self ..
  · next h => exact getAt?_insertAt_of_ne h ..

/-- The elements of a list by their names; of those with one name, the first. -/
def ofList (nameOf : α → String) (xs : List α) : Index α :=
  xs.foldr (fun x index => index.insert (nameOf x) x) empty

theorem get?_ofList (nameOf : α → String) (xs : List α) (name : String) :
    (ofList nameOf xs).get? name = xs.find? fun x => nameOf x == name := by
  induction xs with
  | nil => rfl
  | cons x xs ih =>
    change ((ofList nameOf xs).insert (nameOf x) x).get? name = _
    rw [get?_insert, List.find?_cons, ih]
    by_cases h : name = nameOf x
    · simp [h]
    · simp [h, beq_eq_false_iff_ne.2 (Ne.symm h)]

end Index

end TypedTables
