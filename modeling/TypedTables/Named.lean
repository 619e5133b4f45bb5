import TypedTables.Index
import TypedTables.Text.AsciiCase

/-!
Looking up elements of a list by name. `findNamed?` says which element is meant; `Named` finds the
same one through indexes, by `find?_eq`.
-/

namespace TypedTables

variable {α : Type}

/-- The first element with the given name; if none has exactly that name, the first whose name
differs in ASCII letter case only. -/
def findNamed? (nameOf : α → String) (name : String) (xs : List α) : Option α :=
  (xs.find? fun x => nameOf x == name).or (xs.find? fun x => Text.sameIgnoringCase (nameOf x) name)

/-- A list whose elements are looked up by name. An index is made when it is first asked for. -/
structure Named (nameOf : α → String) (xs : List α) where
  exact : Thunk (Index α)
  folded : Thunk (Index α)
  exact_get : exact.get = .ofList nameOf xs := by rfl
  folded_get : folded.get = .ofList (fun x => Text.lower (nameOf x)) xs := by rfl

namespace Named

variable {nameOf : α → String} {xs : List α}

def of (nameOf : α → String) (xs : List α) : Named nameOf xs where
  exact := .mk fun _ => .ofList nameOf xs
  folded := .mk fun _ => .ofList (fun x => Text.lower (nameOf x)) xs

def find? (named : Named nameOf xs) (name : String) : Option α :=
  (named.exact.get.get? name).or (named.folded.get.get? (Text.lower name))

@[simp] theorem find?_eq (named : Named nameOf xs) (name : String) :
    named.find? name = findNamed? nameOf name xs := by
  simp only [find?, findNamed?, named.exact_get, named.folded_get, Index.get?_ofList,
    Text.sameIgnoringCase]

end Named

end TypedTables
