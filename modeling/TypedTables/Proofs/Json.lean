import Mathlib
import TypedTables.Json

/-!
Objects with distinct keys, and what stands under a key or at an index of a value.
-/

namespace TypedTables.Json

theorem setField_of_not_mem {key : String} {value : Json} {fields : List (String × Json)}
    (h : key ∉ fields.map Prod.fst) : setField key value fields = fields ++ [(key, value)] := by
  induction fields with
  | nil => rfl
  | cons field fields ih =>
    obtain ⟨hkey, hrest⟩ := not_or.1 (mt List.mem_cons.2 h)
    rw [setField, if_neg (Ne.symm hkey), ih hrest]
    rfl

/-- Fields with distinct keys are the fields of the object. -/
theorem ofFields_of_nodup {fields : List (String × Json)} (h : (fields.map Prod.fst).Nodup) :
    ofFields fields = .obj fields := by
  suffices hfold : ∀ done : List (String × Json), ((done ++ fields).map Prod.fst).Nodup →
      fields.foldl (fun fields field => setField field.1 field.2 fields) done = done ++ fields from
    congrArg Json.obj (hfold [] h)
  clear h
  induction fields with
  | nil => exact fun done _ => (List.append_nil done).symm
  | cons field fields ih =>
    obtain ⟨key, value⟩ := field
    intro done hdone
    have hfresh : key ∉ done.map Prod.fst := by
      rw [List.map_append, List.map_cons] at hdone
      have hdisjoint := (List.nodup_append.1 hdone).2.2
      exact fun hmem => hdisjoint key hmem key List.mem_cons_self rfl
    rw [List.append_cons] at hdone ⊢
    have hset : setField key value done = done ++ [(key, value)] := setField_of_not_mem hfresh
    dsimp only [List.foldl_cons]
    rw [hset]
    exact ih _ hdone

def field? (json : Json) (key : String) : Option Json :=
  match json with
  | .obj fields => fields.lookup key
  | _ => none

def item? (json : Json) (i : Nat) : Option Json :=
  match json with
  | .arr items => items[i]?
  | _ => none

end TypedTables.Json
