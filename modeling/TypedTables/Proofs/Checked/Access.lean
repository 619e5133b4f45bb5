import TypedTables.Proofs.Statement.Bytes

/-!
Checked access: what is done to texts, lists and counters, with a look first. A slice that does not
lie in the text or cuts a character, an index that is out of range, a counter that would leave its
bounds, and a loop that goes on longer than the text allows are trapped, and nothing after the trap
is done. Reading is put in these terms in the modules beside this one, and no text springs a trap.
-/

namespace TypedTables.Checked

open String (utf8Len)

/-- Why checked reading stops. -/
inductive Trap
  /-- A slice of a text that is not there or does not begin and end between characters. -/
  | slice
  /-- An element, or a part of a list, that is not there. -/
  | index
  /-- A number above the largest. -/
  | above
  /-- A number below the smallest. -/
  | below
  /-- A loop without end. -/
  | endless
  deriving DecidableEq, Repr

abbrev Access := Except Trap

theorem Access.bind_eq {α β : Type} {x : Access α} {a : α} (h : x = .ok a) (f : α → Access β) :
    x >>= f = f a := by
  rw [h]
  rfl

/-- The sum of two counters, the largest of which is `largest`. -/
def add (largest m n : Nat) : Access Nat := if m + n ≤ largest then .ok (m + n) else .error .above

/-- The difference of two counters. -/
def sub (m n : Nat) : Access Nat := if n ≤ m then .ok (m - n) else .error .below

/-- The negative of a signed number of 64 bits, the smallest of which has none. -/
def negate (n : Int) : Access Int :=
  if n.natAbs ≤ 9223372036854775807 then .ok (-n) else .error .above

/-- The text between two byte offsets, which have to lie between characters and in this order. -/
def textSlice (source : String) (first stop : Nat) : Access String :=
  if first ≤ stop && String.Pos.Raw.isValid source ⟨first⟩ &&
      String.Pos.Raw.isValid source ⟨stop⟩ then
    .ok (slice source first stop)
  else .error .slice

/-- The text from a byte offset on. -/
def textFrom (source : String) (first : Nat) : Access String :=
  textSlice source first source.utf8ByteSize

section Lists

variable {α : Type}

def element (xs : List α) (i : Nat) : Access α :=
  match xs[i]? with
  | some x => .ok x
  | none => .error .index

/-- The elements from `first` to before `stop`. -/
def part (xs : List α) (first stop : Nat) : Access (List α) :=
  if first ≤ stop && stop ≤ xs.length then .ok ((xs.drop first).take (stop - first))
  else .error .index

/-- The elements from `first` on. -/
def partFrom (xs : List α) (first : Nat) : Access (List α) := part xs first xs.length

variable {xs : List α}

theorem part_eq {first stop : Nat} (h : first ≤ stop) (hstop : stop ≤ xs.length) :
    part xs first stop = .ok ((xs.drop first).take (stop - first)) := by
  rw [part, decide_eq_true h, decide_eq_true hstop]
  rfl

theorem partFrom_eq {first : Nat} (h : first ≤ xs.length) :
    partFrom xs first = .ok (xs.drop first) := by
  rw [partFrom, part_eq h le_rfl, List.take_of_length_le (by simp)]

/-- A loop that may go on as long as there are elements has one more step for each of them. -/
theorem exists_fuel {x : α} {fuel : Nat} (h : (x :: xs).length < fuel + 1) :
    ∃ fuel', fuel = fuel' + 1 ∧ xs.length < fuel' + 1 := by
  rw [List.length_cons] at h
  exact ⟨fuel - 1, by omega, by omega⟩

end Lists

/-- Counters go through the text: no text takes more than half of the bytes that can be counted. -/
def Fits (largest : Nat) (source : String) : Prop := 2 * source.utf8ByteSize < largest

instance (largest : Nat) (source : String) : Decidable (Fits largest source) :=
  inferInstanceAs (Decidable (_ < _))

section Texts

variable {largest m n : Nat} {source : String} {front middle back : List Char}

theorem add_eq (h : m + n ≤ largest) : add largest m n = .ok (m + n) := if_pos h

theorem sub_eq (h : n ≤ m) : sub m n = .ok (m - n) := if_pos h

theorem isValid_utf8Len (h : source.toList = front ++ back) :
    String.Pos.Raw.isValid source ⟨utf8Len front⟩ = true := by
  refine String.Pos.Raw.isValid_eq_true_iff.2 (String.Pos.Raw.isValid_iff_exists_append.2 ?_)
  refine ⟨String.ofList front, String.ofList back, ?_, ?_⟩
  · rw [← String.ofList_append, ← h, String.ofList_toList]
  · rw [String.rawEndPos, ← String.utf8Len_toList, String.toList_ofList]

theorem textSlice_eq (h : source.toList = front ++ middle ++ back) :
    textSlice source (utf8Len front) (utf8Len front + utf8Len middle) =
      .ok (String.ofList middle) := by
  have hfirst : String.Pos.Raw.isValid source ⟨utf8Len front⟩ = true :=
    isValid_utf8Len (h.trans (List.append_assoc _ _ _))
  have hstop : String.Pos.Raw.isValid source ⟨utf8Len front + utf8Len middle⟩ = true := by
    rw [← String.utf8Len_append]
    exact isValid_utf8Len h
  have hslice : slice source (utf8Len front) (utf8Len front + utf8Len middle) =
      String.ofList middle := by
    rw [← String.ofList_toList (s := slice source _ _), Statement.toList_slice h]
  rw [textSlice, hfirst, hstop, decide_eq_true (Nat.le_add_right _ _), hslice]
  rfl

/-- There is no slice between the two bytes of a character. -/
example : textSlice "é" 1 2 = .error .slice := by decide +kernel

theorem textFrom_eq (h : source.toList = front ++ back) :
    textFrom source (utf8Len front) = .ok (String.ofList back) := by
  have hsize : source.utf8ByteSize = utf8Len front + utf8Len back := by
    rw [← String.utf8Len_toList, h, String.utf8Len_append]
  rw [textFrom, hsize]
  exact textSlice_eq (h.trans (List.append_nil _).symm)

end Texts

end TypedTables.Checked
