/-!
Runs of code points: every `stride`-th code point from `first` to `last`. A table of runs is sorted
and its runs do not overlap, so that a code point is looked up by halving.
-/

namespace TypedTables.Text

structure CodeRun where
  first : Nat
  last : Nat
  stride : Nat
  deriving DecidableEq, Repr

def CodeRun.contains (run : CodeRun) (code : Nat) : Bool :=
  run.first ≤ code && code ≤ run.last && (code - run.first) % run.stride == 0

/-- The entry of a sorted table whose run reaches over `code`. -/
def CodeRun.find? {α : Type} (run : α → CodeRun) (table : Array α) (code : Nat) : Option α :=
  go 0 table.size
where
  go (lo hi : Nat) : Option α :=
    if lo < hi then
      match table[(lo + hi) / 2]? with
      | none => none
      | some entry =>
        if code < (run entry).first then go lo ((lo + hi) / 2)
        else if (run entry).last < code then go ((lo + hi) / 2 + 1) hi
        else some entry
    else none
  termination_by hi - lo

def CodeRun.covers (table : Array CodeRun) (code : Nat) : Bool :=
  (CodeRun.find? id table code).any (·.contains code)

/-- A run of code points and the code point that its first one is mapped to; the others keep their
distance from it. -/
structure CaseRun where
  source : CodeRun
  target : Nat
  deriving DecidableEq, Repr

/-- The code point that a table maps `code` to; one that no run contains is mapped to itself. -/
def CaseRun.image (table : Array CaseRun) (code : Nat) : Nat :=
  match CodeRun.find? CaseRun.source table code with
  | some run => if run.source.contains code then run.target + (code - run.source.first) else code
  | none => code

end TypedTables.Text
