/-!
Places in a text. Offsets and lengths count UTF-8 bytes, lines and columns count from 1.
-/

namespace TypedTables

structure Location where
  offset : Nat
  line : Nat
  column : Nat
  deriving DecidableEq, Repr

structure Span where
  offset : Nat
  length : Nat
  line : Nat
  column : Nat
  deriving DecidableEq, Repr

def Span.stop (span : Span) : Nat := span.offset + span.length

def Location.start : Location := ⟨0, 1, 1⟩

/-- The place after one more character, which takes `width` columns unless it ends the line. -/
def Location.step (width : Char → Nat) (here : Location) (c : Char) : Location :=
  if c = '\n' then ⟨here.offset + c.utf8Size, here.line + 1, 1⟩
  else ⟨here.offset + c.utf8Size, here.line, here.column + width c⟩

def Location.after (width : Char → Nat) (here : Location) (cs : List Char) : Location :=
  cs.foldl (Location.step width) here

/-- Every character takes one column. -/
def Location.advance : Location → List Char → Location := Location.after fun _ => 1

/-- Every byte takes one column. -/
def Location.advanceBytes : Location → List Char → Location := Location.after Char.utf8Size

def Location.spanTo (first last : Location) : Span :=
  ⟨first.offset, last.offset - first.offset, first.line, first.column⟩

/-- The text between two byte offsets. -/
def slice (source : String) (first stop : Nat) : String :=
  String.Pos.Raw.extract source ⟨first⟩ ⟨stop⟩

end TypedTables
