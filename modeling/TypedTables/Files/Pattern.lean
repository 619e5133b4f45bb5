/-!
Patterns of file names: `?` stands for one character, `*` for any number of them, and brackets for
one character of a set. A component `**` stands for directories at any depth.
-/

namespace TypedTables

/-- Characters from a first to a last one. -/
abbrev CharRange := Char × Char

def CharRange.has (range : CharRange) (c : Char) : Bool := range.1 ≤ c && c ≤ range.2

namespace Pattern

inductive Piece
  | just (c : Char)
  | one
  | many
  | deep
  | within (ranges : List CharRange)
  | outside (ranges : List CharRange)
  deriving DecidableEq

/-- The one character that a piece stands for. -/
def Piece.char? : Piece → Option Char
  | .just c => some c
  | _ => none

inductive Fault
  | stars
  | deepComponent
  | brackets
  deriving DecidableEq, Repr

/-- What is wrong with a pattern, and where: positions count characters from 0. -/
structure Error where
  position : Nat
  fault : Fault
  deriving DecidableEq, Repr

def Fault.text : Fault → String
  | .stars => "wildcards are either regular `*` or recursive `**`"
  | .deepComponent => "recursive wildcards must form a single path component"
  | .brackets => "invalid range pattern"

def Error.message (e : Error) : String :=
  "Pattern syntax error near position " ++ toString e.position ++ ": " ++ e.fault.text

/-- The set that stands between brackets. -/
def rangesOf : List Char → List CharRange
  | first :: '-' :: last :: rest => (first, last) :: rangesOf rest
  | c :: rest => (c, c) :: rangesOf rest
  | [] => []

/-- What stands between brackets, and the rest. A bracket that comes first belongs to the set. -/
def bracketed? : List Char → Option (List Char × List Char)
  | [] => none
  | c :: rest =>
    match rest.dropWhile (· != ']') with
    | [] => none
    | _ :: after => some (c :: rest.takeWhile (· != ']'), after)

/-- The piece behind an opening bracket, and the rest. -/
def set? : List Char → Option (Piece × List Char)
  | '!' :: cs => (bracketed? cs).map fun (inner, rest) => (.outside (rangesOf inner), rest)
  | cs => (bracketed? cs).map fun (inner, rest) => (.within (rangesOf inner), rest)

theorem length_bracketed? {cs inner rest : List Char} (h : bracketed? cs = some (inner, rest)) :
    rest.length < cs.length := by
  cases cs with
  | nil => simp [bracketed?] at h
  | cons c cs =>
    have := (List.dropWhile_suffix (l := cs) (· != ']')).length_le
    simp only [bracketed?] at h
    split at h
    · simp at h
    · next heq => simp_all; omega

theorem length_set? {cs rest : List Char} {piece : Piece} (h : set? cs = some (piece, rest)) :
    rest.length < cs.length := by
  unfold set? at h
  split at h <;> simp only [Option.map_eq_some_iff, Prod.mk.injEq] at h <;>
    obtain ⟨⟨inner, rest'⟩, h, -, rfl⟩ := h <;> have := length_bracketed? h <;>
    simp only [List.length_cons] <;> omega

end Pattern

abbrev Pattern := List Pattern.Piece

namespace Pattern

/-- Reads the pattern that stands at a position, behind the character `before`. -/
def read (position : Nat) (before : Option Char) (cs : List Char) : Except Error Pattern :=
  match cs with
  | [] => .ok []
  | '?' :: rest => return .one :: (← read (position + 1) '?' rest)
  | '*' :: '*' :: '*' :: _ => .error ⟨position + 2, .stars⟩
  | '*' :: '*' :: rest =>
    if before.any (· != '/') then .error ⟨position - 1, .deepComponent⟩
    else
      match rest with
      | [] => .ok [.deep]
      | '/' :: rest => return .deep :: (← read (position + 3) '/' rest)
      | _ :: _ => .error ⟨position + 2, .deepComponent⟩
  | '*' :: rest => return .many :: (← read (position + 1) '*' rest)
  | '[' :: rest =>
    match h : set? rest with
    | none => .error ⟨position, .brackets⟩
    | some (piece, after) =>
      have := length_set? h
      return piece :: (← read (position + 1 + (rest.length - after.length)) ']' after)
  | c :: rest => return .just c :: (← read (position + 1) c rest)
  termination_by cs.length

def ofText (text : String) : Except Error Pattern := read 0 none text.toList

/-- Whether a text is meant as a pattern. -/
def isMeant (text : String) : Bool := text.toList.any fun c => c == '*' || c == '?' || c == '['

/-- Whether a character can be what a piece stands for, or a part of it. -/
def Piece.admits : Piece → Char → Bool
  | .just c, d => c == d
  | .one, _ | .many, _ | .deep, _ => true
  | .within ranges, c => ranges.any (·.has c)
  | .outside ranges, c => !ranges.any (·.has c)

/-- Whether a piece stands for any number of characters. -/
def Piece.isOpen : Piece → Bool
  | .many | .deep => true
  | _ => false

/-- For each place of a list whether something holds there or at a later place. -/
def holdsBehind (marks : List Bool) : List Bool :=
  marks.foldr (fun mark later => (mark || later.headD false) :: later) []

/-- Which ends of a name fit the pattern, from the whole name to the empty end. -/
def fittingEnds : Pattern → List Char → List Bool
  | [], cs => cs.map (fun _ => false) ++ [true]
  | piece :: rest, cs =>
    let ends := fittingEnds rest cs
    if piece.isOpen then holdsBehind ends
    else cs.zipWith (fun c fits => piece.admits c && fits) ends.tail ++ [false]

/-- Whether a whole name fits the pattern. -/
def fits (pattern : Pattern) (name : List Char) : Bool := (fittingEnds pattern name).headD false

/-- The name of a pattern that stands for one name only. -/
def name? (pattern : Pattern) : Option String :=
  (pattern.mapM Piece.char?).map String.ofList

def isDeep (pattern : Pattern) : Bool := pattern == [.deep]

end Pattern

end TypedTables
