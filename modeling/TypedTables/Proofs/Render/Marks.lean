import TypedTables.Proofs.Render.Tokens

/-!
Code character by character, with the characters of its literals told from the others. Outside
literals blanks and a comma before a closing brace are a matter of layout, and so are line breaks:
what stands on the lines of an object is moved to the right of the line that opens it.
-/

namespace TypedTables

open CodeToken (opensLiteral)
open Text (isBlank)

/-- A character of code, and whether it stands outside literals. -/
structure Mark where
  char : Char
  outside : Bool
  deriving DecidableEq

/-- Where a character of code stands: outside literals, or inside one, with the quote that ends it
and whether the character is escaped. -/
inductive CodeSpot
  | outside
  | inside (quote : Char) (escaped : Bool)
  deriving DecidableEq

namespace CodeSpot

def next : CodeSpot → Char → CodeSpot
  | .outside, c => if opensLiteral c then .inside c false else .outside
  | .inside quote true, _ => .inside quote false
  | .inside quote false, c =>
    if c = '\\' then .inside quote true else if c = quote then .outside else .inside quote false

/-- Quotes belong to their literals. -/
def mark (spot : CodeSpot) (c : Char) : Mark := ⟨c, spot = .outside && !opensLiteral c⟩

def marks (spot : CodeSpot) : List Char → List Mark
  | [] => []
  | c :: cs => spot.mark c :: (spot.next c).marks cs

def after (spot : CodeSpot) (cs : List Char) : CodeSpot := cs.foldl next spot

end CodeSpot

def marks (code : List Char) : List Mark := CodeSpot.outside.marks code

namespace Mark

def lineFeed : Mark := ⟨'\n', true⟩

def blank : Mark := ⟨' ', true⟩

def comma : Mark := ⟨',', true⟩

def openBrace : Mark := ⟨'\x7b', true⟩

def closeBrace : Mark := ⟨'\x7d', true⟩

/-- Blanks outside literals. -/
def isGap (m : Mark) : Bool := m.outside && isBlank m.char

@[simp] theorem isGap_lineFeed : lineFeed.isGap = true := by decide +kernel

@[simp] theorem isGap_blank : blank.isGap = true := by decide +kernel

@[simp] theorem isGap_comma : comma.isGap = false := by decide +kernel

@[simp] theorem isGap_openBrace : openBrace.isGap = false := by decide +kernel

@[simp] theorem isGap_closeBrace : closeBrace.isGap = false := by decide +kernel

end Mark

/-- The characters of code without the blanks outside literals. -/
def solid (code : List Char) : List Mark := (marks code).filter (!·.isGap)

/-- Leaves out each comma directly before a closing brace. -/
def dropCommas : List Mark → List Mark
  | [] => []
  | m :: ms =>
    if m = .comma ∧ ms.head? = some .closeBrace then dropCommas ms else m :: dropCommas ms

/-- Code without the blanks outside literals, and then without the commas before closing braces. -/
def squeeze (code : String) : String :=
  String.ofList ((dropCommas (solid code.toList)).map Mark.char)

example : squeeze "z.object(\x7b\n  'a, \x7d': z.number(),\n\x7d)" =
    "z.object(\x7b'a, \x7d':z.number()\x7d)" := by decide +kernel

/-- A reader of the lines of code: the indents of the lines on which the braces around were opened,
innermost first, the indent of the line, and whether nothing but blanks has been read of it. -/
structure LineReader where
  opened : List Nat
  indent : Nat
  fresh : Bool
  deriving DecidableEq

namespace LineReader

/-- A closing brace has to stand on a line that is indented like the one on which the brace was
opened, and anything else that begins a line two columns further to the right. -/
def step? (r : LineReader) (m : Mark) : Option LineReader :=
  if m = .lineFeed then some { r with indent := 0, fresh := true }
  else if r.fresh && m = .blank then some { r with indent := r.indent + 1 }
  else if m = .closeBrace then
    match r.opened with
    | indent :: opened => if r.indent = indent then some ⟨opened, indent, false⟩ else none
    | [] => none
  else if r.fresh && r.opened.head?.map (· + 2) ≠ some r.indent then none
  else some ⟨if m = .openBrace then r.indent :: r.opened else r.opened, r.indent, false⟩

/-- What the reader comes to with some marks. -/
def Reads (r : LineReader) (ms : List Mark) (r' : LineReader) : Prop :=
  ms.foldlM step? r = some r'

instance (r r' : LineReader) (ms : List Mark) : Decidable (r.Reads ms r') :=
  inferInstanceAs (Decidable (_ = _))

end LineReader

/-- Each line but the first begins inside an object: with the brace that closes it, indented like
the line that opens it, or else two columns further to the right. -/
def LaidOut (code : String) : Prop :=
  (⟨[], 0, false⟩ : LineReader).Reads (marks code.toList) ⟨[], 0, false⟩

instance : DecidablePred LaidOut := fun _ => inferInstanceAs (Decidable (LineReader.Reads ..))

example : LaidOut "z.object(\x7b\n  a: z.object(\x7b\n    b: z.date(),\n  \x7d),\n\x7d)" ∧
    ¬LaidOut "z.object(\x7b\n  a: z.object(\x7b\n  b: z.date(),\n  \x7d),\n\x7d)" ∧
    ¬LaidOut "z.object(\x7b\n  a: z.object(\x7b\n    b: z.date(),\n\x7d),\n\x7d)" := by
  decide +kernel

section Marks

variable {spot : CodeSpot} {cs ds : List Char}

theorem CodeSpot.marks_append (spot : CodeSpot) (cs ds : List Char) :
    spot.marks (cs ++ ds) = spot.marks cs ++ (spot.after cs).marks ds := by
  induction cs generalizing spot with
  | nil => rfl
  | cons c cs ih => rw [List.cons_append, marks, ih, marks]; rfl

theorem CodeSpot.after_append (spot : CodeSpot) (cs ds : List Char) :
    spot.after (cs ++ ds) = (spot.after cs).after ds := List.foldl_append

theorem CodeSpot.map_char_marks (spot : CodeSpot) (cs : List Char) :
    (spot.marks cs).map Mark.char = cs := by
  induction cs generalizing spot with
  | nil => rfl
  | cons c cs ih => rw [marks, List.map_cons, ih, mark]

/-- No literal is left open. -/
def LiteralsClosed (cs : List Char) : Prop := CodeSpot.outside.after cs = .outside

instance : DecidablePred LiteralsClosed := fun _ => inferInstanceAs (Decidable (_ = _))

theorem LiteralsClosed.append (h : LiteralsClosed cs) (h' : LiteralsClosed ds) :
    LiteralsClosed (cs ++ ds) := by
  rw [LiteralsClosed, CodeSpot.after_append, h, h']

theorem LiteralsClosed.marks_append (h : LiteralsClosed cs) (ds : List Char) :
    marks (cs ++ ds) = marks cs ++ marks ds := by
  rw [marks, CodeSpot.marks_append, h]
  rfl

theorem LiteralsClosed.solid_append (h : LiteralsClosed cs) (ds : List Char) :
    solid (cs ++ ds) = solid cs ++ solid ds := by
  rw [solid, h.marks_append, List.filter_append]
  rfl

/-- Outside literals the marks of plain characters are their own. -/
theorem marks_of_plain (h : ∀ c ∈ cs, opensLiteral c = false) :
    marks cs = cs.map (⟨·, true⟩) ∧ LiteralsClosed cs := by
  induction cs with
  | nil => exact ⟨rfl, rfl⟩
  | cons c cs ih =>
    obtain ⟨hc, hcs⟩ := List.forall_mem_cons.1 h
    obtain ⟨hmarks, hclosed⟩ := ih hcs
    have hnext : CodeSpot.outside.next c = .outside := by simp [CodeSpot.next, hc]
    constructor
    · rw [marks, CodeSpot.marks, hnext, ← marks, hmarks, List.map_cons]
      simp [CodeSpot.mark, hc]
    · rw [LiteralsClosed, CodeSpot.after, List.foldl_cons, hnext]
      exact hclosed

theorem marks_literalContent (value : String) :
    (CodeSpot.inside '\x27' false).marks (literalContent value) =
        (literalContent value).map (⟨·, false⟩) ∧
      (CodeSpot.inside '\x27' false).after (literalContent value) = .inside '\x27' false := by
  unfold literalContent
  induction value.toList with
  | nil => exact ⟨rfl, rfl⟩
  | cons c cs ih =>
    have hescape : (CodeSpot.inside '\x27' false).marks (quoted.escape c) =
          (quoted.escape c).map (⟨·, false⟩) ∧
        (CodeSpot.inside '\x27' false).after (quoted.escape c) = .inside '\x27' false := by
      unfold quoted.escape
      split
      · exact ⟨rfl, rfl⟩
      · exact ⟨rfl, rfl⟩
      · next hslash hquote =>
        refine ⟨rfl, ?_⟩
        have hc : c ≠ '\\' ∧ c ≠ '\x27' := ⟨fun h => hslash h, fun h => hquote h⟩
        simp [CodeSpot.after, CodeSpot.next, hc]
    rw [List.flatMap_cons, CodeSpot.marks_append, CodeSpot.after_append, hescape.1, hescape.2,
      ih.1, ih.2, List.map_append]
    exact ⟨rfl, rfl⟩

/-- All of a written value stands in its literal, the quotes as well. -/
theorem marks_quoted (value : String) :
    marks (quoted value).toList = (quoted value).toList.map (⟨·, false⟩) ∧
      LiteralsClosed (quoted value).toList := by
  have hquoted : (quoted value).toList = '\x27' :: (literalContent value ++ ['\x27']) := by
    rw [quoted, String.toList_ofList]
    rfl
  obtain ⟨hmarks, hafter⟩ := marks_literalContent value
  have hopened : CodeSpot.outside.next '\x27' = .inside '\x27' false := rfl
  rw [hquoted]
  constructor
  · rw [marks, CodeSpot.marks, hopened, CodeSpot.marks_append, hmarks, hafter, List.map_cons,
      List.map_append]
    rfl
  · rw [LiteralsClosed, CodeSpot.after, List.foldl_cons, hopened, ← CodeSpot.after,
      CodeSpot.after_append, hafter]
    rfl

end Marks

section Commas

variable {ms rest : List Mark}

theorem dropCommas_comma (h : rest.head? ≠ some .closeBrace) :
    dropCommas (.comma :: rest) = .comma :: dropCommas rest :=
  if_neg fun ⟨_, hrest⟩ => h hrest

/-- What stands behind marks makes no difference to them, nor they to it, unless their last comma
stands before a closing brace. -/
theorem dropCommas_append (h : ms.getLast? = some .comma → rest.head? ≠ some .closeBrace) :
    dropCommas (ms ++ rest) = dropCommas ms ++ dropCommas rest := by
  induction ms with
  | nil => rfl
  | cons m ms ih =>
    cases ms with
    | nil =>
      by_cases hm : m = .comma
      · subst hm
        exact dropCommas_comma (h rfl)
      · rw [List.singleton_append, dropCommas, if_neg fun h => hm h.1, dropCommas,
          if_neg fun h => hm h.1]
        rfl
    | cons n ms =>
      have ih := ih h
      rw [List.cons_append] at ih ⊢
      by_cases hdrop : m = .comma ∧ n = .closeBrace
      · have hcut (ns : List Mark) : dropCommas (m :: n :: ns) = dropCommas (n :: ns) :=
          if_pos ⟨hdrop.1, congrArg some hdrop.2⟩
        rw [List.cons_append, hcut, hcut, ih]
      · have hkeep (ns : List Mark) : dropCommas (m :: n :: ns) = m :: dropCommas (n :: ns) :=
          if_neg fun h => hdrop ⟨h.1, Option.some.inj h.2⟩
        rw [List.cons_append, hkeep, hkeep, ih]
        rfl

end Commas

section Indent

open Layout

variable {m : Mark} {ms : List Mark} {k : Nat}

/-- Marks with every line but the first moved `k` columns to the right. -/
def indentMarks (k : Nat) (ms : List Mark) : List Mark :=
  ms.flatMap fun m => if m = .lineFeed then m :: List.replicate k .blank else [m]

theorem indentMarks_append (k : Nat) (ms ns : List Mark) :
    indentMarks k (ms ++ ns) = indentMarks k ms ++ indentMarks k ns := List.flatMap_append

theorem mem_indentMarks (h : m ∈ indentMarks k ms) : m ∈ ms ∨ m = .blank := by
  obtain ⟨n, hn, hm⟩ := List.mem_flatMap.1 h
  split_ifs at hm
  · obtain rfl | hm := List.mem_cons.1 hm
    · exact .inl hn
    · exact .inr (List.eq_of_mem_replicate hm)
  · exact .inl (List.mem_singleton.1 hm ▸ hn)

theorem indentMarks_cons (hm : m ≠ .lineFeed) (k : Nat) (ms : List Mark) :
    indentMarks k (m :: ms) = m :: indentMarks k ms := by
  rw [indentMarks, List.flatMap_cons, if_neg hm]
  rfl

theorem indentMarks_zero (ms : List Mark) : indentMarks 0 ms = ms := by
  simp [indentMarks]

theorem filter_indentMarks (k : Nat) (ms : List Mark) :
    (indentMarks k ms).filter (!·.isGap) = ms.filter (!·.isGap) := by
  induction ms with
  | nil => rfl
  | cons m ms ih =>
    by_cases hm : m = .lineFeed
    · rw [indentMarks, List.flatMap_cons, if_pos hm, ← indentMarks, List.filter_append, ih]
      simp [hm]
    · rw [indentMarks_cons hm, List.filter_cons, List.filter_cons, ih]

theorem indentMarks_of_not_mem (k : Nat) (h : .lineFeed ∉ ms) : indentMarks k ms = ms := by
  induction ms with
  | nil => rfl
  | cons m ms ih =>
    obtain ⟨hm, hms⟩ := not_or.1 (mt List.mem_cons.2 h)
    rw [indentMarks_cons (Ne.symm hm), ih hms]

theorem indentMarks_indentMarks (k n : Nat) (ms : List Mark) :
    indentMarks k (indentMarks n ms) = indentMarks (k + n) ms := by
  induction ms with
  | nil => rfl
  | cons m ms ih =>
    by_cases hm : m = .lineFeed
    · have hfeed (k : Nat) (ms : List Mark) : indentMarks k (.lineFeed :: ms) =
          .lineFeed :: (List.replicate k .blank ++ indentMarks k ms) := rfl
      have hblanks : indentMarks k (List.replicate n .blank) = List.replicate n .blank :=
        indentMarks_of_not_mem k fun h => absurd (List.eq_of_mem_replicate h) (by decide)
      rw [hm, hfeed, hfeed, hfeed, indentMarks_append, hblanks, ih, ← List.append_assoc,
        List.replicate_append_replicate]
    · rw [indentMarks_cons hm, indentMarks_cons hm, indentMarks_cons hm, ih]

/-- Moving the lines of code moves those of its marks, unless a literal goes on over a line. -/
theorem CodeSpot.marks_indentChars (spot : CodeSpot) {cs : List Char}
    (h : ⟨'\n', false⟩ ∉ spot.marks cs) :
    spot.marks (indentChars cs) = indentMarks 2 (spot.marks cs) ∧
      spot.after (indentChars cs) = spot.after cs := by
  induction cs generalizing spot with
  | nil => exact ⟨rfl, rfl⟩
  | cons c cs ih =>
    obtain ⟨hc, hcs⟩ := not_or.1 (mt List.mem_cons.2 h)
    obtain ⟨hmarks, hafter⟩ := ih (spot.next c) hcs
    have hchars : indentChars (c :: cs) = indentChars [c] ++ indentChars cs :=
      indentChars_append [c] cs
    have hindent : indentMarks 2 (spot.marks (c :: cs)) =
        indentMarks 2 [spot.mark c] ++ indentMarks 2 ((spot.next c).marks cs) :=
      indentMarks_append 2 [spot.mark c] _
    have hstep : spot.marks (indentChars [c]) = indentMarks 2 [spot.mark c] ∧
        spot.after (indentChars [c]) = spot.next c := by
      by_cases hfeed : c = '\n'
      · subst hfeed
        cases spot with
        | outside => decide
        | inside quote escaped => exact absurd rfl hc
      · have hmark : spot.mark c ≠ .lineFeed := fun h => hfeed (congrArg Mark.char h)
        have hplain : indentChars [c] = [c] :=
          indentChars_of_not_mem (by simpa using Ne.symm hfeed)
        have hsame : indentMarks 2 [spot.mark c] = [spot.mark c] :=
          indentMarks_of_not_mem 2 (by simpa using hmark.symm)
        rw [hplain, hsame]
        exact ⟨rfl, rfl⟩
    rw [hchars, marks_append, after_append, hstep.1, hstep.2, hindent, hmarks, hafter]
    exact ⟨rfl, rfl⟩

end Indent

namespace LineReader

variable {r r' r'' : LineReader} {ms ns : List Mark} {m : Mark} {opened : List Nat} {k : Nat}

theorem Reads.append (h : r.Reads ms r') (h' : r'.Reads ns r'') : r.Reads (ms ++ ns) r'' := by
  rw [Reads, List.foldlM_append, h]
  exact h'

theorem Reads.cons (h : r.step? m = some r') (h' : r'.Reads ms r'') : r.Reads (m :: ms) r'' := by
  rw [Reads, List.foldlM_cons, h]
  exact h'

/-- Marks that no line begins or ends with, and that are not braces. -/
theorem reads_calm (h : ∀ m ∈ ms, m ∉ [.lineFeed, .openBrace, .closeBrace]) :
    (⟨opened, k, false⟩ : LineReader).Reads ms ⟨opened, k, false⟩ := by
  induction ms with
  | nil => rfl
  | cons m ms ih =>
    obtain ⟨hm, hms⟩ := List.forall_mem_cons.1 h
    simp only [List.mem_cons, List.not_mem_nil, or_false, not_or] at hm
    refine .cons ?_ (ih hms)
    simp [step?, hm]

theorem reads_blanks (n : Nat) :
    (⟨opened, k, true⟩ : LineReader).Reads (List.replicate n .blank) ⟨opened, k + n, true⟩ := by
  induction n generalizing k with
  | zero => rfl
  | succ n ih =>
    have hmore := ih (k := k + 1)
    rw [Nat.add_assoc, Nat.add_comm 1 n] at hmore
    exact .cons rfl hmore

/-- A line feed, and the blanks that its line is indented with. -/
theorem reads_lineFeed {fresh : Bool} (n : Nat) :
    (⟨opened, k, fresh⟩ : LineReader).Reads (.lineFeed :: List.replicate n .blank)
      ⟨opened, n, true⟩ := by
  have hfeed : (⟨opened, k, fresh⟩ : LineReader).step? .lineFeed = some ⟨opened, 0, true⟩ := rfl
  have hblanks : (⟨opened, 0, true⟩ : LineReader).Reads (List.replicate n .blank)
    ⟨opened, 0 + n, true⟩ := reads_blanks n
  rw [Nat.zero_add] at hblanks
  exact .cons hfeed hblanks

/-- A line of an object begins two columns to the right of the line that opens it. -/
theorem Reads.fresh (hm : m ∉ [.lineFeed, .blank, .closeBrace])
    (h : (⟨k :: opened, k + 2, false⟩ : LineReader).Reads (m :: ms) r) :
    (⟨k :: opened, k + 2, true⟩ : LineReader).Reads (m :: ms) r := by
  simp only [List.mem_cons, List.not_mem_nil, or_false, not_or] at hm
  have hstep : (⟨k :: opened, k + 2, true⟩ : LineReader).step? m =
      (⟨k :: opened, k + 2, false⟩ : LineReader).step? m := by simp [step?, hm]
  rw [Reads, List.foldlM_cons] at h ⊢
  rwa [hstep]

end LineReader

end TypedTables
