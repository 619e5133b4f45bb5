import TypedTables.Proofs.Render.Literals
import TypedTables.Proofs.Render.Marks
import TypedTables.Proofs.Render.Skeleton

/-!
The layout of validators. Apart from blanks and commas before closing braces a validator is what it
would be on one line, and each of its objects that takes more than one line is closed on a line that
is indented like the one that opens it, with its fields two columns further to the right.
-/

namespace TypedTables

open CodeToken (opensLiteral)
open Layout (indentChars)
open Text (isBlank)

/-- An object on one line. -/
def Validator.lineObject (fields : List (String × String)) : String :=
  match fields with
  | [] => "z.object(\x7b\x7d)"
  | fields => inlineObject (fields.map fun (key, expr) => propertyKey key ++ ": " ++ expr)

/-- The validator on one line. -/
def Skeleton.line (options : MappingOptions) : Skeleton → String
  | .nullable inner => inner.line options ++ ".nullable()"
  | .array item => "z.array(" ++ item.line options ++ ")"
  | .tuple items => Validator.lineObject
      ((items.map (line options)).zipIdx.map fun (item, i) => (TsType.fieldName i, item))
  | .map value => "z.record(z.string(), " ++ value.line options ++ ")"
  | .enumeration keys => "z.enum([" ++ ", ".intercalate (keys.map quoted) ++ "])"
  | .leaf kind => Validator.leaf options kind
  | .unknown => "z.unknown()"

def Validator.lineOfColumn (options : MappingOptions) (column : ResolvedColumn) :
    Except Error (String × String) := do
  return (column.name, (← Skeleton.ofType column.type).line options)

def Validator.lineOfTable (table : MappedTable) : Except Error String :=
  lineObject <$> table.columns.mapM (lineOfColumn table.representation)

/-- The names of the columns and the keys of their enumerations have no line feeds. -/
structure MappedTable.WithoutLineFeeds (table : MappedTable) : Prop where
  names : ∀ column ∈ table.columns, '\n' ∉ column.name.toList
  keys : ∀ column ∈ table.columns, ∀ s, Skeleton.ofType column.type = .ok s → s.breaks = 0

/-- Outside literals the mark is no part of the layout, and inside literals no line feed. -/
def Mark.isCalm (m : Mark) : Bool := m ∉ [lineFeed, comma, openBrace, closeBrace, ⟨'\n', false⟩]

/-- Code that stands by itself: it begins with neither a blank nor a closing brace, and a comma at
its end is not left out before what follows. -/
structure Standing (cs : List Char) : Prop where
  closed : LiteralsClosed cs
  first : ∃ c ∈ cs.head?, isBlank c = false ∧ c ≠ '\x7d'
  last : (solid cs).getLast? ≠ some .comma

/-- The code `cs` lays out the code `ds`, which is on one line: they are squeezed to the same, and
`cs` may stand in a line with any indent, within any braces. -/
structure LaysOut (cs ds : List Char) : Prop where
  standing : Standing cs
  standing_line : Standing ds
  oneLine : '\n' ∉ ds
  squeezed : dropCommas (solid cs) = dropCommas (solid ds)
  flat : ⟨'\n', false⟩ ∉ marks cs
  steady : ∀ opened k, (⟨opened, k, false⟩ : LineReader).Reads (indentMarks k (marks cs))
    ⟨opened, k, false⟩

namespace Standing

variable {cs ds : List Char}

theorem solid_eq_cons (h : Standing cs) : ∃ m ms, solid cs = m :: ms ∧ m ≠ .closeBrace := by
  obtain ⟨c, hc, hblank, hbrace⟩ := h.first
  obtain ⟨rest, rfl⟩ := List.head?_eq_some_iff.1 hc
  have hgap : (CodeSpot.outside.mark c).isGap = false := by
    simp [Mark.isGap, CodeSpot.mark, hblank]
  refine ⟨CodeSpot.outside.mark c, ((CodeSpot.outside.next c).marks rest).filter (!·.isGap), ?_,
    fun h => hbrace (congrArg Mark.char h)⟩
  rw [solid, marks, CodeSpot.marks, List.filter_cons_of_pos (by simp [hgap])]

theorem append (h : Standing cs) (h' : Standing ds) : Standing (cs ++ ds) where
  closed := h.closed.append h'.closed
  first := by
    obtain ⟨c, hc, hfirst⟩ := h.first
    exact ⟨c, by simp [Option.mem_def.1 hc], hfirst⟩
  last := by
    obtain ⟨m, ms, hsolid, -⟩ := h'.solid_eq_cons
    rw [h.closed.solid_append, List.getLast?_append_of_ne_nil _ (by simp [hsolid])]
    exact h'.last

/-- What stands before it makes no difference to code that stands by itself. -/
theorem squeezed_append (h : Standing ds) (hcs : LiteralsClosed cs) :
    dropCommas (solid (cs ++ ds)) = dropCommas (solid cs) ++ dropCommas (solid ds) := by
  obtain ⟨m, ms, hsolid, hm⟩ := h.solid_eq_cons
  rw [hcs.solid_append]
  exact dropCommas_append fun _ => by simpa [hsolid] using hm

theorem solid_comma (cs : List Char) : solid (", ".toList ++ cs) = .comma :: solid cs := by
  have hclosed : LiteralsClosed ", ".toList := by decide +kernel
  have hsolid : solid ", ".toList = [.comma] := by decide +kernel
  rw [hclosed.solid_append, hsolid, List.singleton_append]

theorem comma (h : Standing cs) : Standing (", ".toList ++ cs) where
  closed := LiteralsClosed.append (by decide +kernel) h.closed
  first := ⟨',', rfl, by decide +kernel, by decide⟩
  last := by
    obtain ⟨m, ms, hsolid, -⟩ := h.solid_eq_cons
    rw [solid_comma, List.getLast?_cons_of_ne_nil (by simp [hsolid])]
    exact h.last

theorem squeezed_comma (h : Standing cs) :
    dropCommas (solid (", ".toList ++ cs)) = .comma :: dropCommas (solid cs) := by
  obtain ⟨m, ms, hsolid, hm⟩ := h.solid_eq_cons
  rw [solid_comma, dropCommas_comma (by simpa [hsolid] using hm)]

theorem squeezed_closeBrace (h : Standing cs) :
    dropCommas (solid cs ++ [.closeBrace]) = dropCommas (solid cs) ++ [.closeBrace] :=
  dropCommas_append fun hlast => absurd hlast h.last

end Standing

namespace LaysOut

variable {cs ds cs' ds' : List Char}

/-- Code on one line that has nothing of a layout may stand anywhere. -/
theorem calm (hclosed : LiteralsClosed cs) (hfirst : ∃ c ∈ cs.head?, isBlank c = false ∧ c ≠ '\x7d')
    (hcalm : ∀ m ∈ marks cs, m.isCalm = true) : LaysOut cs cs := by
  have hnone {m : Mark} (hm : m.isCalm = false) : m ∉ marks cs := fun hmem => by
    rw [hcalm m hmem] at hm
    contradiction
  have hstanding : Standing cs :=
    ⟨hclosed, hfirst, fun h => hnone rfl (List.mem_of_mem_filter (List.mem_of_getLast? h))⟩
  have hline : '\n' ∉ cs := fun h => by
    rw [← CodeSpot.outside.map_char_marks cs, List.mem_map] at h
    obtain ⟨⟨c, outside⟩, hm, rfl⟩ := h
    exact hnone (by cases outside <;> rfl) hm
  refine ⟨hstanding, hstanding, hline, rfl, hnone rfl, fun opened k => ?_⟩
  rw [indentMarks_of_not_mem k (hnone rfl)]
  refine LineReader.reads_calm fun m hm hmem => ?_
  simp only [List.mem_cons, List.not_mem_nil, or_false] at hmem
  obtain rfl | rfl | rfl := hmem <;> exact hnone rfl hm

theorem append (h : LaysOut cs ds) (h' : LaysOut cs' ds') : LaysOut (cs ++ cs') (ds ++ ds') where
  standing := h.standing.append h'.standing
  standing_line := h.standing_line.append h'.standing_line
  oneLine := by
    rw [List.mem_append, not_or]
    exact ⟨h.oneLine, h'.oneLine⟩
  squeezed := by
    rw [h'.standing.squeezed_append h.standing.closed,
      h'.standing_line.squeezed_append h.standing_line.closed, h.squeezed, h'.squeezed]
  flat := by
    rw [h.standing.closed.marks_append, List.mem_append, not_or]
    exact ⟨h.flat, h'.flat⟩
  steady opened k := by
    rw [h.standing.closed.marks_append, indentMarks_append]
    exact (h.steady opened k).append (h'.steady opened k)

theorem comma (h : LaysOut cs ds) : LaysOut (", ".toList ++ cs) (", ".toList ++ ds) := by
  have hclosed : LiteralsClosed ", ".toList := by decide +kernel
  have hmarks : marks ", ".toList = [.comma, .blank] := by decide +kernel
  refine ⟨h.standing.comma, h.standing_line.comma, ?_, ?_, ?_, fun opened k => ?_⟩
  · rw [List.mem_append, not_or]
    exact ⟨by decide, h.oneLine⟩
  · rw [h.standing.squeezed_comma, h.standing_line.squeezed_comma, h.squeezed]
  · rw [hclosed.marks_append, List.mem_append, not_or, hmarks]
    exact ⟨by decide, h.flat⟩
  · rw [hclosed.marks_append, indentMarks_append, hmarks, indentMarks_of_not_mem k (by decide)]
    exact (LineReader.reads_calm (by decide)).append (h.steady opened k)

end LaysOut

section Pieces

/-- Code that begins with no blank, and has neither literals nor anything that lays it out. -/
def isPlain (cs : List Char) : Bool :=
  cs.all (fun c => !opensLiteral c && (⟨c, true⟩ : Mark).isCalm) && cs.head?.any (!isBlank ·)

theorem laysOut_of_isPlain {cs : List Char} (h : isPlain cs = true) : LaysOut cs cs := by
  obtain ⟨hall, hfirst⟩ := Bool.and_eq_true_iff.1 h
  have hcalm : ∀ c ∈ cs, opensLiteral c = false ∧ (⟨c, true⟩ : Mark).isCalm = true := by
    simpa using hall
  obtain ⟨hmarks, hclosed⟩ := marks_of_plain fun c hc => (hcalm c hc).1
  refine .calm hclosed ?_ fun m hm => ?_
  · obtain ⟨c, hc, hblank⟩ := (Option.any_eq_true _ _).1 hfirst
    refine ⟨c, hc, by simpa using hblank, ?_⟩
    rintro rfl
    exact absurd (hcalm _ (List.mem_of_head? hc)).2 (by decide)
  · rw [hmarks] at hm
    obtain ⟨c, hc, rfl⟩ := List.mem_map.1 hm
    exact (hcalm c hc).2

theorem laysOut_text (text : String) (h : isPlain text.toList = true) :
    LaysOut text.toList text.toList := laysOut_of_isPlain h

theorem laysOut_quoted {value : String} (h : '\n' ∉ value.toList) :
    LaysOut (quoted value).toList (quoted value).toList := by
  obtain ⟨hmarks, hclosed⟩ := marks_quoted value
  refine .calm hclosed ⟨'\x27', by simp [quoted], by decide +kernel, by decide⟩ fun m hm => ?_
  rw [hmarks] at hm
  obtain ⟨c, hc, rfl⟩ := List.mem_map.1 hm
  have hfeed : c ≠ '\n' := by
    rintro rfl
    rw [← List.count_pos_iff, Skeleton.count_quoted, List.count_pos_iff] at hc
    exact h hc
  simpa [Mark.isCalm, Mark.lineFeed, Mark.comma, Mark.openBrace, Mark.closeBrace] using hfeed

theorem isCalm_of_isKeyPart {c : Char} (h : isKeyPart c = true) :
    (⟨c, true⟩ : Mark).isCalm = true := by
  have hother : c ∉ ['\n', ',', '\x7b', '\x7d'] := fun hmem => by
    have hall : ['\n', ',', '\x7b', '\x7d'].all (!isKeyPart ·) = true := by decide
    simpa [h] using List.all_eq_true.1 hall c hmem
  simpa [Mark.isCalm, Mark.lineFeed, Mark.comma, Mark.openBrace, Mark.closeBrace] using hother

theorem laysOut_propertyKey {name : String} (h : '\n' ∉ name.toList) :
    LaysOut (propertyKey name).toList (propertyKey name).toList := by
  by_cases hkey : propertyKey name = quoted name
  · rw [hkey]
    exact laysOut_quoted h
  · have hpart := isKeyPart_of_bare hkey
    have hne := MemberReader.propertyKey_ne_empty name
    obtain ⟨hbare, -⟩ := (propertyKey_cases name).resolve_right hkey
    rw [hbare] at hne ⊢
    obtain ⟨c, rest, hname⟩ := List.exists_cons_of_ne_nil hne
    have hfirst : isBlank c = false :=
      (MemberReader.plain_of_isKeyPart (hpart c (by simp [hname]))).2
    refine laysOut_of_isPlain (Bool.and_eq_true_iff.2 ⟨List.all_eq_true.2 fun d hd => ?_, ?_⟩)
    · simp [opensLiteral_of_isKeyPart (hpart d hd), isCalm_of_isKeyPart (hpart d hd)]
    · simp [hname, hfirst]

end Pieces

namespace LaysOut

variable {es fs : List (List Char)}

theorem property {expr line : String} (h : LaysOut expr.toList line.toList) {name : String}
    (hname : '\n' ∉ name.toList) : LaysOut (propertyKey name ++ ": " ++ expr).toList
      (propertyKey name ++ ": " ++ line).toList := by
  have hcolon := laysOut_text ": " (by decide +kernel)
  simpa using ((laysOut_propertyKey hname).append hcolon).append h

theorem intercalate (h : List.Forall₂ LaysOut es fs) (hne : es ≠ []) :
    LaysOut (", ".toList.intercalate es) (", ".toList.intercalate fs) := by
  induction h with
  | nil => contradiction
  | @cons e f es fs hfirst hrest ih =>
    cases hrest with
    | nil => simpa using hfirst
    | cons hsecond hrest =>
      rw [List.intercalate_cons_cons, List.intercalate_cons_cons, List.append_assoc,
        List.append_assoc]
      exact hfirst.append (ih (List.cons_ne_nil _ _)).comma

end LaysOut

section Braces

variable {cs ds : List Char}

/-- Code in braces. -/
def braced (cs : List Char) : List Char := '\x7b' :: (cs ++ ['\x7d'])

theorem marks_braced (h : LiteralsClosed cs) :
    marks (braced cs) = .openBrace :: (marks cs ++ [.closeBrace]) ∧ LiteralsClosed (braced cs) := by
  have hmarks : marks (braced cs) = .openBrace :: marks (cs ++ ['\x7d']) := rfl
  have hclosed : LiteralsClosed (cs ++ ['\x7d']) := h.append (by decide)
  rw [hmarks, h.marks_append]
  exact ⟨rfl, hclosed⟩

theorem solid_braced (h : LiteralsClosed cs) :
    solid (braced cs) = .openBrace :: (solid cs ++ [.closeBrace]) := by
  rw [solid, (marks_braced h).1]
  simp [solid]

/-- Braces lay out what stands in them if that has the same marks before the closing one, and if it
leads from the line of the opening brace to the same line, or to one with the same indent. -/
theorem LaysOut.braced (hcs : LiteralsClosed cs) (hds : LiteralsClosed ds)
    (hline : '\n' ∉ ds)
    (hsqueezed : dropCommas (solid cs ++ [.closeBrace]) = dropCommas (solid ds ++ [.closeBrace]))
    (hflat : ⟨'\n', false⟩ ∉ marks cs)
    (hsteady : ∀ opened k, ∃ fresh, (⟨k :: opened, k, false⟩ : LineReader).Reads
      (indentMarks k (marks cs)) ⟨k :: opened, k, fresh⟩) :
    LaysOut (braced cs) (braced ds) := by
  have hstanding {cs : List Char} (h : LiteralsClosed cs) : Standing (TypedTables.braced cs) := by
    refine ⟨(marks_braced h).2, ⟨'\x7b', rfl, by decide +kernel, by decide⟩, ?_⟩
    rw [solid_braced h, ← List.cons_append, List.getLast?_append_of_ne_nil _ (by simp)]
    decide
  have hdrop {cs : List Char} (h : LiteralsClosed cs) : dropCommas (solid (TypedTables.braced cs)) =
      .openBrace :: dropCommas (solid cs ++ [.closeBrace]) := by
    rw [solid_braced h, dropCommas, if_neg fun h => absurd h.1 (by decide)]
  refine ⟨hstanding hcs, hstanding hds, ?_, ?_, ?_, fun opened k => ?_⟩
  · simpa [TypedTables.braced] using hline
  · rw [hdrop hcs, hdrop hds, hsqueezed]
  · rw [(marks_braced hcs).1]
    simpa [Mark.openBrace, Mark.closeBrace] using hflat
  · obtain ⟨fresh, hinner⟩ := hsteady opened k
    have hlast : indentMarks k [.closeBrace] = [.closeBrace] :=
      indentMarks_of_not_mem k (by decide)
    rw [(marks_braced hcs).1, indentMarks_cons (by decide), indentMarks_append, hlast]
    have hopen : (⟨opened, k, false⟩ : LineReader).step? .openBrace =
        some ⟨k :: opened, k, false⟩ := rfl
    have hclose : (⟨k :: opened, k, fresh⟩ : LineReader).step? .closeBrace =
        some ⟨opened, k, false⟩ := by
      simp [LineReader.step?, Mark.closeBrace, Mark.lineFeed, Mark.blank]
    exact .cons hopen (hinner.append (.cons hclose rfl))

/-- Code with blanks around it, as it stands between the braces of an object on one line. -/
def spaced (cs : List Char) : List Char := ' ' :: (cs ++ [' '])

theorem LiteralsClosed.marks_spaced (h : LiteralsClosed cs) :
    marks (spaced cs) = .blank :: (marks cs ++ [.blank]) ∧ LiteralsClosed (spaced cs) := by
  have hmarks : marks (spaced cs) = .blank :: marks (cs ++ [' ']) := rfl
  have hclosed : LiteralsClosed (cs ++ [' ']) := h.append (by decide)
  rw [hmarks, h.marks_append]
  exact ⟨rfl, hclosed⟩

theorem LiteralsClosed.solid_spaced (h : LiteralsClosed cs) :
    solid (spaced cs) = solid cs := by
  rw [solid, h.marks_spaced.1]
  simp [solid]

/-- One line for an entry, moved to the right. -/
def entryLine (cs : List Char) : List Char := ' ' :: ' ' :: (indentChars cs ++ [',', '\n'])

theorem LaysOut.marks_entryLine (h : LaysOut cs ds) :
    marks (entryLine cs) = .blank :: .blank :: (indentMarks 2 (marks cs) ++ [.comma, .lineFeed]) ∧
      LiteralsClosed (entryLine cs) := by
  obtain ⟨hmarks, hafter⟩ := CodeSpot.outside.marks_indentChars h.flat
  have hindent : LiteralsClosed (indentChars cs) := hafter.trans h.standing.closed
  have hline : marks (entryLine cs) = .blank :: .blank :: marks (indentChars cs ++ [',', '\n']) :=
    rfl
  have hclosed : LiteralsClosed (indentChars cs ++ [',', '\n']) := hindent.append (by decide)
  rw [hline, hindent.marks_append, marks, hmarks]
  exact ⟨rfl, hclosed⟩

theorem LaysOut.solid_entryLine (h : LaysOut cs ds) :
    solid (entryLine cs) = solid cs ++ [.comma] := by
  rw [solid, h.marks_entryLine.1]
  simp [solid, filter_indentMarks]

/-- A line begins and ends where the lines of its object do. -/
theorem LaysOut.reads_entryLine (h : LaysOut cs ds) (opened : List Nat) (k : Nat) :
    (⟨k :: opened, k, true⟩ : LineReader).Reads (indentMarks k (marks (entryLine cs)))
      ⟨k :: opened, k, true⟩ := by
  obtain ⟨c, hc, hblank, hbrace⟩ := h.standing.first
  obtain ⟨rest, rfl⟩ := List.head?_eq_some_iff.1 hc
  have hmark : CodeSpot.outside.mark c ∉ [.lineFeed, .blank, .closeBrace] := by
    have hother : c ∉ ['\n', ' ', '\x7d'] := by
      intro hmem
      simp only [List.mem_cons, List.not_mem_nil, or_false] at hmem
      obtain rfl | rfl | rfl := hmem
      · exact absurd hblank (by decide +kernel)
      · exact absurd hblank (by decide +kernel)
      · exact hbrace rfl
    exact fun hmem => hother (List.mem_map_of_mem (f := Mark.char) hmem)
  have hentry : (⟨k :: opened, k + 2, true⟩ : LineReader).Reads
      (indentMarks (k + 2) (marks (c :: rest))) ⟨k :: opened, k + 2, false⟩ := by
    have hsteady := h.steady (k :: opened) (k + 2)
    rw [marks, CodeSpot.marks, indentMarks_cons (by simp at hmark; tauto)] at hsteady ⊢
    exact hsteady.fresh hmark
  have hbehind : indentMarks k [.comma, .lineFeed] =
      .comma :: .lineFeed :: List.replicate k .blank := by
    simp [indentMarks, show Mark.comma ≠ .lineFeed by decide]
  rw [h.marks_entryLine.1, indentMarks_cons (by decide), indentMarks_cons (by decide),
    indentMarks_append, indentMarks_indentMarks, hbehind]
  refine .cons rfl (.cons rfl (hentry.append ?_))
  have hcomma : (⟨k :: opened, k + 2, false⟩ : LineReader).step? .comma =
      some ⟨k :: opened, k + 2, false⟩ := rfl
  exact .cons hcomma (LineReader.reads_lineFeed k)

end Braces

section Objects

variable {cs ds : List Char} {es fs : List (List Char)}

theorem closed_entryLines (h : List.Forall₂ LaysOut es fs) :
    LiteralsClosed (es.flatMap entryLine) := by
  induction h with
  | nil => rfl
  | cons hfirst _ ih => exact hfirst.marks_entryLine.2.append ih

theorem solid_entryLines (h : List.Forall₂ LaysOut es fs) (hne : es ≠ []) :
    solid (es.flatMap entryLine) = solid (", ".toList.intercalate es) ++ [.comma] := by
  induction h with
  | nil => contradiction
  | @cons e f es fs hfirst hrest ih =>
    rw [List.flatMap_cons, hfirst.marks_entryLine.2.solid_append, hfirst.solid_entryLine]
    cases hrest with
    | nil =>
      rw [List.intercalate_singleton]
      exact List.append_nil _
    | cons hsecond hrest =>
      rw [ih (List.cons_ne_nil _ _), List.intercalate_cons_cons, List.append_assoc,
        List.append_assoc, hfirst.standing.closed.solid_append, Standing.solid_comma,
        List.append_assoc]
      rfl

theorem flat_entryLines (h : List.Forall₂ LaysOut es fs) :
    ⟨'\n', false⟩ ∉ marks (es.flatMap entryLine) := by
  induction h with
  | nil => exact List.not_mem_nil
  | @cons e f es fs hfirst _ ih =>
    rw [List.flatMap_cons, hfirst.marks_entryLine.2.marks_append, List.mem_append, not_or]
    refine ⟨fun hmem => ?_, ih⟩
    rw [hfirst.marks_entryLine.1] at hmem
    have hmem : ⟨'\n', false⟩ ∈ indentMarks 2 (marks e) := by
      simpa [Mark.blank, Mark.comma, Mark.lineFeed] using hmem
    obtain hmem | hmem := mem_indentMarks hmem
    · exact hfirst.flat hmem
    · contradiction

theorem reads_entryLines (h : List.Forall₂ LaysOut es fs) (opened : List Nat) (k : Nat) :
    (⟨k :: opened, k, true⟩ : LineReader).Reads (indentMarks k (marks (es.flatMap entryLine)))
      ⟨k :: opened, k, true⟩ := by
  induction h with
  | nil => rfl
  | cons hfirst _ ih =>
    rw [List.flatMap_cons, hfirst.marks_entryLine.2.marks_append, indentMarks_append]
    exact (hfirst.reads_entryLine opened k).append ih

/-- An object on one line. -/
theorem laysOut_spaced (h : List.Forall₂ LaysOut es fs) (hne : es ≠ []) :
    LaysOut (braced (spaced (", ".toList.intercalate es)))
      (braced (spaced (", ".toList.intercalate fs))) := by
  have hall := LaysOut.intercalate h hne
  refine .braced hall.standing.closed.marks_spaced.2 hall.standing_line.closed.marks_spaced.2
    ?_ ?_ ?_ fun opened k => ⟨false, ?_⟩
  · simpa [spaced] using hall.oneLine
  · rw [hall.standing.closed.solid_spaced, hall.standing_line.closed.solid_spaced,
      hall.standing.squeezed_closeBrace, hall.standing_line.squeezed_closeBrace, hall.squeezed]
  · rw [hall.standing.closed.marks_spaced.1]
    simpa [Mark.blank] using hall.flat
  · have hlast : indentMarks k [.blank] = [.blank] := indentMarks_of_not_mem k (by decide)
    rw [hall.standing.closed.marks_spaced.1, indentMarks_cons (by decide), indentMarks_append,
      hlast]
    exact .cons rfl ((hall.steady (k :: opened) k).append (LineReader.reads_calm (by decide)))

/-- An object with one line for each entry. -/
theorem laysOut_entryLines (h : List.Forall₂ LaysOut es fs) (hne : es ≠ []) :
    LaysOut (braced ('\n' :: es.flatMap entryLine))
      (braced (spaced (", ".toList.intercalate fs))) := by
  have hall := LaysOut.intercalate h hne
  have hmarks : marks ('\n' :: es.flatMap entryLine) =
      .lineFeed :: marks (es.flatMap entryLine) := rfl
  have hsolid : solid ('\n' :: es.flatMap entryLine) = solid (es.flatMap entryLine) := by
    rw [solid, hmarks]
    simp [solid]
  refine .braced (closed_entryLines h) hall.standing_line.closed.marks_spaced.2
    ?_ ?_ ?_ fun opened k => ⟨true, ?_⟩
  · simpa [spaced] using hall.oneLine
  · have hcut : dropCommas ([.comma] ++ [.closeBrace]) = [.closeBrace] := rfl
    rw [hsolid, solid_entryLines h hne, List.append_assoc,
      dropCommas_append fun hlast => absurd hlast hall.standing.last, hcut,
      hall.standing_line.closed.solid_spaced, hall.standing_line.squeezed_closeBrace,
      hall.squeezed]
  · rw [hmarks]
    simpa [Mark.lineFeed] using flat_entryLines h
  · have hfeed : indentMarks k (.lineFeed :: marks (es.flatMap entryLine)) =
        (.lineFeed :: List.replicate k .blank) ++ indentMarks k (marks (es.flatMap entryLine)) :=
      rfl
    rw [hmarks, hfeed]
    exact (LineReader.reads_lineFeed k).append (reads_entryLines h opened k)

theorem LaysOut.object (h : LaysOut cs ds) :
    LaysOut ("z.object(".toList ++ cs ++ ")".toList) ("z.object(".toList ++ ds ++ ")".toList) :=
  ((laysOut_text "z.object(" (by decide +kernel)).append h).append
    (laysOut_text ")" (by decide +kernel))

theorem toList_inlineObject (entries : List String) : (Validator.inlineObject entries).toList =
    "z.object(".toList ++ braced (spaced (", ".toList.intercalate (entries.map String.toList))) ++
      ")".toList := by
  simp [Validator.inlineObject, String.toList_intercalate, braced, spaced]

theorem toList_blockObject (entries : List String) : (Validator.blockObject entries).toList =
    "z.object(".toList ++ braced ('\n' :: (entries.map String.toList).flatMap entryLine) ++
      ")".toList := by
  simp [Validator.blockObject, String.toList_join, List.flatMap_map, Layout.toList_indent,
    braced, entryLine]

/-- The entry of a property. -/
def entryOf (field : String × String) : String := propertyKey field.1 ++ ": " ++ field.2

/-- Fields whose entries are laid out, and on one line. -/
abbrev LaysOutField (field line : String × String) : Prop :=
  LaysOut (entryOf field).toList (entryOf line).toList

theorem laysOut_object {fields lines : List (String × String)}
    (h : List.Forall₂ LaysOutField fields lines) :
    LaysOut (Validator.object fields).toList (Validator.lineObject lines).toList := by
  cases hfields : fields with
  | nil =>
    obtain rfl : lines = [] := by simpa [hfields] using h
    have hempty : LaysOut (braced []) (braced []) :=
      .braced rfl rfl List.not_mem_nil rfl List.not_mem_nil fun _ _ => ⟨false, rfl⟩
    exact hempty.object
  | cons field rest =>
    cases hlines : lines with
    | nil =>
      rw [hfields, hlines] at h
      cases h
    | cons line others =>
      have hentries : List.Forall₂ LaysOut ((fields.map entryOf).map String.toList)
          ((lines.map entryOf).map String.toList) := by
        simpa [List.forall₂_map_left_iff, List.forall₂_map_right_iff] using h
      have hne : (fields.map entryOf).map String.toList ≠ [] := by simp [hfields]
      have hline : (Validator.lineObject lines).toList = "z.object(".toList ++
          braced (spaced (", ".toList.intercalate ((lines.map entryOf).map String.toList))) ++
            ")".toList := by
        rw [hlines]
        exact toList_inlineObject _
      rw [← hfields, ← hlines, hline, Validator.object_of_ne_nil (by simp [hfields])]
      dsimp only
      split_ifs
      · rw [toList_inlineObject]
        exact (laysOut_spaced hentries hne).object
      · rw [toList_blockObject]
        exact (laysOut_entryLines hentries hne).object

end Objects

section Folds

variable {options : MappingOptions}

theorem laysOut_numbered {exprs lines : List String}
    (h : List.Forall₂ (fun expr line => LaysOut expr.toList line.toList) exprs lines) (k : Nat) :
    List.Forall₂ LaysOutField
      ((exprs.zipIdx k).map fun (expr, i) => (TsType.fieldName i, expr))
      ((lines.zipIdx k).map fun (line, i) => (TsType.fieldName i, line)) := by
  induction h generalizing k with
  | nil => exact .nil
  | cons hfirst _ ih => exact .cons (hfirst.property (lineFeed_not_mem_fieldName k)) (ih (k + 1))

theorem laysOut_keys {keys : List String} (h : ∀ key ∈ keys, '\n' ∉ key.toList) :
    LaysOut ("z.enum([" ++ ", ".intercalate (keys.map quoted) ++ "])").toList
      ("z.enum([" ++ ", ".intercalate (keys.map quoted) ++ "])").toList := by
  cases hkeys : keys with
  | nil => exact laysOut_text "z.enum([])" (by decide +kernel)
  | cons key rest =>
    have hall : List.Forall₂ LaysOut ((keys.map quoted).map String.toList)
        ((keys.map quoted).map String.toList) := by
      rw [List.forall₂_same]
      simpa using fun key hkey => laysOut_quoted (h key hkey)
    rw [← hkeys, String.toList_append, String.toList_append, String.toList_intercalate]
    exact ((laysOut_text "z.enum([" (by decide +kernel)).append
      (.intercalate hall (by simp [hkeys]))).append (laysOut_text "])" (by decide +kernel))

theorem laysOut_address {version : String} (h : '\n' ∉ version.toList) : LaysOut
    ("z.string().ip(\x7b version: " ++ quoted version ++ " \x7d)").toList
    ("z.string().ip(\x7b version: " ++ quoted version ++ " \x7d)").toList := by
  have hversion := (laysOut_text "version: " (by decide +kernel)).append (laysOut_quoted h)
  have hobject := laysOut_spaced (.cons hversion .nil) (List.cons_ne_nil _ _)
  rw [List.intercalate_singleton] at hobject
  have hall := ((laysOut_text "z.string().ip(" (by decide +kernel)).append hobject).append
    (laysOut_text ")" (by decide +kernel))
  simpa [braced, spaced] using hall

theorem laysOut_leaf (options : MappingOptions) (kind : Leaf) :
    LaysOut (Validator.leaf options kind).toList (Validator.leaf options kind).toList := by
  cases kind with
  | address family =>
    rw [Validator.leaf_address]
    exact laysOut_address (by cases family <;> decide)
  | wideInteger | decimal | date | dateTime =>
    rw [Validator.leaf]
    split <;> exact laysOut_text _ (by decide +kernel)
  | integer | float | boolean | text =>
    rw [Validator.leaf]
    exact laysOut_text _ (by decide +kernel)

theorem respects_line : Skeleton.fold.Respects (Validator.fold options)
    fun s expr => s.breaks = 0 → LaysOut expr.toList (s.line options).toList where
  nullable {s expr} h hbreaks := by
    rw [Skeleton.fold, Skeleton.breaks] at hbreaks
    rw [Skeleton.fold, Skeleton.line, Validator.fold, String.toList_append, String.toList_append]
    exact (h hbreaks).append (laysOut_text ".nullable()" (by decide +kernel))
  array {s expr} h hbreaks := by
    rw [Skeleton.fold, Skeleton.breaks] at hbreaks
    rw [Skeleton.fold, Skeleton.line, Validator.fold]
    simp only [String.toList_append]
    exact ((laysOut_text "z.array(" (by decide +kernel)).append (h hbreaks)).append
      (laysOut_text ")" (by decide +kernel))
  tuple {items exprs} h hbreaks := by
    rw [Skeleton.fold, Skeleton.breaks, List.sum_eq_zero_iff] at hbreaks
    have hitems : List.Forall₂ (fun expr line => LaysOut expr.toList line.toList) exprs
        (items.map (Skeleton.line options)) := by
      rw [List.forall₂_map_right_iff]
      refine ((List.forall₂_and_left _ _).2 ⟨fun item hitem => ?_, h⟩).flip.imp
        fun expr item hitem => hitem.2 hitem.1
      exact hbreaks _ (List.mem_map_of_mem hitem)
    rw [Skeleton.fold, Skeleton.line]
    exact laysOut_object (laysOut_numbered hitems 0)
  map {s expr} h hbreaks := by
    rw [Skeleton.fold, Skeleton.breaks] at hbreaks
    have hopen : "z.record(z.string(), ".toList = "z.record(z.string()".toList ++ ", ".toList :=
      rfl
    rw [Skeleton.fold, Skeleton.line, Validator.fold]
    simp only [String.toList_append]
    rw [hopen, List.append_assoc, List.append_assoc]
    exact ((laysOut_text "z.record(z.string()" (by decide +kernel)).append (h hbreaks).comma).append
      (laysOut_text ")" (by decide +kernel))
  enumeration keys hbreaks := by
    rw [Skeleton.fold, Skeleton.breaks, List.sum_eq_zero_iff] at hbreaks
    rw [Skeleton.fold, Skeleton.line]
    refine laysOut_keys fun key hkey => List.count_eq_zero.1 (hbreaks _ ?_)
    exact List.mem_map_of_mem hkey
  leaf kind _ := by
    rw [Skeleton.fold, Skeleton.line]
    exact laysOut_leaf options kind
  unknown {name s expr} hs hexpr _ := by
    rw [← Except.ok.inj hs, ← Except.ok.inj hexpr, Skeleton.line]
    exact laysOut_text _ (by decide +kernel)

end Folds

section Tables

variable {table : MappedTable} {expr : String}

/-- The validator of a column has a form on one line, which it lays out. -/
theorem exists_lineOfColumn {options : MappingOptions} {column : ResolvedColumn}
    (hname : '\n' ∉ column.name.toList)
    (hkeys : ∀ s, Skeleton.ofType column.type = .ok s → s.breaks = 0)
    (h : Validator.ofType options column.type = .ok expr) :
    ∃ field, Validator.lineOfColumn options column = .ok field ∧
      LaysOutField (column.name, expr) field := by
  obtain ⟨s, hs⟩ := TypeFold.exists_run_of_run (fun _ _ => rfl) Skeleton.plain_fold
    Skeleton.total_fold h
  have hlays := respects_line.of_runWithin Skeleton.plain_fold (fun _ _ => rfl) hs h (hkeys s hs)
  refine ⟨(column.name, s.line options), ?_, hlays.property hname⟩
  rw [Validator.lineOfColumn, Skeleton.ofType, hs]
  rfl

theorem exists_laysOut_ofTable (hfeeds : table.WithoutLineFeeds)
    (h : Validator.ofTable table = .ok expr) :
    ∃ line, Validator.lineOfTable table = .ok line ∧ LaysOut expr.toList line.toList := by
  obtain ⟨fields, hfields, hexpr⟩ := bind_eq_ok.1 h
  obtain rfl := Except.ok.inj hexpr
  have hcolumns := (List.forall₂_and_left _ _).2 ⟨fun column hc => hc, mapM_eq_ok.1 hfields⟩
  have hline : List.Forall₂ (fun column field => ∃ line,
      Validator.lineOfColumn table.representation column = .ok line ∧ LaysOutField field line)
      table.columns fields := by
    refine hcolumns.imp fun column field hcolumn => ?_
    obtain ⟨hmem, hfield⟩ := hcolumn
    obtain ⟨expr, hexpr, hfield⟩ := bind_eq_ok.1 hfield
    obtain rfl := Except.ok.inj hfield
    exact exists_lineOfColumn (hfeeds.names column hmem) (hfeeds.keys column hmem) hexpr
  obtain ⟨lines, hlines⟩ := exists_mapM_iff.2 fun column hc => by
    obtain ⟨field, -, line, hline, -⟩ := exists_of_forall₂ hline hc
    exact ⟨line, hline⟩
  refine ⟨Validator.lineObject lines, by rw [Validator.lineOfTable, hlines]; rfl, ?_⟩
  refine laysOut_object (forall₂_of_common hline (mapM_eq_ok.1 hlines) ?_)
  intro column field line hfield hline
  obtain ⟨line', hline', hlays⟩ := hfield
  obtain rfl := Except.ok.inj (hline'.symm.trans hline)
  exact hlays

/-- The layout of a validator is only layout. Without the blanks outside its literals, and then
without the commas before its closing braces, it is what its form on one line is without them; and
each of its objects is closed on a line that is indented like the one that opens it, with every line
between them two columns further to the right. -/
theorem Validator.laidOut_ofTable (hfeeds : table.WithoutLineFeeds)
    (h : Validator.ofTable table = .ok expr) :
    ∃ line, Validator.lineOfTable table = .ok line ∧ '\n' ∉ line.toList ∧
      squeeze expr = squeeze line ∧ LaidOut expr := by
  obtain ⟨line, hline, hlays⟩ := exists_laysOut_ofTable hfeeds h
  refine ⟨line, hline, hlays.oneLine, ?_, ?_⟩
  · rw [squeeze, squeeze, hlays.squeezed]
  · have hsteady := hlays.steady [] 0
    rwa [indentMarks_zero] at hsteady

/-- A table with a name that has to be quoted, and with tuples that take more than one line. -/
def shapes : MappedTable where
  declaredName := "Shapes"
  sourceName := "shapes"
  columns :=
    let unit : TypeArg := .type (.mk "Enum8" [.member "a, \x7d" 1])
    let number : TypeArg := .type (.plain "Int32")
    let corner : TypeExpr := .mk "Tuple" [unit, number, number, number]
    [⟨"its, \x7d", "its, \x7d", .mk "Array" [.type corner], "_", "_", none⟩]
  info := ⟨none, none, none, none⟩
  representation := {}

def shapesText : String :=
  "z.object(\x7b\n" ++
  "  'its, \x7d': z.array(z.object(\x7b\n" ++
  "    _0: z.enum(['a, \x7d']),\n" ++
  "    _1: z.number(),\n" ++
  "    _2: z.number(),\n" ++
  "    _3: z.number(),\n" ++
  "  \x7d)),\n" ++
  "\x7d)"

theorem Validator.laidOut_ofTable_shapes : shapes.WithoutLineFeeds ∧
    Validator.ofTable shapes = .ok shapesText ∧
    ∃ line, Validator.lineOfTable shapes = .ok line ∧ '\n' ∉ line.toList ∧
      squeeze shapesText = squeeze line ∧ LaidOut shapesText := by
  have hfeeds : shapes.WithoutLineFeeds := by
    refine ⟨by decide +kernel, fun column hc s hs => ?_⟩
    obtain rfl := List.mem_singleton.1 hc
    obtain rfl := Except.ok.inj hs
    simp [Skeleton.fold, Skeleton.breaks, TypeExpr.args, TypeArg.key?]
  have htext : Validator.ofTable shapes = .ok shapesText := by decide +kernel
  exact ⟨hfeeds, htext, Validator.laidOut_ofTable hfeeds htext⟩

end Tables

end TypedTables
