import TypedTables.Proofs.Result
import TypedTables.Proofs.Text.Closings
import TypedTables.Render.Interface

/-!
Doc comments. Whatever names, comments and types a table has, each of its doc comments goes on to
the `*/` that is written at its end: the text in it is written without any, and the layout around the
text adds none.
-/

namespace TypedTables.Interface

open Text

section Escape

/-- While a text is written without its `*/`, a `*` that is written last has no `/` behind it. -/
theorem closings_escapeDoc {done cs : List Char} (hdone : closings done.reverse = 0)
    (hlast : done.head? = some '*' → cs.head? ≠ some '/') : closings (escapeDoc done cs) = 0 := by
  fun_induction escapeDoc done cs with
  | case1 done rest ih =>
    refine ih ?_ nofun
    have hsplit : ('/' :: '\\' :: '*' :: done).reverse = (done.reverse ++ ['*']) ++ '\\' :: ['/'] := by
      simp
    rw [hsplit, closings_append_cons (by decide) (by decide), closings_concat, hdone]
    simp [closings_cons, closings_nil]
  | case2 done c rest hpair ih =>
    refine ih ?_ fun hc hhead => ?_
    · rw [List.reverse_cons, closings_concat, hdone, List.getLast?_reverse, if_neg]
      exact fun ⟨hstar, hc⟩ => hlast hstar (by rw [hc]; rfl)
    · obtain ⟨tail, rfl⟩ := List.head?_eq_some_iff.1 hhead
      exact hpair tail (Option.some.inj hc) rfl
  | case3 done => exact hdone

theorem closings_docText (text : List Char) : closings (docText text).toList = 0 := by
  rw [docText, String.toList_ofList]
  exact closings_escapeDoc rfl nofun

end Escape

section Layout

variable {indent : String}

theorem closings_indent (hindent : indent ∈ ["", "  "]) (cs : List Char) :
    closings (indent.toList ++ cs) = closings cs := by
  obtain rfl | rfl : indent = "" ∨ indent = "  " := by simpa using hindent
  · rfl
  · simp [closings_cons]

/-- A line of a comment stands alone, whatever is before and behind it. -/
theorem closings_docLine (hindent : indent ∈ ["", "  "]) (line rest : List Char) :
    closings ((docLine indent line).toList ++ rest) = closings rest := by
  unfold docLine
  split
  · rw [String.toList_append, List.append_assoc, closings_indent hindent]
    simp [closings_cons]
  · have hshape (text : String) : (indent ++ " * " ++ text ++ "\n").toList ++ rest =
        indent.toList ++ ' ' :: '*' :: ' ' :: (text.toList ++ '\n' :: rest) := by simp
    rw [hshape, closings_indent hindent]
    simp [closings_cons, closings_append_cons, closings_docText]

theorem closings_docLines (hindent : indent ∈ ["", "  "]) (lines : List (List Char))
    (rest : List Char) :
    closings ((String.join (lines.map (docLine indent))).toList ++ rest) = closings rest := by
  induction lines with
  | nil => rfl
  | cons line lines ih =>
    rw [List.map_cons, String.join_cons, String.toList_append, List.append_assoc,
      closings_docLine hindent, ih]

theorem closings_doc (hindent : indent ∈ ["", "  "]) (paragraphs : List String) :
    closings (doc indent paragraphs).toList = 1 := by
  unfold doc
  split
  · next paragraph =>
    have hshape (text : String) : (indent ++ "/** " ++ text ++ " */\n").toList =
        indent.toList ++ '/' :: '*' :: '*' :: ' ' :: (text.toList ++ ' ' :: ['*', '/', '\n']) := by
      simp
    rw [hshape, closings_indent hindent]
    simp [closings_cons, closings_append_cons, closings_docText, closings_nil]
  · have hshape (text : String) : (indent ++ "/**\n" ++ text ++ indent ++ " */\n").toList =
        indent.toList ++ '/' :: '*' :: '*' :: '\n' :: (text.toList ++
          (indent.toList ++ [' ', '*', '/', '\n'])) := by
      simp
    have hopen (cs : List Char) : closings ('/' :: '*' :: '*' :: '\n' :: cs) = closings cs := by
      simp [closings_cons]
    rw [hshape, closings_indent hindent, hopen, closings_docLines hindent, closings_indent hindent]
    decide

end Layout

/-- A doc comment that only its own end closes. -/
structure ClosesOnce (block : String) : Prop where
  ends : ∃ body, block = body ++ "*/\n"
  once : closings block.toList = 1

theorem closesOnce_doc {indent : String} (hindent : indent ∈ ["", "  "])
    (paragraphs : List String) : ClosesOnce (doc indent paragraphs) where
  ends := by
    unfold doc
    split
    · next paragraph =>
      exact ⟨indent ++ "/** " ++ docText paragraph.toList ++ " ", by simp [String.append_assoc]⟩
    · refine ⟨indent ++ "/**\n" ++
        String.join ((paragraphs.flatMap docLines).map (docLine indent)) ++ indent ++ " ", ?_⟩
      simp [String.append_assoc]
  once := closings_doc hindent paragraphs

/-- The doc comments of a table: its own, and one for each column. -/
def docs (table : MappedTable) : List String :=
  doc "" (tableDoc table) :: table.columns.map fun column => doc "  " (columnDoc column)

/-- The blocks stand in the text, each behind the one before it. -/
inductive Woven : (blocks : List String) → (text : String) → Prop
  | nil (text : String) : Woven [] text
  | cons {block text : String} {blocks : List String} (between : String) (h : Woven blocks text) :
    Woven (block :: blocks) (between ++ block ++ text)

namespace Woven

variable {block text text' : String} {blocks blocks' : List String}

theorem single (block : String) : Woven [block] block := by
  simpa using @Woven.cons block "" [] "" (.nil "")

theorem behind (front : String) (h : Woven blocks text) : Woven blocks (front ++ text) := by
  cases h with
  | nil => exact .nil _
  | cons between h =>
    rw [← String.append_assoc, ← String.append_assoc]
    exact .cons (front ++ between) h

theorem append (h : Woven blocks text) (h' : Woven blocks' text') :
    Woven (blocks ++ blocks') (text ++ text') := by
  induction h with
  | nil text => exact h'.behind text
  | cons between h ih =>
    rw [String.append_assoc]
    exact .cons between ih

/-- Nothing of the blocks is lost in front of more text. -/
theorem before (h : Woven blocks text) (back : String) : Woven blocks (text ++ back) := by
  simpa using h.append (.nil back)

end Woven

theorem woven_fields (columns : List ResolvedColumn) :
    Woven (columns.map fun column => doc "  " (columnDoc column))
      (String.join (columns.map field)) := by
  induction columns with
  | nil => exact .nil _
  | cons column columns ih =>
    have hfield : Woven [doc "  " (columnDoc column)] (field column) := by
      simpa [field, String.append_assoc] using (Woven.single (doc "  " (columnDoc column))).before
        ("  " ++ propertyKey column.name ++ ": " ++ column.mappedType ++ ";\n")
    rw [List.map_cons, List.map_cons, String.join_cons]
    exact hfield.append ih

theorem woven_ofTable (table : MappedTable) : Woven (docs table) (ofTable table) := by
  have hdoc := (Woven.single (doc "" (tableDoc table))).before
    ("export interface " ++ table.declaredName ++ " \x7b\n")
  have h := (hdoc.append (woven_fields table.columns)).before "\x7d\n"
  simpa [ofTable, docs, String.append_assoc] using h

theorem woven_declaration {validators : Bool} {table : MappedTable} {text : String}
    (h : declaration validators table = .ok text) : Woven (docs table) text := by
  have hsection (schema : String) : Woven (docs table) ("\n" ++ ofTable table ++ schema) :=
    ((woven_ofTable table).behind "\n").before schema
  unfold declaration at h
  cases validators with
  | false =>
    cases h
    exact hsection ""
  | true =>
    obtain ⟨schema, -, h⟩ := bind_eq_ok.1 h
    cases h
    exact hsection schema

theorem woven_sections {validators : Bool} {tables : List MappedTable} {sections : List String}
    (h : List.Forall₂ (fun table text => declaration validators table = .ok text) tables sections) :
    Woven (tables.flatMap docs) (String.join sections) := by
  induction h with
  | nil => exact .nil _
  | cons hsection _ ih =>
    rw [List.flatMap_cons, String.join_cons]
    exact (woven_declaration hsection).append ih

theorem woven_render {validators : Bool} {tables : List MappedTable} {text : String}
    (h : render validators tables = .ok text) : Woven (tables.flatMap docs) text := by
  obtain ⟨_, -, h⟩ := bind_eq_ok.1 h
  obtain ⟨usage, -, h⟩ := bind_eq_ok.1 h
  obtain ⟨sections, hsections, h⟩ := bind_eq_ok.1 h
  cases h
  exact (woven_sections (mapM_eq_ok.1 hsections)).behind _

/-- Whatever is rendered, each doc comment of the tables stands in the text and is closed by its own
end only. -/
theorem docs_close_once {validators : Bool} {tables : List MappedTable} {text : String}
    (h : render validators tables = .ok text) :
    Woven (tables.flatMap docs) text ∧ ∀ block ∈ tables.flatMap docs, ClosesOnce block := by
  refine ⟨woven_render h, fun block hblock => ?_⟩
  obtain ⟨table, -, hblock⟩ := List.mem_flatMap.1 hblock
  obtain rfl | hblock := List.mem_cons.1 hblock
  · exact closesOnce_doc (by simp) _
  · obtain ⟨column, -, rfl⟩ := List.mem_map.1 hblock
    exact closesOnce_doc (by simp) _

/-- A table that has `*/` in all its texts. -/
def closingTable : MappedTable where
  declaredName := "T"
  sourceName := "*/t"
  columns := [⟨"a", "a", .plain "String", "string", "String /* text **/", some "*/\n/ *\n/*/"⟩]
  info := ⟨some "Log */", none, some "*/ a", some "/**/"⟩
  representation := {}

theorem docs_close_once_closingTable : ∃ text, render true [closingTable] = .ok text ∧
    Woven [doc "" (tableDoc closingTable), doc "  " ["*/\n/ *\n/*/", "",
      "Source type: `String /* text **/`"]] text ∧
    ∀ block ∈ [closingTable].flatMap docs, ClosesOnce block := by
  have h : (render true [closingTable]).toOption.any (fun _ => true) = true := by decide +kernel
  obtain ⟨text, htext, -⟩ := exists_of_any h
  obtain ⟨hwoven, hclose⟩ := docs_close_once htext
  exact ⟨text, htext, hwoven, hclose⟩

end TypedTables.Interface
