import TypedTables.Grammar.Table
import TypedTables.Proofs.Grammar.Spelled

/-!
Column lists written out. A definition with no options, of any word and any type, is read as the
column that it defines, unless it is mistaken for an entry that is passed over: a column named
`projection` whose type has arguments, or one named `index` whose type is named `TYPE`.
-/

namespace TypedTables

open Lexeme

/-- Name and type of a column. -/
abbrev NameAndType := String × TypeExpr

def definitionText (column : NameAndType) : String := column.1 ++ " " ++ column.2.display

/-- A statement whose column list has a definition for each name and type. -/
def createText (columns : List NameAndType) : String :=
  "CREATE TABLE t (" ++ ", ".intercalate (columns.map definitionText) ++ ")"

/-- Whether the definition of a column is taken for an index or a projection. -/
def isMistaken (column : NameAndType) : Bool :=
  match Keyword.ofWord? column.1 with
  | some .index => Text.sameIgnoringCase column.2.name "TYPE"
  | some .projection => !column.2.args.isEmpty
  | _ => false

/-- What is read of a column list. -/
def kept (columns : List NameAndType) : List NameAndType := columns.filter (!isMistaken ·)

theorem kept_cons (column : NameAndType) (columns : List NameAndType) :
    kept (column :: columns) = kept [column] ++ kept columns := List.filter_append [column] columns

/-- Names and types of the columns that have been read. -/
def ColumnDecl.nameAndType (column : ColumnDecl) : NameAndType := (column.name, column.type)

variable {ts us rest : List Token} {t : Token} {column : NameAndType} {room : Nat}

section Tokens

/-- A column whose definition is read as what it is written out as. -/
structure SpelledColumn (column : NameAndType) : Prop where
  word : isWord column.1 = true
  type : column.2.Spelled maxTypeDepth

/-- The contents that a column definition is read as. -/
def definitionContents (column : NameAndType) : List (TokenKind × String) :=
  (wordKind column.1, column.1) :: column.2.contents

theorem written_definition (h : SpelledColumn column) :
    Written (definitionText column).toList (definitionContents column) := by
  intro rest hrest
  have hblank : Text.isBlank ' ' = true := Text.isBlank_iff.2 (by decide)
  have htext : (definitionText column).toList ++ rest =
      column.1.toList ++ ' ' :: (column.2.display.toList ++ rest) := by simp [definitionText]
  have hword : ∀ d ∈ (' ' :: (column.2.display.toList ++ rest)).head?, isWordPart d = false := by
    rintro _ ⟨⟩
    rfl
  rw [htext, contents_word h.word hword, contents_blank hblank, written_type h.type rest hrest]
  rfl

theorem contents_word_blank {w : String} {kind : TokenKind}
    (h : (isWord w && wordKind w == kind) = true) (cs : List Char) :
    contents (w.toList ++ ' ' :: cs) = (kind, w) :: contents cs := by
  rw [Bool.and_eq_true, beq_iff_eq] at h
  rw [contents_word h.1 (by rintro _ ⟨⟩; rfl), h.2,
    contents_blank (Text.isBlank_iff.2 (by decide))]

/-- The words before a column list, each with a blank behind it, and what they are read as. -/
theorem contents_header (rest : List Char) : contents ("CREATE TABLE t (".toList ++ rest) =
    (.keyword .create, "CREATE") :: (.keyword .table, "TABLE") :: (.identifier, "t") ::
      (.openParen, "(") :: contents rest := by
  have hcreate : (isWord "CREATE" && wordKind "CREATE" == .keyword .create) = true := by
    decide +kernel
  have htable : (isWord "TABLE" && wordKind "TABLE" == .keyword .table) = true := by decide +kernel
  have hname : (isWord "t" && wordKind "t" == .identifier) = true := by decide +kernel
  have htext : "CREATE TABLE t (".toList ++ rest = "CREATE".toList ++ ' ' ::
      ("TABLE".toList ++ ' ' :: ("t".toList ++ ' ' :: '(' :: rest)) := rfl
  rw [htext, contents_word_blank hcreate, contents_word_blank htable, contents_word_blank hname,
    contents_symbol (by decide) rfl]

theorem contents_createText {columns : List NameAndType} (h : ∀ c ∈ column :: columns, SpelledColumn c) :
    contents (createText (column :: columns)).toList =
      (.keyword .create, "CREATE") :: (.keyword .table, "TABLE") :: (.identifier, "t") ::
        (.openParen, "(") :: (definitionContents column ++
          tailContents (columns.map definitionContents)) := by
  obtain ⟨hcolumn, hcolumns⟩ := List.forall_mem_cons.1 h
  have htext : (createText (column :: columns)).toList = "CREATE TABLE t (".toList ++
      ((definitionText column).toList ++
        listTail [] ((columns.map definitionText).map String.toList)) := by
    unfold createText
    rw [← toList_intercalate (definitionText column) (columns.map definitionText) [],
      String.toList_append, String.toList_append, List.append_assoc, List.map_cons]
    rfl
  have hwritten : List.Forall₂ Written ((columns.map definitionText).map String.toList)
      (columns.map definitionContents) := by
    rw [List.map_map, List.forall₂_map_left_iff, List.forall₂_map_right_iff, List.forall₂_same]
    exact fun c hc => written_definition (hcolumns c hc)
  rw [htext, contents_header, written_definition hcolumn _ (endsItem_listTail _ _),
    contents_listTail [] hwritten, contents_nil, List.append_nil]

end Tokens

namespace Grammar

section Types

/-- A type is its name, or its name and a group. -/
theorem exists_of_type {ty : TypeExpr} (h : ty.Spelled room)
    (hts : ts.map Token.content = ty.contents) : ∃ t us, ts = t :: us ∧ t.kind = .identifier ∧
      t.text = ty.name ∧ (ty.args = [] ∧ us = [] ∨ ty.args ≠ [] ∧ Group us) := by
  cases room with
  | zero => exact h.elim
  | succ room =>
    cases typeTokens_of_contents hts with
    | @plain name t hkind htext => exact ⟨t, [], rfl, hkind, htext, .inl ⟨rfl, rfl⟩⟩
    | @args name arg args t o us hkind htext ho hus =>
      have hcount : Accepts name (0 + (args.length + 1)) := by simpa using h.count
      have hread : Reads False
          (typeArgs (typeExpr room) name (Ceiling.steps .typeArguments).limit #[]) us [] _ :=
        reads_typeArgs (reads_typeExpr room) h.args h.budget hcount hus
      obtain ⟨-, hgroup⟩ := hread.taken (moves_typeArgs (takes_typeExpr room) name _ #[])
      exact ⟨t, _, rfl, hkind, htext, .inr ⟨nofun, o, us, rfl, ho, hgroup⟩⟩

theorem reachesType_append_inside {depth n : Nat} (h : Closes depth ts) (us : List Token) :
    reachesType (depth + (n + 1)) (ts ++ us) = reachesType (n + 1) us := by
  induction ts generalizing depth with
  | nil =>
    obtain rfl : depth = 0 := h
    rw [Nat.zero_add, List.nil_append]
  | cons t ts ih =>
    rw [List.cons_append, reachesType, t.nest_add h.1, ih h.2]
    rfl

/-- No `TYPE` is looked for inside of a group. -/
theorem reachesType_group (h : Group ts) (us : List Token) :
    reachesType 0 (ts ++ us) = reachesType 0 us := by
  obtain ⟨o, _, rfl, ho, inner, c, rfl, hc, hinner⟩ := h
  have hopen : o.nest 0 = 1 := by simp [Token.nest, ho]
  have hclose : c.nest 1 = 0 := by simp [Token.nest, hc]
  have hlast : reachesType 1 (c :: us) = reachesType 0 us := by
    rw [reachesType, hclose]
    rfl
  have hin : reachesType 1 (inner ++ c :: us) = reachesType 1 (c :: us) :=
    reachesType_append_inside (n := 0) hinner (c :: us)
  rw [List.cons_append, reachesType, hopen, List.append_assoc, List.singleton_append, hin, hlast]
  simp [ho]

theorem reachesType_atItemEnd (h : AtItemEnd rest) : reachesType 0 rest = false := by
  obtain ⟨t, ht, hends⟩ := (Option.any_eq_true _ _).1 h
  obtain ⟨us, rfl⟩ := List.head?_eq_some_iff.1 ht
  rw [reachesType, if_pos]
  simpa [Token.endsItem, or_comm] using hends

/-- Behind `index` a type is looked at as a whole: only its name can be the `TYPE` of an index. -/
theorem reachesType_type {ty : TypeExpr} (h : ty.Spelled room)
    (hts : ts.map Token.content = ty.contents) (hrest : AtItemEnd rest) :
    reachesType 0 (ts ++ rest) = Text.sameIgnoringCase ty.name "TYPE" := by
  obtain ⟨t, us, rfl, hkind, htext, hus⟩ := exists_of_type h hts
  have hbehind : reachesType 0 (us ++ rest) = false := by
    obtain ⟨-, rfl⟩ | ⟨-, hgroup⟩ := hus
    · exact reachesType_atItemEnd hrest
    · rw [reachesType_group hgroup, reachesType_atItemEnd hrest]
  have hnest : t.nest 0 = 0 := by simp [Token.nest, hkind]
  rw [List.cons_append, reachesType, hnest, hbehind, htext]
  simp [hkind]

theorem group_behind_type {ty : TypeExpr} (h : ty.Spelled room)
    (hts : ts.map Token.content = ty.contents) (hrest : AtItemEnd rest) :
    (ts ++ rest)[1]?.any (·.kind == .openParen) = !ty.args.isEmpty := by
  obtain ⟨t, us, rfl, hkind, -, ⟨hargs, rfl⟩ | ⟨hargs, o, us, rfl, ho, -⟩⟩ := exists_of_type h hts
  · rw [hargs, List.singleton_append, List.getElem?_cons_succ, ← List.head?_eq_getElem?,
      hrest.not_kind (by decide)]
    rfl
  · simp [ho, hargs]

theorem not_verb_behind_type {ty : TypeExpr} (h : ty.Spelled room)
    (hts : ts.map Token.content = ty.contents) (hrest : AtItemEnd rest) :
    (ts ++ rest)[1]?.any isConstraintVerb = false := by
  obtain ⟨t, us, rfl, hkind, -, ⟨-, rfl⟩ | ⟨-, o, us, rfl, ho, -⟩⟩ := exists_of_type h hts
  · rw [List.singleton_append, List.getElem?_cons_succ, ← List.head?_eq_getElem?]
    refine hrest.any_eq_false fun t ht => ?_
    simp only [List.mem_cons, List.not_mem_nil, or_false] at ht
    obtain ht | ht := ht <;> simp [isConstraintVerb, ht]
  · simp [isConstraintVerb, ho]

theorem startsEntry_definition (h : SpelledColumn column)
    (hts : ts.map Token.content = definitionContents column) (hrest : AtItemEnd rest) :
    startsEntry (ts ++ rest) = isMistaken column := by
  obtain ⟨name, us, rfl, hkind, -, hus⟩ := exists_of_content_cons hts
  rw [List.cons_append, startsEntry, hkind, wordKind, isMistaken]
  cases Keyword.ofWord? column.1 with
  | none => rfl
  | some k =>
    cases k with
    | index => exact reachesType_type h.type hus hrest
    | projection => exact group_behind_type h.type hus hrest
    | constraint => exact not_verb_behind_type h.type hus hrest
    | _ => rfl

end Types

section Entries

variable {fails : Prop} {source : String}

theorem kind_of_wordKind {name : Token} {w : String} (h : name.kind = wordKind w) :
    name.kind = .identifier ∨ ∃ k, name.kind = .keyword k := by
  rw [h, wordKind]
  cases Keyword.ofWord? w with
  | none => exact .inl rfl
  | some k => exact .inr ⟨k, rfl⟩

theorem clear_definition (h : SpelledColumn column)
    (hts : ts.map Token.content = definitionContents column) :
    Clear (endsRun (·.kind == .comma)) ts := by
  have single {t : Token} (ht : t.kind = .identifier ∨ ∃ k, t.kind = .keyword k) :
      Clear (endsRun (·.kind == .comma)) [t] := by
    obtain ht | ⟨k, ht⟩ := ht <;>
      exact .single (by simp [ht]) (by simp [ht]) (by simp [endsRun, ht])
  obtain ⟨name, _, rfl, hkind, -, hus⟩ := exists_of_content_cons hts
  obtain ⟨t, us, rfl, ht, -, hargs⟩ := exists_of_type h.type hus
  have hname := kind_of_wordKind hkind
  have hbehind : Clear (endsRun (·.kind == .comma)) us := by
    obtain ⟨-, rfl⟩ | ⟨-, hgroup⟩ := hargs
    · exact .nil
    · exact hgroup.clear fun o ho => by simp [endsRun, ho]
  exact (single hname).append ((single (.inl ht)).append hbehind)

theorem reads_columnOptions (hrest : AtItemEnd rest) (budget : Nat) (decl : ColumnDecl) :
    Reads fails (columnOptions source (budget + 1) decl) [] rest (· = decl) := by
  obtain ⟨t, ht, hends⟩ := (Option.any_eq_true _ _).1 hrest
  have hkind : t.kind = .comma ∨ t.kind = .closeParen := by simpa [Token.endsItem] using hends
  have hnone : Reads fails (columnOption? source decl) [] rest (· = none) := by
    refine .peek? ?_
    rw [List.nil_append, ht, Option.map_some]
    obtain hkind | hkind := hkind <;> rw [hkind] <;> exact .pure rfl
  refine hnone.skip_eq ?_
  exact .pure rfl

/-- A definition without options: a name, and what is read as a type. -/
theorem reads_columnDef_of_type {name : Token} {ty : TypeExpr}
    (hname : name.kind = .identifier ∨ ∃ k, name.kind = .keyword k)
    (htype : Reads fails columnType us rest (· = ty)) (hrest : AtItemEnd rest) :
    Reads fails (columnDef source) (name :: us) rest (·.nameAndType = (name.text, ty)) := by
  have hread : Reads fails expectColumnName [name] (us ++ rest) (· = name.text) := by
    refine ((Reads.require ?_).mono fun _ ht => by rw [ht]).map
    obtain hk | ⟨k, hk⟩ := hname <;> simp [Token.isName, hk]
  refine hread.next_eq (.get fun p => ?_)
  refine htype.last_eq (.get fun p => ?_)
  refine (reads_columnOptions hrest 99999 _).mono fun decl hdecl => ?_
  rw [hdecl]
  rfl

theorem reads_columnDef (h : SpelledColumn column)
    (hts : ts.map Token.content = definitionContents column) (hrest : AtItemEnd rest) :
    Reads fails (columnDef source) ts rest (·.nameAndType = column) := by
  obtain ⟨name, us, rfl, hkind, htext, hus⟩ := exists_of_content_cons hts
  have htype : ReadsBack fails columnType (TypeExpr.Spelled maxTypeDepth) :=
    reads_typeExpr maxTypeDepth
  have hread : Reads fails (columnDef source) (name :: us) rest
      (·.nameAndType = (name.text, column.2)) :=
    reads_columnDef_of_type (kind_of_wordKind hkind) (htype _ h.type us rest hus hrest) hrest
  rwa [htext] at hread

/-- A definition adds its column to those before it, unless it is mistaken. -/
theorem reads_columnListEntry (h : SpelledColumn column)
    (hts : ts.map Token.content = definitionContents column) (hrest : AtItemEnd rest)
    {columns : Array ColumnDecl} (hcount : columns.size < Ceiling.columnCount.limit)
    (hfails : isMistaken column = true → fails) :
    Reads fails (columnListEntry source columns) ts rest fun after =>
      after.toList.map ColumnDecl.nameAndType =
        columns.toList.map ColumnDecl.nameAndType ++ kept [column] := by
  refine .get fun p => ?_
  rw [startsEntry_definition h hts hrest, kept]
  cases hm : isMistaken column with
  | true =>
    have hend : ∀ t ∈ rest.head?, endsRun (·.kind == .comma) t = true := by
      intro t ht
      have hends : t.endsItem = true := by
        rw [AtItemEnd, Option.mem_def.1 ht] at hrest
        exact hrest
      rw [endsRun, Bool.or_assoc, Bool.or_comm (t.kind == .closeParen)]
      exact Bool.or_inr hends
    have hrun : Reads fails (discard (run (·.kind == .comma))) ts rest fun _ => True :=
      (((reads_run (clear_definition h hts) hend).weaken fun _ => hfails hm).mono
        fun _ _ => trivial).map
    exact hrun.last fun _ _ => .pure (by simp [hm])
  | false =>
    refine (reads_columnDef h hts hrest).last fun decl hdecl => ?_
    refine (Reads.check (by rwa [Array.size_push])).last fun _ _ => .pure ?_
    simp [hm, hdecl]

/-- The definition at hand is read, and then what stands behind it. -/
theorem reads_columnEntries_step (h : SpelledColumn column)
    (hts : ts.map Token.content = definitionContents column) (hrest : AtItemEnd (us ++ rest))
    {columns : Array ColumnDecl} (hcount : columns.size < Ceiling.columnCount.limit)
    (hfails : isMistaken column = true → fails) {budget : Nat} {Q : Array ColumnDecl → Prop}
    (hnext : ∀ after : Array ColumnDecl, after.toList.map ColumnDecl.nameAndType =
        columns.toList.map ColumnDecl.nameAndType ++ kept [column] →
      Reads fails (do
        if ← eat .comma then columnEntries source budget after
        else
          discard (expect .closeParen .columnListEnd)
          return after) us rest Q) :
    Reads fails (columnEntries source (budget + 1) columns) (ts ++ us) rest Q := by
  have hopen : (ts ++ (us ++ rest)).head?.any (·.kind == .closeParen) = false := by
    obtain ⟨name, more, rfl, hkind, -, -⟩ := exists_of_content_cons hts
    obtain hk | ⟨k, hk⟩ := kind_of_wordKind hkind <;> simp [hk]
  refine (Reads.eat_not (by rwa [List.append_assoc])).skip_eq ?_
  exact (reads_columnListEntry h hts hrest hcount hfails).bind hnext

theorem reads_columnEntries {columns : List NameAndType} (h : ∀ c ∈ column :: columns, SpelledColumn c)
    (hfails : ∀ c ∈ column :: columns, isMistaken c = true → fails) {budget : Nat}
    (hbudget : columns.length < budget) {before : Array ColumnDecl}
    (hcount : before.size + columns.length < Ceiling.columnCount.limit)
    (hts : ts.map Token.content =
      definitionContents column ++ tailContents (columns.map definitionContents)) :
    Reads fails (columnEntries source budget before) ts rest fun after =>
      after.toList.map ColumnDecl.nameAndType =
        before.toList.map ColumnDecl.nameAndType ++ kept (column :: columns) := by
  induction columns generalizing column budget before ts with
  | nil =>
    obtain ⟨us, vs, rfl, hus, hvs⟩ := List.map_eq_append_iff.1 hts
    obtain ⟨close, rfl, hclose, -⟩ := exists_of_content_singleton hvs
    obtain ⟨budget, rfl⟩ := Nat.exists_eq_add_one_of_ne_zero (Nat.ne_zero_of_lt hbudget)
    have hend : AtItemEnd ([close] ++ rest) := by simp [AtItemEnd, Token.endsItem, hclose]
    refine reads_columnEntries_step (h column (by simp)) hus hend hcount
      (hfails column (by simp)) fun after hafter => ?_
    refine (Reads.eat_not (by simp [hclose])).skip_eq ?_
    exact (Reads.discard_expect hclose).last fun _ _ => .pure hafter
  | cons next columns ih =>
    obtain ⟨us, vs, rfl, hus, hvs⟩ := List.map_eq_append_iff.1 hts
    obtain ⟨comma, vs, rfl, hcomma, -, hmore⟩ := exists_of_content_cons hvs
    obtain ⟨budget, rfl⟩ := Nat.exists_eq_add_one_of_ne_zero (Nat.ne_zero_of_lt hbudget)
    have hend : AtItemEnd (comma :: vs ++ rest) := by simp [AtItemEnd, Token.endsItem, hcomma]
    refine reads_columnEntries_step (h column (by simp)) hus hend (by omega)
      (hfails column (by simp)) fun after hafter => ?_
    refine (Reads.eat hcomma).next_eq ?_
    have hsize : after.size ≤ before.size + 1 := by
      have hlength := congrArg List.length hafter
      simp only [List.length_append, List.length_map, Array.length_toList] at hlength
      exact hlength ▸ Nat.add_le_add_left (List.length_filter_le _ _) _
    refine (ih (List.forall_mem_cons.1 h).2 (List.forall_mem_cons.1 hfails).2
      (Nat.lt_of_succ_lt_succ hbudget) ?_ hmore).mono fun all hall => ?_
    · rw [List.length_cons] at hcount
      omega
    · rw [hall, hafter, List.append_assoc, ← kept_cons]

end Entries

section Statements

variable {fails : Prop} {source : String}

/-- A word that may stand here and does not. -/
theorem reads_absent {k : Keyword} {g : Grammar Unit}
    (h : rest.head?.any (·.kind == .keyword k) = false) :
    Reads fails (do if ← eatKeyword k then g) [] rest fun _ => True := by
  refine (Reads.eat_not h).skip_eq ?_
  exact .pure trivial

theorem reads_tableKind {t : Token} (h : t.kind = .keyword .table) :
    Reads fails tableKind [t] rest fun _ => True := by
  refine (Reads.eat_not (by simp [h])).skip_eq ?_
  refine (Reads.eat h).last_eq ?_
  exact .pure trivial

theorem reads_tableHeader {create table name o : Token} (hcreate : create.kind = .keyword .create)
    (htable : table.kind = .keyword .table) (hname : name.kind = .identifier)
    (ho : o.kind = .openParen) :
    Reads fails tableHeader [create, table, name] (o :: rest) fun _ => True := by
  have htemporary : Reads fails (discard (eatKeyword .temporary)) [] (table :: name :: o :: rest)
      fun _ => True := ((Reads.eat_not (by simp [htable])).mono fun _ _ => trivial).map
  have hqualified : Reads fails (qualifiedName .tableName) [name] (o :: rest) fun _ => True :=
    have hname : name.isName = true := by simp [Token.isName, hname]
    (reads_qualifiedName_single hname (by simp [ho])).mono fun _ _ => trivial
  refine (Reads.expectKeyword hcreate).next fun _ _ => ?_
  refine (reads_absent (by simp [htable])).skip fun _ _ => ?_
  refine htemporary.skip fun _ _ => ?_
  refine (reads_tableKind htable).next fun kind _ => ?_
  refine (reads_absent (by simp [hname])).skip fun _ _ => ?_
  refine hqualified.last fun parts _ => ?_
  refine (reads_absent (by simp [ho])).skip fun _ _ => .looksAt ?_
  rw [List.nil_append, List.getElem?_cons_zero, Option.any_some, ho]
  exact .pure trivial

theorem reads_tableClauses (budget : Nat) (table : TableDecl) :
    Reads fails (tableClauses source budget table) [] [] (· = table) := by
  unfold tableClauses
  exact .peek? (.pure rfl)

/-- A statement without clauses declares what its column list is read as. -/
theorem reads_statement_of_list {create table name o : Token} {P : List ColumnDecl → Prop}
    (hcreate : create.kind = .keyword .create) (htable : table.kind = .keyword .table)
    (hname : name.kind = .identifier) (ho : o.kind = .openParen)
    (hlist : Reads fails (columnList source) (o :: us) [] P) (hempty : P [] → fails) :
    Reads fails (statement source) (create :: table :: name :: o :: us) []
      fun table => P table.columns := by
  have hheader : Reads fails tableHeader [create, table, name] (o :: us ++ []) fun _ => True :=
    reads_tableHeader hcreate htable hname ho
  refine hheader.bind fun table _ => .looksAt ?_
  simp only [List.cons_append, List.getElem?_cons_zero, Option.any_some, ho]
  refine hlist.last fun decls hdecls => ?_
  refine (reads_tableClauses _ { table with columns := decls }).last_eq ?_
  dsimp only
  split
  · next hnone =>
    rw [List.isEmpty_iff.1 hnone] at hdecls
    exact .skip (P := fun _ => False) (.throw (hempty hdecls)) nofun
  · exact .pure hdecls

/-- Only columns that are mistaken are lost, and there is no other way for the statement to fail. -/
theorem reads_statement (source : String) {columns : List NameAndType}
    (h : ∀ c ∈ column :: columns, SpelledColumn c)
    (hcount : columns.length < Ceiling.columnCount.limit)
    (hts : ts.map Token.content = contents (createText (column :: columns)).toList) :
    Reads (∃ c ∈ column :: columns, isMistaken c = true) (statement source) ts [] fun table =>
      table.columns.map ColumnDecl.nameAndType = kept (column :: columns) := by
  rw [contents_createText h] at hts
  obtain ⟨create, _, rfl, hcreate, -, hts⟩ := exists_of_content_cons hts
  obtain ⟨table, _, rfl, htable, -, hts⟩ := exists_of_content_cons hts
  obtain ⟨name, _, rfl, hname, -, hts⟩ := exists_of_content_cons hts
  obtain ⟨o, more, rfl, ho, -, hts⟩ := exists_of_content_cons hts
  have hfails : ∀ c ∈ column :: columns, isMistaken c = true →
      ∃ c ∈ column :: columns, isMistaken c = true := fun c hc hm => ⟨c, hc, hm⟩
  have hsize : (#[] : Array ColumnDecl).size + columns.length < Ceiling.columnCount.limit := by
    simpa using hcount
  have hlist : Reads (∃ c ∈ column :: columns, isMistaken c = true) (columnList source)
      (o :: more) [] fun decls => decls.map ColumnDecl.nameAndType = kept (column :: columns) := by
    refine (Reads.discard_expect ho).next fun _ _ => ?_
    refine (reads_columnEntries h hfails (hcount.trans (by decide)) hsize hts).last
      fun decls hdecls => .pure ?_
    simpa using hdecls
  refine reads_statement_of_list hcreate htable hname ho hlist fun hdecls => ?_
  have hlost : isMistaken column = true := by
    simpa using List.filter_eq_nil_iff.1 hdecls.symm column (by simp)
  exact ⟨column, by simp, hlost⟩

end Statements

end Grammar

/-- Names and types of the columns of a statement, if it is read. -/
def readColumns? (text : String) : Option (List NameAndType) :=
  match Grammar.statement text (.ofTokens (tokenize text)) with
  | .ok table _ => some (table.columns.map ColumnDecl.nameAndType)
  | .error _ _ => none

theorem readColumns?_createText {columns : List NameAndType} (hne : columns ≠ [])
    (hcount : columns.length ≤ Ceiling.columnCount.limit) (h : ∀ c ∈ columns, SpelledColumn c) :
    readColumns? (createText columns) = some (kept columns) ∨
      readColumns? (createText columns) = none ∧ ∃ c ∈ columns, isMistaken c = true := by
  obtain ⟨column, columns, rfl⟩ := List.exists_cons_of_ne_nil hne
  have hreads := Grammar.reads_statement (createText (column :: columns)) h hcount
    (map_content_tokenize _) 0
  rw [List.append_nil] at hreads
  rw [readColumns?, Cursor.ofTokens]
  split at hreads
  · next table c hread =>
    rw [hread]
    exact .inl (congrArg some hreads.2)
  · next e c hread =>
    rw [hread]
    exact .inr ⟨rfl, hreads⟩

/-- The definitions of a column list are read as the columns that they define exactly if none of
them is mistaken for an index or a projection. Those that are mistaken are lost, and no others. -/
theorem columns_of_createText (columns : List NameAndType) (hne : columns ≠ [])
    (hcount : columns.length ≤ Ceiling.columnCount.limit)
    (h : ∀ column ∈ columns, isWord column.1 = true ∧ column.2.IsUnquoted) :
    (readColumns? (createText columns) = some columns ↔
      ∀ column ∈ columns, isMistaken column = false) ∧
    ∀ read ∈ readColumns? (createText columns), read = kept columns := by
  have hspelled : ∀ c ∈ columns, SpelledColumn c := fun c hc =>
    ⟨(h c hc).1, TypeExpr.isUnquoted_iff.1 (h c hc).2⟩
  have hkept : kept columns = columns ↔ ∀ column ∈ columns, isMistaken column = false := by
    simp [kept, List.filter_eq_self]
  obtain hread | ⟨hread, c, hc, hm⟩ := readColumns?_createText hne hcount hspelled
  · rw [hread, Option.some_inj]
    exact ⟨hkept, fun read hr => (Option.some_inj.1 hr).symm⟩
  · rw [hread]
    refine ⟨⟨nofun, fun hall => ?_⟩, nofun⟩
    rw [hall c hc] at hm
    contradiction

/-- Columns named by keywords, none of which is mistaken. -/
def keywordColumns : List NameAndType :=
  [("order", .plain "UInt8"), ("Index", .plain "UInt64"), ("projection", .plain "String")]

theorem columns_of_createText_keywords : keywordColumns ≠ [] ∧
    keywordColumns.length ≤ Ceiling.columnCount.limit ∧
    (∀ column ∈ keywordColumns, isWord column.1 = true ∧ column.2.IsUnquoted) ∧
    readColumns? (createText keywordColumns) = some keywordColumns := by
  have hall : ∀ column ∈ keywordColumns, isWord column.1 = true ∧ column.2.IsUnquoted := by
    decide +kernel
  have hnone : ∀ column ∈ keywordColumns, isMistaken column = false := by decide +kernel
  exact ⟨nofun, by decide, hall,
    (columns_of_createText keywordColumns nofun (by decide) hall).1.2 hnone⟩

/-- A column that is named as a projection is, and has a type with arguments. -/
def projectionArray : List NameAndType :=
  [("id", .plain "UInt8"), ("projection", .mk "Array" [.type (.plain "String")])]

theorem columns_of_projectionArray :
    (∀ column ∈ projectionArray, isWord column.1 = true ∧ column.2.IsUnquoted) ∧
    (readColumns? (createText projectionArray)).map (·.map Prod.fst) = some ["id"] ∧
    readColumns? (createText projectionArray) ≠ some projectionArray := by
  have hread : (readColumns? (createText projectionArray)).map (·.map Prod.fst) = some ["id"] := by
    decide +kernel
  refine ⟨by decide +kernel, hread, fun h => ?_⟩
  rw [h] at hread
  contradiction

end TypedTables
