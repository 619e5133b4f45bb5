import TypedTables.Proofs.Grammar.ColumnList

/-!
Statements with one column, of which the type is given as a piece of text. A piece that is read as a
type wherever an item of a list may stand is read as the type of the column; so what a type displays
as is read back as that type.
-/

namespace TypedTables

open Lexeme

/-- A statement with one column `c` that has a type written so. -/
def columnText (rawType : String) : String := "CREATE TABLE t (c " ++ rawType ++ ")"

variable {fails : Prop} {source rawType : String} {content : List (TokenKind × String)}
  {ty : TypeExpr} {us rest : List Token}

namespace Grammar

/-- Tokens with the contents are read as the type wherever an item of a list may end behind them. -/
def ReadsAs (fails : Prop) (content : List (TokenKind × String)) (ty : TypeExpr) : Prop :=
  ∀ us rest, us.map Token.content = content → AtItemEnd rest →
    Reads fails columnType us rest (· = ty)

theorem startsEntry_of_identifier {name : Token} (h : name.kind = .identifier)
    (rest : List Token) : startsEntry (name :: rest) = false := by
  rw [startsEntry, h]

/-- A column list with one definition. -/
theorem reads_columnList_single {o name close : Token} (ho : o.kind = .openParen)
    (hname : name.kind = .identifier) (hclose : close.kind = .closeParen)
    (htype : ReadsAs fails (us.map Token.content) ty) :
    Reads fails (columnList source) (o :: name :: (us ++ [close])) rest
      fun decls => decls.map ColumnDecl.nameAndType = [(name.text, ty)] := by
  have hend : AtItemEnd ([close] ++ rest) := by simp [AtItemEnd, Token.endsItem, hclose]
  have hdef : Reads fails (columnDef source) (name :: us) ([close] ++ rest)
      (·.nameAndType = (name.text, ty)) :=
    reads_columnDef_of_type (.inl hname) (htype us _ rfl hend) hend
  have hentry : Reads fails (columnListEntry source #[]) (name :: us) ([close] ++ rest)
      fun decls => decls.toList.map ColumnDecl.nameAndType = [(name.text, ty)] := by
    refine .get fun p => ?_
    rw [List.cons_append, startsEntry_of_identifier hname]
    refine hdef.last fun decl hdecl => ?_
    exact (Reads.check (by rw [Array.size_push]; decide)).last fun _ _ => .pure (by simp [hdecl])
  have hentries : Reads fails (columnEntries source (Ceiling.steps .columnList).limit #[])
      (name :: us ++ [close]) rest
      fun decls => decls.toList.map ColumnDecl.nameAndType = [(name.text, ty)] := by
    have hopen : (name :: us ++ ([close] ++ rest)).head?.any (·.kind == .closeParen) = false := by
      simp [hname]
    refine (Reads.eat_not (by rwa [List.append_assoc])).skip_eq ?_
    refine hentry.bind fun decls hdecls => ?_
    refine (Reads.eat_not (by simp [hclose])).skip_eq ?_
    exact (Reads.discard_expect hclose).last fun _ _ => .pure hdecls
  refine (Reads.discard_expect ho).next fun _ _ => ?_
  exact hentries.last fun decls hdecls => .pure hdecls

end Grammar

theorem contents_columnText (h : Written rawType.toList content) :
    contents (columnText rawType).toList = (.keyword .create, "CREATE") ::
      (.keyword .table, "TABLE") :: (.identifier, "t") :: (.openParen, "(") ::
        (.identifier, "c") :: (content ++ [(.closeParen, ")")]) := by
  have hblank : Text.isBlank ' ' = true := Text.isBlank_iff.2 (by decide)
  have htext : (columnText rawType).toList = "CREATE TABLE t (".toList ++
      ("c".toList ++ ' ' :: (rawType.toList ++ [')'])) := by
    have hfront : "CREATE TABLE t (c " = "CREATE TABLE t (" ++ ("c" ++ " ") := by decide
    unfold columnText
    simp only [hfront, String.toList_append, List.append_assoc]
    rfl
  have hname : wordKind "c" = .identifier := by decide +kernel
  rw [htext, contents_header, contents_word (by decide +kernel) (by rintro _ ⟨⟩; rfl), hname,
    contents_blank hblank, h _ ⟨')', [], rfl, by decide⟩, contents_symbol (by decide) rfl,
    contents_nil]

/-- What is written in the place of a type is read as the type of the column. -/
theorem readColumns?_columnText (hraw : Written rawType.toList content)
    (htype : Grammar.ReadsAs False content ty) :
    readColumns? (columnText rawType) = some [("c", ty)] := by
  have hts := map_content_tokenize (columnText rawType)
  rw [contents_columnText hraw] at hts
  generalize htokens : tokenize (columnText rawType) = ts at hts
  obtain ⟨create, _, rfl, hcreate, -, hts⟩ := exists_of_content_cons hts
  obtain ⟨table, _, rfl, htable, -, hts⟩ := exists_of_content_cons hts
  obtain ⟨name, _, rfl, hname, -, hts⟩ := exists_of_content_cons hts
  obtain ⟨o, _, rfl, ho, -, hts⟩ := exists_of_content_cons hts
  obtain ⟨c, _, rfl, hc, hctext, hts⟩ := exists_of_content_cons hts
  obtain ⟨us, _, rfl, hus, hclose⟩ := List.map_eq_append_iff.1 hts
  obtain ⟨close, rfl, hclose, -⟩ := exists_of_content_singleton hclose
  have hlist : Grammar.Reads False (Grammar.columnList (columnText rawType))
      (o :: c :: (us ++ [close])) []
      fun decls => decls.map ColumnDecl.nameAndType = [(c.text, ty)] :=
    Grammar.reads_columnList_single ho hc hclose (hus ▸ htype)
  have hreads := (Grammar.reads_statement_of_list hcreate htable hname ho hlist nofun).exists_ok 0
  obtain ⟨table, cursor, hread, -, hcolumns⟩ := hreads
  rw [List.append_nil] at hread
  rw [readColumns?, Cursor.ofTokens, htokens, hread]
  dsimp only
  rw [hcolumns, hctext]

/-- A type that has been read, no type name in it quoted, is read back from what it displays as. -/
theorem readColumns?_display (h : ty.IsUnquoted) :
    readColumns? (columnText ty.display) = some [("c", ty)] := by
  have hspelled : ty.Spelled maxTypeDepth := TypeExpr.isUnquoted_iff.1 h
  exact readColumns?_columnText (written_type hspelled)
    fun us rest hus hrest => Grammar.reads_typeExpr maxTypeDepth ty hspelled us rest hus hrest

/-- A type with an argument of each kind, quotes and line breaks in texts, and signs. -/
def eventType : TypeExpr :=
  .mk "Map" [.type (.mk "LowCardinality" [.type (.plain "String")]),
    .type (.mk "Tuple" [
      .type (.mk "Enum8" [.member "it's" (-128), .member "\\\n--" 0, .string "bare"]),
      .type (.mk "Decimal" [.number "18", .number "-0.5e3"]),
      .type (.mk "DateTime64" [.number "3", .string "/* UTC"])])]

theorem readColumns?_display_eventType : eventType.IsUnquoted ∧
    readColumns? (columnText eventType.display) = some [("c", eventType)] :=
  have h : eventType.IsUnquoted := by decide +kernel
  ⟨h, readColumns?_display h⟩

end TypedTables
