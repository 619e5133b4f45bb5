import TypedTables.Proofs.Render.Complete
import TypedTables.Proofs.Render.Tokens

/-!
What the literals of generated code say. In the types and validators of a table each key of an
enumeration and each quoted column name stands as one literal, in the order of the source. A literal
says what it was written for as long as that has no line break: line breaks are written as they are.
-/

namespace TypedTables

open CodeToken (isWordPart opensLiteral)
open Text (isBlank)

/-- What a literal with some content stands for. One that goes on over the end of a line is none. -/
def literalValue? (content : List Char) : Option String :=
  if '\n' ∈ content ∨ '\r' ∈ content then none else String.ofList <$> unescape? content

/-- The value as far as a literal that holds it as it is can be read. -/
def readable (value : String) : Option String :=
  if '\n' ∈ value.toList ∨ '\r' ∈ value.toList then none else some value

/-- What a token stands for if it is a literal. -/
def TsToken.value? : TsToken → Option (Option String)
  | .literal _ content => some (literalValue? content)
  | _ => none

def TsScan.literals (scan : TsScan) (code : List Char) : List (Option String) :=
  (scan.tokens code).filterMap TsToken.value?

/-- What the literals of code stand for, one after another. -/
def literals (code : List Char) : List (Option String) := TsScan.literals (.code []) code

section Content

theorem mem_literalContent {c : Char} (hc : c ∉ ['\\', '\x27']) (value : String) :
    c ∈ literalContent value ↔ c ∈ value.toList := by
  have hescape (d : Char) : c ∈ quoted.escape d ↔ c = d := by
    unfold quoted.escape
    split
    · simp_all
    · simp_all
    · exact List.mem_singleton
  simp [literalContent, List.mem_flatMap, hescape]

theorem literalValue?_literalContent (value : String) :
    literalValue? (literalContent value) = readable value := by
  have hfeed : '\n' ∈ literalContent value ↔ '\n' ∈ value.toList :=
    mem_literalContent (by decide) value
  have hreturn : '\r' ∈ literalContent value ↔ '\r' ∈ value.toList :=
    mem_literalContent (by decide) value
  simp [literalValue?, readable, unescape?_literalContent, hfeed, hreturn]

/-- A value is read back unless it has a line break. -/
theorem readable_eq_some (value : String) :
    readable value = some value ↔ '\n' ∉ value.toList ∧ '\r' ∉ value.toList := by
  simp [readable, not_or]

end Content

section Spells

variable {cs ds rest : List Char} {values others : List String}

/-- Code whose literals stand for some values, as far as they can be read. -/
def Spells (cs : List Char) (values : List String) : Prop := ∀ rest,
  literals (cs ++ rest) = values.map readable ++ literals rest

theorem Spells.literals_eq (h : Spells cs values) : literals cs = values.map readable := by
  have hall := h []
  rwa [List.append_nil, show literals [] = [] from rfl, List.append_nil] at hall

theorem Spells.nil : Spells [] [] := fun _ => rfl

theorem Spells.append (h : Spells cs values) (h' : Spells ds others) :
    Spells (cs ++ ds) (values ++ others) := fun rest => by
  rw [List.append_assoc, h, h', List.map_append, List.append_assoc]

theorem value?_ended (letters : List Char) :
    (TsToken.ended letters).filterMap TsToken.value? = [] := by
  unfold TsToken.ended
  split_ifs <;> rfl

/-- A word before code makes no difference to its literals. -/
theorem literals_code (letters cs : List Char) :
    TsScan.literals (.code letters) cs = literals cs := by
  induction cs generalizing letters with
  | nil => exact value?_ended letters
  | cons c cs ih =>
    simp only [TsScan.literals, TsScan.tokens, TypedTables.literals] at ih ⊢
    split_ifs
    · rw [ih, ih [c]]
    · rw [List.filterMap_append, List.filterMap_append, value?_ended, value?_ended]
    · rw [List.filterMap_append, List.filterMap_append, value?_ended, value?_ended]
    · rw [List.filterMap_append, List.filterMap_append, value?_ended, value?_ended]

theorem literals_cons {c : Char} (hc : opensLiteral c = false) (cs : List Char) :
    literals (c :: cs) = literals cs := by
  rw [literals, TsScan.literals, TsScan.tokens, hc, if_neg Bool.false_ne_true]
  split_ifs
  · exact literals_code [c] cs
  · rw [List.filterMap_append, value?_ended]
    rfl
  · rw [List.filterMap_append, value?_ended]
    rfl

theorem spells_of_plain (h : ∀ c ∈ cs, opensLiteral c = false) : Spells cs [] := by
  induction cs with
  | nil => exact .nil
  | cons c cs ih =>
    obtain ⟨hc, hcs⟩ := List.forall_mem_cons.1 h
    intro rest
    rw [List.cons_append, literals_cons hc, ih hcs]

theorem spells_text (text : String) (h : text.toList.all (!opensLiteral ·) = true) :
    Spells text.toList [] :=
  spells_of_plain fun c hc => by simpa using List.all_eq_true.1 h c hc

theorem spells_quoted (value : String) : Spells (quoted value).toList [value] := fun rest => by
  rw [literals, TsScan.literals, ← tsTokens, tsTokens_quoted, List.filterMap_cons, TsToken.value?,
    literalValue?_literalContent]
  rfl

/-- A name that is no bare key is written as a literal. -/
def keyLiterals (name : String) : List String :=
  if propertyKey name = quoted name then [name] else []

theorem isKeyPart_of_bare {name : String} (h : propertyKey name ≠ quoted name) :
    ∀ c ∈ name.toList, isKeyPart c = true := by
  unfold propertyKey at h
  split at h
  · next c rest hname =>
    split_ifs at h with hkey
    · rw [Bool.and_eq_true, List.all_eq_true] at hkey
      rw [hname]
      exact List.forall_mem_cons.2 ⟨MemberReader.isKeyPart_of_isKeyStart hkey.1, hkey.2⟩
    · contradiction
  · contradiction

theorem opensLiteral_of_isKeyPart {c : Char} (h : isKeyPart c = true) : opensLiteral c = false := by
  cases hc : opensLiteral c with
  | false => rfl
  | true =>
    simp only [opensLiteral, Bool.or_eq_true, decide_eq_true_eq] at hc
    obtain (rfl | rfl) | rfl := hc <;> contradiction

theorem spells_propertyKey (name : String) :
    Spells (propertyKey name).toList (keyLiterals name) := by
  unfold keyLiterals
  split_ifs with hkey
  · rw [hkey]
    exact spells_quoted name
  · obtain ⟨hbare, -⟩ := (propertyKey_cases name).resolve_right hkey
    rw [hbare]
    exact spells_of_plain fun c hc => opensLiteral_of_isKeyPart (isKeyPart_of_bare hkey c hc)

/-- A property spells its key, if that is quoted, and what its text spells. -/
theorem Spells.property {text : String} (h : Spells text.toList values) (name : String) :
    Spells (propertyKey name ++ ": " ++ text).toList (keyLiterals name ++ values) := by
  rw [String.toList_append, String.toList_append]
  simpa using ((spells_propertyKey name).append (spells_text ": " (by decide))).append h

/-- What stands around code that has literals has none of its own. -/
theorem Spells.wrap {code : String} (h : Spells code.toList values) (before behind : String)
    (hbefore : before.toList.all (!opensLiteral ·) = true)
    (hbehind : behind.toList.all (!opensLiteral ·) = true) :
    Spells (before ++ code ++ behind).toList values := by
  rw [String.toList_append, String.toList_append]
  simpa using ((spells_text _ hbefore).append h).append (spells_text _ hbehind)

theorem spells_intercalate (separator : String)
    (hseparator : separator.toList.all (!opensLiteral ·) = true)
    {values : List (List String)} {texts : List String}
    (h : List.Forall₂ (fun values text => Spells text.toList values) values texts) :
    Spells (separator.intercalate texts).toList values.flatten := by
  rw [String.toList_intercalate]
  induction h with
  | nil => exact .nil
  | @cons value text values texts htext hrest ih =>
    cases hrest with
    | nil => simpa using htext
    | cons hnext hrest =>
      rw [List.map_cons, List.map_cons, List.intercalate_cons_cons]
      simpa using (htext.append (spells_text separator hseparator)).append ih

end Spells

section Indent

open Layout

variable {cs rest : List Char} {values : List String}

/-- Once a literal goes on over the end of a line, it does not matter what else it holds. -/
theorem literals_broken {quote : Char} {escape : Bool} {content content' : List Char}
    (h : '\n' ∈ content) (h' : '\n' ∈ content') (cs : List Char) :
    TsScan.literals (.literal quote escape content) cs =
      TsScan.literals (.literal quote escape content') cs := by
  induction cs generalizing escape content content' with
  | nil => rfl
  | cons c cs ih =>
    have hmore (escape : Bool) : TsScan.literals (.literal quote escape (c :: content)) cs =
        TsScan.literals (.literal quote escape (c :: content')) cs :=
      ih (List.mem_cons_of_mem c h) (List.mem_cons_of_mem c h')
    cases escape with
    | true => exact hmore false
    | false =>
      simp only [TsScan.literals, TsScan.tokens] at hmore ⊢
      split_ifs
      · exact hmore true
      · simp [TsToken.value?, literalValue?, h, h']
      · exact hmore false

theorem literals_literal {quote c : Char} (hslash : c ≠ '\\') (hquote : c ≠ quote)
    (content cs : List Char) : TsScan.literals (.literal quote false content) (c :: cs) =
      TsScan.literals (.literal quote false (c :: content)) cs := by
  rw [TsScan.literals, TsScan.tokens, if_neg hslash, if_neg hquote]
  rfl

/-- A scan that stands inside a literal knows its quote. -/
def TsScan.Quoted : TsScan → Prop
  | .code _ => True
  | .literal quote _ _ => opensLiteral quote = true

theorem literals_blanks {quote : Char} (h : opensLiteral quote = true) {content : List Char}
    (hbroken : '\n' ∈ content) (cs : List Char) :
    TsScan.literals (.literal quote false content) (' ' :: ' ' :: cs) =
      TsScan.literals (.literal quote false content) cs := by
  have hquote : ' ' ≠ quote := by
    rintro rfl
    contradiction
  rw [literals_literal (by decide) hquote, literals_literal (by decide) hquote]
  exact literals_broken (by simp [hbroken]) hbroken cs

/-- Code that has been moved to the right has the literals it had. -/
theorem literals_indentChars (scan : TsScan) (h : scan.Quoted) :
    scan.literals (indentChars cs ++ rest) = scan.literals (cs ++ rest) := by
  induction cs generalizing scan with
  | nil => rfl
  | cons c cs ih =>
    have hliteral {quote : Char} (escape : Bool) (content : List Char)
        (hq : opensLiteral quote = true) := ih (.literal quote escape content) hq
    have hstep : indentChars (c :: cs) = indentChars [c] ++ indentChars cs :=
      indentChars_append [c] cs
    rw [hstep, List.append_assoc, List.cons_append]
    by_cases hc : c = '\n'
    · subst hc
      change scan.literals ('\n' :: ' ' :: ' ' :: (indentChars cs ++ rest)) = _
      cases scan with
      | code letters =>
        rw [literals_code, literals_code, literals_cons rfl, literals_cons rfl, literals_cons rfl,
          literals_cons rfl]
        exact ih (.code []) trivial
      | literal quote escape content =>
        have hquote : '\n' ≠ quote := by
          rintro rfl
          contradiction
        have hblanks := literals_blanks h (List.mem_cons_self (a := '\n') (l := content))
          (indentChars cs ++ rest)
        cases escape with
        | true => exact hblanks.trans (hliteral false _ h)
        | false =>
          rw [literals_literal (by decide) hquote, literals_literal (by decide) hquote, hblanks]
          exact hliteral false _ h
    · have hplain : indentChars [c] = [c] := indentChars_of_not_mem (by simpa using Ne.symm hc)
      rw [hplain, List.singleton_append]
      cases scan with
      | code letters =>
        have hcode (letters : List Char) := ih (.code letters) trivial
        simp only [TsScan.literals, TsScan.tokens] at hcode hliteral ⊢
        split_ifs with hword hopens
        · exact hcode _
        · rw [List.filterMap_append, List.filterMap_append, hliteral false [] hopens]
        · rw [List.filterMap_append, List.filterMap_append, hcode]
        · rw [List.filterMap_append, List.filterMap_append, List.filterMap_cons,
            List.filterMap_cons, hcode]
      | literal quote escape content =>
        cases escape with
        | true => exact hliteral false _ h
        | false =>
          have hcode := ih (.code []) trivial
          simp only [TsScan.literals, TsScan.tokens] at hcode hliteral ⊢
          split_ifs
          · exact hliteral true _ h
          · rw [List.filterMap_cons, List.filterMap_cons, hcode]
          · exact hliteral false _ h

theorem Spells.indent (h : Spells cs values) : Spells (indentChars cs) values := fun rest => by
  rw [literals, literals_indentChars (.code []) trivial]
  exact h rest

end Indent

section Folds

open Layout

/-- What the literals of a type hold: the keys of its enumerations in their order, and what its
leaves are written with. -/
def literalFold (ofLeaf : Leaf → List String) : TypeFold (List String) where
  nullable values := values
  array values := values
  tuple values := values.flatten
  map values := values
  enumeration keys := keys
  leaf := ofLeaf
  unknown _ := .ok []

/-- The versions that validators of addresses are written with. -/
def versionLiterals : Leaf → List String
  | .address .v4 => ["v4"]
  | .address .v6 => ["v6"]
  | _ => []

variable {options : MappingOptions} {values : List (List String)}

/-- A property spells its key and its text. -/
abbrev SpellsField (values : List String) (field : String × String) : Prop :=
  Spells (propertyKey field.1 ++ ": " ++ field.2).toList values

theorem spellsField_fieldName {texts : List String}
    (h : List.Forall₂ (fun values text => Spells text.toList values) values texts) (k : Nat) :
    List.Forall₂ SpellsField values
      ((texts.zipIdx k).map fun (text, i) => (TsType.fieldName i, text)) := by
  induction h generalizing k with
  | nil => exact .nil
  | @cons value text values texts htext _ ih =>
    have hbare : keyLiterals (TsType.fieldName k) = [] := by
      have hne : TsType.fieldName k ≠ quoted (TsType.fieldName k) := fun h => by
        have hhead := congrArg (·.toList.head?) h
        simp [TsType.fieldName, quoted] at hhead
      rw [keyLiterals, propertyKey_fieldName, if_neg hne]
    have hfield := htext.property (TsType.fieldName k)
    rw [hbare, List.nil_append] at hfield
    exact .cons hfield (ih (k + 1))

theorem spells_lines {entries : List String}
    (h : List.Forall₂ (fun values entry => Spells entry.toList values) values entries) :
    Spells (String.join (entries.map fun entry => "  " ++ Validator.indent entry ++ ",\n")).toList
      values.flatten := by
  induction h with
  | nil => exact .nil
  | @cons value entry values entries hentry _ ih =>
    have hblank : Spells "  ".toList [] := spells_text _ (by decide)
    have hcomma : Spells ",\n".toList [] := spells_text _ (by decide)
    have hall := ((hblank.append hentry.indent).append hcomma).append ih
    simpa [toList_indent] using hall

/-- An object spells what its properties spell. -/
theorem spells_object {fields : List (String × String)}
    (h : List.Forall₂ SpellsField values fields) :
    Spells (Validator.object fields).toList values.flatten := by
  cases hfields : fields with
  | nil =>
    obtain rfl : values = [] := by simpa [hfields] using h
    exact spells_text _ (by decide)
  | cons field rest =>
    let entries := fields.map fun field => propertyKey field.1 ++ ": " ++ field.2
    have hentries : List.Forall₂ (fun values entry => Spells entry.toList values) values entries :=
      List.forall₂_map_right_iff.2 h
    rw [← hfields, Validator.object_of_ne_nil (by simp [hfields])]
    dsimp only
    split_ifs
    · exact (spells_intercalate ", " (by decide) hentries).wrap "z.object(\x7b " " \x7d)"
        (by decide) (by decide)
    · exact (spells_lines hentries).wrap "z.object(\x7b\n" "\x7d)" (by decide) (by decide)

theorem spells_keys (separator : String) (h : separator.toList.all (!opensLiteral ·) = true)
    (keys : List String) : Spells (separator.intercalate (keys.map quoted)).toList keys := by
  have hkeys : List.Forall₂ (fun values text => Spells text.toList values)
      (keys.map fun key => [key]) (keys.map quoted) := by
    rw [List.forall₂_map_left_iff, List.forall₂_map_right_iff, List.forall₂_same]
    exact fun key _ => spells_quoted key
  simpa [← List.flatMap_def] using spells_intercalate separator h hkeys

theorem spells_leaf (kind : Leaf) : Spells (TsType.leaf options kind).text.toList [] := by
  have hall : TsType.leafTexts.all (fun text => text.toList.all (!opensLiteral ·)) = true := by
    decide
  exact spells_text _ (List.all_eq_true.1 hall _ (TsType.leaf_mem options kind))

theorem spells_tuple {items : List TsType}
    (h : List.Forall₂ (fun values item => Spells item.text.toList values) values items) :
    Spells (TsType.tuple items).text.toList values.flatten := by
  cases hitems : items with
  | nil =>
    obtain rfl : values = [] := by simpa [hitems] using h
    exact spells_text _ (by decide)
  | cons item rest =>
    have hfields := spellsField_fieldName (List.forall₂_map_right_iff.2 h) 0
    rw [hitems, List.zipIdx_map, List.map_map, List.forall₂_map_right_iff] at hfields
    simp only [SpellsField, Function.comp_def, propertyKey_fieldName] at hfields
    have hinner := spells_intercalate "; " (by decide) (List.forall₂_map_right_iff.2 hfields)
    exact hinner.wrap "\x7b " " \x7d" (by decide) (by decide)

theorem respects_literals : (literalFold fun _ => []).Respects (TsType.plainFold options)
    fun values mapped => Spells mapped.text.toList values where
  nullable {values mapped} h := by
    have hall := h.wrap "" " | null" (by decide) (by decide)
    rwa [String.empty_append] at hall
  array {values mapped} h := by
    change Spells (TsType.array mapped).text.toList values
    unfold TsType.array
    split_ifs
    · exact h.wrap "(" ")[]" (by decide) (by decide)
    · have hall := h.wrap "" "[]" (by decide) (by decide)
      rwa [String.empty_append] at hall
  tuple h := spells_tuple h
  map h := h.wrap "Record<string, " ">" (by decide) (by decide)
  enumeration keys := spells_keys " | " (by decide) keys
  leaf kind := spells_leaf kind
  unknown {name values mapped} hvalues hmapped := by
    obtain rfl : values = [] := (Except.ok.inj hvalues).symm
    simp only [TsType.plainFold, TsType.fold, TsType.unknown] at hmapped
    split_ifs at hmapped
    cases hmapped
    exact spells_text _ (by decide)

/-- What the validator of an address calls its family. -/
def AddressFamily.version : AddressFamily → String
  | .v4 => "v4"
  | .v6 => "v6"

theorem Validator.leaf_address (options : MappingOptions) (family : AddressFamily) :
    leaf options (.address family) = "z.string().ip(\x7b version: " ++ quoted family.version ++
      " \x7d)" := by
  cases family <;> rw [leaf] <;> decide +kernel

theorem versionLiterals_address (family : AddressFamily) :
    versionLiterals (.address family) = [family.version] := by
  cases family <;> rfl

theorem spells_validatorLeaf (kind : Leaf) :
    Spells (Validator.leaf options kind).toList (versionLiterals kind) := by
  cases kind with
  | address family =>
    rw [Validator.leaf_address, versionLiterals_address]
    exact (spells_quoted family.version).wrap _ _ (by decide) (by decide)
  | wideInteger =>
    rw [Validator.leaf]
    split <;> exact spells_text _ (by decide)
  | decimal =>
    rw [Validator.leaf]
    split <;> exact spells_text _ (by decide)
  | date | dateTime =>
    rw [Validator.leaf]
    split <;> exact spells_text _ (by decide)
  | integer | float | boolean | text =>
    rw [Validator.leaf]
    exact spells_text _ (by decide)

theorem respects_validatorLiterals : (literalFold versionLiterals).Respects (Validator.fold options)
    fun values expr => Spells expr.toList values where
  nullable {values expr} h := by
    have hall := h.wrap "" ".nullable()" (by decide) (by decide)
    rwa [String.empty_append] at hall
  array h := h.wrap "z.array(" ")" (by decide) (by decide)
  tuple h := spells_object (spellsField_fieldName h 0)
  map h := h.wrap "z.record(z.string(), " ")" (by decide) (by decide)
  enumeration keys :=
    (spells_keys ", " (by decide) keys).wrap "z.enum([" "])" (by decide) (by decide)
  leaf := spells_validatorLeaf
  unknown {name values expr} hvalues hexpr := by
    obtain rfl : values = [] := (Except.ok.inj hvalues).symm
    obtain rfl : expr = "z.unknown()" := (Except.ok.inj hexpr).symm
    exact spells_text _ (by decide)

end Folds

/-- Code that is one literal in single quotes, and what it stands for. -/
def Denotes (code value : String) : Prop :=
  ∃ content, tsTokens code.toList = [.literal '\x27' content] ∧ literalValue? content = some value

theorem denotes_quoted (value : String) :
    Denotes (quoted value) value ↔ '\n' ∉ value.toList ∧ '\r' ∉ value.toList := by
  have htokens : tsTokens (quoted value).toList = [.literal '\x27' (literalContent value)] := by
    have hquoted := tsTokens_quoted value []
    rwa [List.append_nil] at hquoted
  rw [← readable_eq_some, ← literalValue?_literalContent]
  constructor
  · rintro ⟨content, hcontent, hvalue⟩
    obtain rfl : literalContent value = content := by simpa [htokens] using hcontent
    exact hvalue
  · exact fun h => ⟨literalContent value, htokens, h⟩

/-- What the literals of a column hold: its name if that is quoted, and what those of its type
hold. -/
def ResolvedColumn.literals (ofLeaf : Leaf → List String) (column : ResolvedColumn) :
    Except Error (List String) :=
  (keyLiterals column.name ++ ·) <$> (literalFold ofLeaf).run column.type

section Tables

variable {options : ResolveOptions} {decls : List TableDecl} {tables : List MappedTable}
  {table : MappedTable}

theorem exists_literals (h : table.Typed) (ofLeaf : Leaf → List String) :
    ∃ values, table.columns.mapM (ResolvedColumn.literals ofLeaf) = .ok values :=
  exists_mapM_iff.2 fun column hc =>
    exists_map _ (TypeFold.exists_run (fun _ _ => rfl) (fun _ => ⟨[], rfl⟩) (h.columns column hc))

theorem literals_members (h : table.Mapped) {values : List (List String)}
    (hvalues : table.columns.mapM (ResolvedColumn.literals fun _ => []) = .ok values) :
    (table.columns.map fun column =>
      literals (propertyKey column.name ++ ": " ++ column.mappedType).toList) =
      values.map (List.map readable) := by
  refine map_eq_map_of_forall₂ ?_
  have hcolumns := (List.forall₂_and_left _ _).2 ⟨h, mapM_eq_ok.1 hvalues⟩
  refine hcolumns.imp fun column values hcolumn => ?_
  obtain ⟨⟨mapped, hmapped, htext⟩, hvalues⟩ := hcolumn
  obtain ⟨keys, hkeys, rfl⟩ := map_eq_ok.1 hvalues
  have hspells := respects_literals.of_runWithin (fun _ _ => rfl) (fun _ _ => rfl) hkeys hmapped
  rw [htext] at hspells
  exact (hspells.property column.name).literals_eq

theorem literals_validator {expr : String} (hexpr : Validator.ofTable table = .ok expr)
    {values : List (List String)}
    (hvalues : table.columns.mapM (ResolvedColumn.literals versionLiterals) = .ok values) :
    literals expr.toList = values.flatten.map readable := by
  obtain ⟨fields, hfields, hexpr⟩ := bind_eq_ok.1 hexpr
  obtain rfl := Except.ok.inj hexpr
  refine Spells.literals_eq (spells_object ?_)
  refine forall₂_of_common (mapM_eq_ok.1 hvalues) (mapM_eq_ok.1 hfields) ?_
  intro column values field hvalues hfield
  obtain ⟨keys, hkeys, rfl⟩ := map_eq_ok.1 hvalues
  obtain ⟨expr, hexpr, hfield⟩ := bind_eq_ok.1 hfield
  obtain rfl := Except.ok.inj hfield
  have hspells :=
    respects_validatorLiterals.of_runWithin (fun _ _ => rfl) (fun _ _ => rfl) hkeys hexpr
  exact hspells.property column.name

/-- A quoted value is one literal, which stands for the value unless that has a line break. The
members of an interface and the validator of its table have one literal for each quoted column name
and for each key of an enumeration, in the order of the columns, and each is read back in the same
way, however deep it stands. -/
theorem literals_of_resolve (hp : options.plugins = []) (h : resolve options decls = .ok tables) :
    (∀ value, Denotes (quoted value) value ↔ '\n' ∉ value.toList ∧ '\r' ∉ value.toList) ∧
    tables.map (·.columns.map ResolvedColumn.name) =
      decls.map (·.columns.map fun column => options.casing.apply column.name) ∧
    ∀ table ∈ tables,
      (∃ members values, members? (String.join (table.columns.map Interface.field)) = some members ∧
        table.columns.mapM (ResolvedColumn.literals fun _ => []) = .ok values ∧
        members.map (literals ·.toList) = values.map (List.map readable)) ∧
      ∃ expr values, Validator.ofTable table = .ok expr ∧
        table.columns.mapM (ResolvedColumn.literals versionLiterals) = .ok values ∧
        literals expr.toList = values.flatten.map readable := by
  refine ⟨denotes_quoted, names_of_resolve h, fun table htable => ?_⟩
  have htyped := (typed_of_resolve hp h).2 table htable
  have hmapped := mapped_of_resolve hp h table htable
  obtain ⟨values, hvalues⟩ := exists_literals htyped fun _ => []
  obtain ⟨all, hall⟩ := exists_literals htyped versionLiterals
  obtain ⟨expr, hexpr⟩ := Validator.exists_ofTable htyped
  refine ⟨⟨_, values, members?_fields hmapped.wholeType, hvalues, ?_⟩,
    expr, all, hexpr, hall, literals_validator hexpr hall⟩
  rw [← literals_members hmapped hvalues, List.map_map]
  rfl

/-- A table with a column that needs a quoted key, nested in a tuple a key with a quote. -/
def quotedTable : TableDecl :=
  { name := "t"
    columns :=
      [⟨"2nd", .mk "Tuple" [.type (.mk "Enum8" [.member "it's" 1])], "", none, none, none⟩] }

theorem literals_of_resolve_quotedTable : ∃ table expr, resolve {} [quotedTable] = .ok [table] ∧
    Validator.ofTable table = .ok expr ∧ literals expr.toList = [some "2nd", some "it's"] := by
  have h : (resolve {} [quotedTable]).toOption.any (fun tables => tables.length = 1 ∧
      ∀ table ∈ tables, table.columns.mapM (ResolvedColumn.literals versionLiterals) =
        .ok [["2nd", "it's"]]) = true := by decide +kernel
  obtain ⟨tables, hresolve, h⟩ := exists_of_any h
  obtain ⟨hlength, hvalues⟩ := of_decide_eq_true h
  obtain ⟨table, rfl⟩ := List.length_eq_one_iff.1 hlength
  obtain ⟨expr, values, hexpr, hall, hliterals⟩ :=
    ((literals_of_resolve rfl hresolve).2.2 table (List.mem_singleton_self _)).2
  obtain rfl := Except.ok.inj ((hvalues table (List.mem_singleton_self _)).symm.trans hall)
  exact ⟨table, expr, hresolve, hexpr, hliterals⟩

/-- A key with a line feed is written over the end of a line, so that it is no literal. -/
theorem not_denotes_lineFeed :
    mapType {} "t" "c" (.mk "Enum8" [.member "a\nb" 1]) = .ok (quoted "a\nb") ∧
      '\n' ∈ (quoted "a\nb").toList ∧ ¬ Denotes (quoted "a\nb") "a\nb" :=
  ⟨by decide +kernel, by decide +kernel, fun h => by simpa using ((denotes_quoted _).1 h).1⟩

end Tables

end TypedTables
