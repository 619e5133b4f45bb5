import TypedTables.Proofs.Render.Declarations
import TypedTables.Proofs.Text.Capitals

/-!
What a module declares for a table whose name is ASCII are identifiers: the interface of the table
and the constant of its validator.
-/

namespace TypedTables

open Text

/-- The words of the generated language that cannot be declared, as a value or as a type. -/
def reservedWords : List String :=
  ["break", "case", "catch", "class", "const", "continue", "debugger", "default", "delete", "do",
   "else", "enum", "export", "extends", "false", "finally", "for", "function", "if", "import", "in",
   "instanceof", "new", "null", "return", "super", "switch", "this", "throw", "true", "try",
   "typeof", "var", "void", "while", "with", "implements", "interface", "let", "package", "private",
   "protected", "public", "static", "yield", "await", "arguments", "eval", "any", "unknown",
   "never", "number", "bigint", "boolean", "string", "symbol", "object", "undefined"]

/-- A name that may be declared: an ASCII identifier that is not reserved. -/
structure IsDeclarable (name : String) : Prop where
  shape : ∃ c rest, name.toList = c :: rest ∧ isKeyStart c = true ∧ ∀ d ∈ rest, isKeyPart d = true
  unreserved : name ∉ reservedWords

theorem isKeyStart_of_isUpper {c : Char} (h : c.isUpper = true) : isKeyStart c = true := by
  simp [isKeyStart, Char.isAlpha, h]

theorem isKeyPart_of_isAlphanum {c : Char} (h : c.isAlphanum = true) : isKeyPart c = true := by
  simp [isKeyPart, h]

/-- Reserved words start with small letters. -/
theorem isDeclarable_of_isCapitalized {name : String} (h : IsCapitalized name) :
    IsDeclarable name := by
  obtain ⟨c, rest, hname, hrest, hc⟩ := h
  constructor
  · refine ⟨c, rest, hname, ?_, fun d hd => isKeyPart_of_isAlphanum (hrest d hd)⟩
    obtain hc | ⟨rfl, -⟩ := hc
    · exact isKeyStart_of_isUpper hc
    · decide
  · intro hmem
    have hall : reservedWords.all (fun word =>
        word.toList.head?.all fun c => !c.isUpper && c != '_') = true := by decide +kernel
    have hword := List.all_eq_true.1 hall name hmem
    rw [hname] at hword
    obtain hc | ⟨rfl, -⟩ := hc <;> simp_all

theorem Text.IsCapitalized.append {name suffix : String} (h : IsCapitalized name)
    (hs : suffix.toList.all Char.isAlphanum = true) : IsCapitalized (name ++ suffix) := by
  obtain ⟨c, rest, hname, hrest, hc⟩ := h
  refine ⟨c, rest ++ suffix.toList, by simp [hname],
    List.forall_mem_append.2 ⟨hrest, List.all_eq_true.1 hs⟩, ?_⟩
  refine hc.imp_right fun ⟨hline, d, hd, hdigit⟩ => ⟨hline, d, ?_, hdigit⟩
  rw [Option.mem_def] at hd ⊢
  rw [List.head?_append, hd]
  rfl

section Tables

theorem declaredName_ne_empty_of_checkTables {seen : Index MappedTable} {tables : List MappedTable}
    (h : checkTables seen tables = .ok ()) : ∀ table ∈ tables, table.declaredName ≠ "" := by
  induction tables generalizing seen with
  | nil => exact nofun
  | cons table tables ih =>
    obtain ⟨-, -, hrest⟩ := of_checkTables_cons h
    refine List.forall_mem_cons.2 ⟨fun hname => ?_, ih hrest⟩
    have hblank : allBlank table.declaredName = true := by rw [hname]; rfl
    rw [checkTables, hblank, Bool.true_or, if_pos rfl] at h
    contradiction

theorem declaredName_ne_empty_of_validateTables {tables : List MappedTable}
    (h : validateTables tables = .ok ()) : ∀ table ∈ tables, table.declaredName ≠ "" :=
  declaredName_ne_empty_of_checkTables (Ceiling.check_bind_eq_ok.1 h).2

theorem declaredName_of_resolve {options : ResolveOptions} {decls : List TableDecl}
    {tables : List MappedTable} (h : resolve options decls = .ok tables) :
    ∀ table ∈ tables, table.declaredName = pascalCase table.sourceName := by
  intro table ht
  obtain ⟨-, -, h⟩ := of_resolve h
  obtain ⟨decl, -, catalog, hfrom⟩ := exists_of_forall₂ (from_of_resolveFrom h).flip ht
  rw [hfrom.declaredName, hfrom.sourceName]

namespace Interface

theorem Part.subset_of_ofTable {validators : Bool} {table : MappedTable} {ps : List Part}
    (h : ofTable validators table = .ok ps) : ofInterface table ⊆ ps ∧
      (validators = true → ∃ expr, ofValidator table expr ⊆ ps) := by
  cases validators with
  | false =>
    cases h
    exact ⟨List.subset_append_left _ _, nofun⟩
  | true =>
    obtain ⟨_, hschema, h⟩ := bind_eq_ok.1 h
    obtain ⟨expr, -, rfl⟩ := map_eq_ok.1 hschema
    cases h
    exact ⟨List.subset_append_left _ _, fun _ => ⟨expr, List.subset_append_right _ _⟩⟩

/-- The parts of a table are parts of the module. -/
theorem exists_ofTable_of_parts {validators : Bool} {tables : List MappedTable} {ps : List Part}
    (h : parts validators tables = .ok ps) {table : MappedTable} (ht : table ∈ tables) :
    ∃ own, Part.ofTable validators table = .ok own ∧ own ⊆ ps := by
  obtain ⟨usage, sections, -, -, hsections, rfl⟩ := exists_usage h
  obtain ⟨own, hown, hof⟩ := exists_of_forall₂ (mapM_eq_ok.1 hsections) ht
  exact ⟨own, hof, fun part hpart => List.mem_append_right _ (List.mem_flatten.2 ⟨own, hown, hpart⟩)⟩

/-- The spelling of an ASCII name is empty if there is no letter or digit in it, and otherwise a
capitalized identifier with the same letters. So what a module declares for a table whose name is
ASCII are identifiers. -/
theorem isDeclarable_declaredName :
    (∀ name : String, IsAscii name →
      (pascalCase name = "" ↔ ∀ c ∈ name.toList, c.isAlphanum = false) ∧
      (pascalCase name = "" ∨ IsCapitalized (pascalCase name)) ∧
      letters (pascalCase name) = letters name) ∧
    (∀ (options : ResolveOptions) (decls : List TableDecl) (tables : List MappedTable),
      resolve options decls = .ok tables →
        ∀ table ∈ tables, table.declaredName = pascalCase table.sourceName) ∧
    ∀ (validators : Bool) (tables : List MappedTable) (text : String),
      render validators tables = .ok text →
        ∃ ps, parts validators tables = .ok ps ∧ Part.texts ps = text ∧
          ∀ table ∈ tables, IsAscii table.sourceName →
            table.declaredName = pascalCase table.sourceName →
              IsDeclarable table.declaredName ∧
              (∃ doc fields, .interface doc table.declaredName fields ∈ ps) ∧
              IsDeclarable (table.declaredName ++ "Schema") ∧
              (validators = true → ∃ expr, .validator table.declaredName expr ∈ ps) := by
  refine ⟨fun name h => ⟨pascalCase_eq_empty_iff h, ?_, letters_pascalCase h⟩,
    fun _ _ _ => declaredName_of_resolve, ?_⟩
  · exact or_iff_not_imp_left.2 (isCapitalized_pascalCase h)
  · intro validators tables text h
    rw [render_eq] at h
    obtain ⟨ps, hps, htext⟩ := map_eq_ok.1 h
    refine ⟨ps, hps, htext, fun table ht hascii hname => ?_⟩
    obtain ⟨usage, sections, hvalid, -⟩ := exists_usage hps
    obtain ⟨own, hown, hsub⟩ := exists_ofTable_of_parts hps ht
    have hne := declaredName_ne_empty_of_validateTables hvalid table ht
    have hcap : IsCapitalized table.declaredName := by
      rw [hname] at hne ⊢
      exact isCapitalized_pascalCase hascii hne
    obtain ⟨hinterface, hvalidator⟩ := Part.subset_of_ofTable hown
    have last {part : Part} : part ∈ [.emptyLine, part] := List.mem_cons_of_mem _ List.mem_cons_self
    refine ⟨isDeclarable_of_isCapitalized hcap, ⟨_, _, hsub (hinterface last)⟩,
      isDeclarable_of_isCapitalized (hcap.append (by decide)), fun h => ?_⟩
    exact (hvalidator h).imp fun expr hvalidator => hsub (hvalidator last)

/-- A name that starts with a digit and has characters between its words that are neither letters nor
digits. -/
def dailyStats : TableDecl where
  name := "2024-daily_XMLStats.v2"
  columns := [⟨"day", .plain "Date", "Date", none, none, none⟩]

theorem isDeclarable_dailyStats : ∃ tables text,
    resolve {} [dailyStats] = .ok tables ∧ render true tables = .ok text ∧
      tables.map (·.declaredName) = ["_2024DailyXmlStatsV2"] ∧
      ∃ ps, parts true tables = .ok ps ∧ Part.texts ps = text ∧ ∀ table ∈ tables,
        IsDeclarable table.declaredName ∧
          (∃ doc fields, .interface doc table.declaredName fields ∈ ps) ∧
          IsDeclarable (table.declaredName ++ "Schema") ∧
          ∃ expr, .validator table.declaredName expr ∈ ps := by
  obtain ⟨-, hresolved, hrendered⟩ := isDeclarable_declaredName
  have h : (resolve {} [dailyStats]).toOption.any (fun tables =>
      tables.map (·.declaredName) = ["_2024DailyXmlStatsV2"] ∧
        (∀ table ∈ tables, IsAscii table.sourceName) ∧
        (render true tables).toOption.any fun _ => true) = true := by decide +kernel
  obtain ⟨tables, hresolve, h⟩ := exists_of_any h
  obtain ⟨hnames, hascii, h⟩ := of_decide_eq_true h
  obtain ⟨text, hrender, -⟩ := exists_of_any h
  obtain ⟨ps, hps, htext, hall⟩ := hrendered true tables text hrender
  refine ⟨tables, text, hresolve, hrender, hnames, ps, hps, htext, fun table ht => ?_⟩
  obtain ⟨hdecl, hinterface, hconst, hvalidator⟩ :=
    hall table ht (hascii table ht) (hresolved _ _ tables hresolve table ht)
  exact ⟨hdecl, hinterface, hconst, hvalidator rfl⟩

end Interface

end Tables

end TypedTables
