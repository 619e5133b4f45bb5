import TypedTables.Proofs.Render.Names
import TypedTables.Script

/-!
The parts that a generated module is written in, and the type names that they declare: the interface
of each table, and what the columns of all tables reach.
-/

namespace TypedTables

/-- A leaf stands in a type where outputs show it: keys of maps are not shown. -/
inductive TypeExpr.Reaches (kind : Leaf) : TypeExpr → Prop
  | leaf {ty : TypeExpr} (hs : ty.shape = .leaf kind) : Reaches kind ty
  | nullable {ty inner : TypeExpr} (hs : ty.shape = .nullable inner) (h : inner.Reaches kind) :
    Reaches kind ty
  | transparent {ty inner : TypeExpr} (hs : ty.shape = .transparent inner)
    (h : inner.Reaches kind) : Reaches kind ty
  | array {ty item : TypeExpr} (hs : ty.shape = .array item) (h : item.Reaches kind) :
    Reaches kind ty
  | tuple {ty item : TypeExpr} {items : List TypeExpr} (hs : ty.shape = .tuple items)
    (hitem : item ∈ items) (h : item.Reaches kind) : Reaches kind ty
  | map {ty value : TypeExpr} (hs : ty.shape = .map value) (h : value.Reaches kind) :
    Reaches kind ty

theorem TypeExpr.reaches_iff {kind : Leaf} {ty : TypeExpr} : ty.Reaches kind ↔
    match ty.shape with
    | .nullable inner | .transparent inner | .array inner | .map inner => inner.Reaches kind
    | .tuple items => ∃ item ∈ items, item.Reaches kind
    | .enumeration _ | .unknown _ => False
    | .leaf leaf => leaf = kind := by
  constructor
  · intro h
    cases h with
    | leaf hs => rw [hs]
    | tuple hs hitem h => rw [hs]; exact ⟨_, hitem, h⟩
    | nullable hs h | transparent hs h | array hs h | map hs h => rw [hs]; exact h
  · intro h
    cases hs : ty.shape with
    | nullable inner => rw [hs] at h; exact .nullable hs h
    | transparent inner => rw [hs] at h; exact .transparent hs h
    | array item => rw [hs] at h; exact .array hs h
    | tuple items =>
      rw [hs] at h
      obtain ⟨item, hitem, h⟩ := h
      exact .tuple hs hitem h
    | map value => rw [hs] at h; exact .map hs h
    | leaf leaf => rw [hs] at h; exact .leaf (h ▸ hs)
    | enumeration | unknown => rw [hs] at h; contradiction

def MappedTable.Reaches (table : MappedTable) (kind : Leaf) : Prop :=
  ∃ column ∈ table.columns, column.type.Reaches kind

namespace Interface

/-- A part of a generated module: doc comments belong to the interface behind them. -/
inductive Part
  | header
  | emptyLine
  | validatorImport
  | decimalImport
  | brand (family : AddressFamily)
  | interface (doc name fields : String)
  | validator (name expr : String)
  deriving DecidableEq

namespace Part

def text : Part → String
  | header => Interface.header
  | emptyLine => "\n"
  | validatorImport => "import \x7b z \x7d from 'zod';\n"
  | decimalImport => "import Decimal from 'decimal.js';\n"
  | brand family => Interface.brand family ++ "\n"
  | interface doc name fields =>
    doc ++ "export interface " ++ name ++ " \x7b\n" ++ fields ++ "\x7d\n"
  | validator name expr => "export const " ++ name ++ "Schema = " ++ expr ++ ";\n"

/-- The type name that a part declares. -/
def typeName? : Part → Option String
  | decimalImport => some "Decimal"
  | brand family => some family.name
  | interface _ name _ => some name
  | header | emptyLine | validatorImport | validator .. => none

/-- Parts with an empty line before them, if there are any. -/
def block (parts : List Part) : List Part := if parts.isEmpty then [] else emptyLine :: parts

def imports (validators : Bool) (usage : Usage) : List Part :=
  block ((if validators then [validatorImport] else []) ++
    if usage.decimal then [decimalImport] else [])

def brands (usage : Usage) : List Part :=
  block ((if usage.ipv4 then [brand .v4] else []) ++ if usage.ipv6 then [brand .v6] else [])

def ofInterface (table : MappedTable) : List Part :=
  [emptyLine, interface (doc "" (tableDoc table)) table.declaredName
    (String.join (table.columns.map field))]

def ofValidator (table : MappedTable) (expr : String) : List Part :=
  [emptyLine, validator table.declaredName expr]

def ofTable (validators : Bool) (table : MappedTable) : Except Error (List Part) := do
  let schema ← if validators then ofValidator table <$> Validator.ofTable table else pure []
  return ofInterface table ++ schema

/-- What the parts of a module amount to. -/
def texts (parts : List Part) : String := String.join (parts.map text)

end Part

/-- The parts of the module for a list of tables. -/
def parts (validators : Bool) (tables : List MappedTable) : Except Error (List Part) := do
  validateTables tables
  let usage ← Usage.ofTables tables
  let sections ← tables.mapM (Part.ofTable validators)
  return .header :: Part.imports validators usage ++ Part.brands usage ++ sections.flatten

section Texts

theorem Part.texts_append (xs ys : List Part) : texts (xs ++ ys) = texts xs ++ texts ys := by
  simp [texts]

theorem Part.texts_block (xs : List Part) (lines : List String)
    (h : xs.map text = lines.map (· ++ "\n")) : texts (block xs) = Interface.block lines := by
  cases xs with
  | nil =>
    obtain rfl : lines = [] := List.map_eq_nil_iff.1 h.symm
    rfl
  | cons x xs =>
    cases lines with
    | nil => contradiction
    | cons line lines =>
      change String.join ("\n" :: (x :: xs).map text) = "\n" ++ String.join _
      rw [h]
      simp

theorem Part.texts_imports (validators : Bool) (usage : Usage) :
    texts (imports validators usage) = Interface.imports validators usage := by
  refine texts_block _ _ ?_
  cases validators <;> cases usage.decimal <;> decide

theorem Part.texts_brands (usage : Usage) : texts (brands usage) = Interface.brands usage := by
  refine texts_block _ _ ?_
  cases usage.ipv4 <;> cases usage.ipv6 <;> decide

theorem Part.texts_ofTable (validators : Bool) (table : MappedTable) :
    declaration validators table = texts <$> ofTable validators table := by
  have hinterface : "\n" ++ Interface.ofTable table = texts (ofInterface table) := by
    simp [texts, ofInterface, text, Interface.ofTable]
  have hvalidator (expr : String) :
      Interface.validator table expr = texts (ofValidator table expr) := by
    simp [texts, ofValidator, text, Interface.validator, ← String.toList_inj]
  cases validators with
  | false =>
    change Except.ok _ = Except.ok _
    rw [hinterface, texts_append]
    rfl
  | true =>
    unfold declaration ofTable
    cases Validator.ofTable table with
    | error e => rfl
    | ok expr =>
      change Except.ok ("\n" ++ Interface.ofTable table ++ Interface.validator table expr) =
        Except.ok (texts (ofInterface table ++ ofValidator table expr))
      rw [hinterface, hvalidator, texts_append]

/-- A module is written part by part. -/
theorem render_eq (validators : Bool) (tables : List MappedTable) :
    render validators tables = Part.texts <$> parts validators tables := by
  have hsections : tables.mapM (declaration validators) =
      List.map Part.texts <$> tables.mapM (Part.ofTable validators) := by
    rw [← mapM_map]
    exact congrArg tables.mapM (funext (Part.texts_ofTable validators))
  have hjoin (sections : List (List Part)) :
      String.join (sections.map Part.texts) = Part.texts sections.flatten := by
    induction sections with
    | nil => rfl
    | cons part sections ih =>
      rw [List.flatten_cons, Part.texts_append, ← ih]
      simp
  unfold render parts
  rw [hsections]
  cases validateTables tables with
  | error e => rfl
  | ok =>
    cases Usage.ofTables tables with
    | error e => rfl
    | ok usage =>
      cases tables.mapM (Part.ofTable validators) with
      | error e => rfl
      | ok sections =>
        change Except.ok (header ++ imports validators usage ++ brands usage ++
          String.join (sections.map Part.texts)) = Except.ok (Part.texts _)
        rw [Part.texts_append, Part.texts_append, ← List.singleton_append, Part.texts_append, hjoin,
          Part.texts_brands, Part.texts_imports]
        rfl

end Texts

/-- A declaration that a module supplies itself. -/
inductive Supply
  | decimal
  | address (family : AddressFamily)
  deriving DecidableEq

namespace Supply

def all : List Supply := [decimal, address .v4, address .v6]

theorem mem_all (s : Supply) : s ∈ all := by
  cases s with
  | decimal => decide
  | address family => cases family <;> decide

def name : Supply → String
  | decimal => "Decimal"
  | address family => family.name

def part : Supply → Part
  | decimal => .decimalImport
  | address family => .brand family

/-- The leaf whose mapped type has the name. -/
def leaf : Supply → Leaf
  | decimal => .decimal
  | address family => .address family

/-- Whether the leaf is represented by the name. -/
def represents (options : MappingOptions) : Supply → Bool
  | decimal => options.decimal == .arbitraryPrecision
  | address _ => true

/-- Some column of the table refers to the name. -/
def NeededBy (s : Supply) (table : MappedTable) : Prop :=
  s.represents table.representation = true ∧ table.Reaches s.leaf

theorem name_injective : Function.Injective name := by
  intro s t h
  have hall : all.all (fun s => all.all fun t => s.name ≠ t.name || s = t) = true := by decide
  simpa [h] using List.all_eq_true.1 (List.all_eq_true.1 hall s s.mem_all) t t.mem_all

end Supply

namespace Usage

def has (usage : Usage) : Supply → Bool
  | .decimal => usage.decimal
  | .address .v4 => usage.ipv4
  | .address .v6 => usage.ipv6

@[simp] theorem has_empty (s : Supply) : ({} : Usage).has s = false := by
  cases s with
  | decimal => rfl
  | address family => cases family <;> rfl

@[simp] theorem has_merge (a b : Usage) (s : Supply) :
    (a.merge b).has s = (a.has s || b.has s) := by
  cases s with
  | decimal => rfl
  | address family => cases family <;> rfl

theorem has_foldl {usages : List Usage} {s : Supply} :
    (usages.foldl merge {}).has s = usages.any (·.has s) := by
  suffices h : ∀ usage, (usages.foldl merge usage).has s = (usage.has s || usages.any (·.has s)) by
    simpa using h {}
  induction usages with
  | nil => simp
  | cons u usages ih => simp [ih, Bool.or_assoc]

theorem has_leaf (kind : Leaf) (s : Supply) : (fold.leaf kind).has s = (kind == s.leaf) := by
  cases s with
  | decimal => rfl
  | address family => cases family <;> rfl

theorem has_of_runWithin {room : Nat} {ty : TypeExpr} {usage : Usage}
    (h : fold.runWithin room ty = .ok usage) (s : Supply) :
    usage.has s = true ↔ ty.Reaches s.leaf := by
  induction room generalizing ty usage with
  | zero => contradiction
  | succ room ih =>
    rw [TypeFold.runWithin_succ_eq_ok (fun _ _ => rfl)] at h
    rw [TypeExpr.reaches_iff]
    cases hs : ty.shape with
    | nullable inner | array inner | map inner =>
      rw [hs] at h
      obtain ⟨_, h, rfl⟩ := h
      exact ih h
    | transparent inner =>
      rw [hs] at h
      exact ih h
    | tuple items =>
      rw [hs] at h
      obtain ⟨-, usages, h, rfl⟩ := h
      rw [fold, has_foldl, List.any_eq_true]
      constructor
      · rintro ⟨usage, hu, hhas⟩
        obtain ⟨item, hitem, h⟩ := exists_of_forall₂ h.flip hu
        exact ⟨item, hitem, (ih h).1 hhas⟩
      · rintro ⟨item, hitem, hreaches⟩
        obtain ⟨usage, hu, h⟩ := exists_of_forall₂ h hitem
        exact ⟨usage, hu, (ih h).2 hreaches⟩
    | enumeration keys =>
      rw [hs] at h
      obtain ⟨-, rfl⟩ := h
      simp [fold]
    | leaf kind =>
      rw [hs] at h
      rw [← h, has_leaf, beq_iff_eq]
    | unknown name =>
      rw [hs] at h
      rw [← Except.ok.inj h, has_empty]
      simp

theorem has_ofColumn {options : MappingOptions} {column : ResolvedColumn} {usage : Usage}
    (h : ofColumn options column = .ok usage) (s : Supply) :
    usage.has s = true ↔ s.represents options = true ∧ column.type.Reaches s.leaf := by
  obtain ⟨leaves, hrun, h⟩ := bind_eq_ok.1 h
  rw [← has_of_runWithin hrun, ← Except.ok.inj h]
  cases s with
  | decimal => simp [has, Supply.represents, and_comm]
  | address family => cases family <;> simp [has, Supply.represents]

theorem has_ofTable {table : MappedTable} {usage : Usage} (h : ofTable table = .ok usage)
    (s : Supply) : usage.has s = true ↔ s.NeededBy table := by
  obtain ⟨usages, hcolumns, h⟩ := bind_eq_ok.1 h
  rw [mapM_eq_ok] at hcolumns
  rw [← Except.ok.inj h, has_foldl, List.any_eq_true]
  constructor
  · rintro ⟨usage, hu, hhas⟩
    obtain ⟨column, hc, h⟩ := exists_of_forall₂ hcolumns.flip hu
    obtain ⟨hrep, hreaches⟩ := (has_ofColumn h s).1 hhas
    exact ⟨hrep, column, hc, hreaches⟩
  · rintro ⟨hrep, column, hc, hreaches⟩
    obtain ⟨usage, hu, h⟩ := exists_of_forall₂ hcolumns hc
    exact ⟨usage, hu, (has_ofColumn h s).2 ⟨hrep, hreaches⟩⟩

theorem has_ofTables {tables : List MappedTable} {usage : Usage} (h : ofTables tables = .ok usage)
    (s : Supply) : usage.has s = true ↔ ∃ table ∈ tables, s.NeededBy table := by
  obtain ⟨usages, htables, h⟩ := bind_eq_ok.1 h
  rw [mapM_eq_ok] at htables
  rw [← Except.ok.inj h, has_foldl, List.any_eq_true]
  constructor
  · rintro ⟨usage, hu, hhas⟩
    obtain ⟨table, ht, h⟩ := exists_of_forall₂ htables.flip hu
    exact ⟨table, ht, (has_ofTable h s).1 hhas⟩
  · rintro ⟨table, ht, hneeded⟩
    obtain ⟨usage, hu, h⟩ := exists_of_forall₂ htables ht
    exact ⟨usage, hu, (has_ofTable h s).2 hneeded⟩

/-- What a module declares for the leaves that its columns reach. -/
def supplies (usage : Usage) : List Supply := Supply.all.filter usage.has

theorem mem_supplies {usage : Usage} {s : Supply} : s ∈ usage.supplies ↔ usage.has s = true := by
  simp [supplies, s.mem_all]

theorem nodup_supplies (usage : Usage) : usage.supplies.Nodup :=
  List.Nodup.filter _ (by decide)

end Usage

section Names

theorem unseen_of_checkTables {seen : Index MappedTable} {tables : List MappedTable}
    (h : checkTables seen tables = .ok ()) : Unseen MappedTable.declaredName seen tables := by
  induction tables generalizing seen with
  | nil => simp [Unseen]
  | cons table tables ih =>
    obtain ⟨hs, -, h⟩ := of_checkTables_cons h
    exact unseen_cons.2 ⟨hs, ih h⟩

theorem nodup_of_validateTables {tables : List MappedTable} (h : validateTables tables = .ok ()) :
    (tables.map (·.declaredName)).Nodup :=
  unseen_empty.1 (unseen_of_checkTables (Ceiling.check_bind_eq_ok.1 h).2)

namespace Part

/-- The type names that parts declare, in their order. -/
def typeNames (parts : List Part) : List String := parts.filterMap typeName?

theorem typeNames_append (xs ys : List Part) :
    typeNames (xs ++ ys) = typeNames xs ++ typeNames ys := List.filterMap_append

theorem typeNames_needed (validators : Bool) (usage : Usage) :
    typeNames (imports validators usage) ++ typeNames (brands usage) =
      usage.supplies.map Supply.name := by
  obtain ⟨decimal, ipv4, ipv6⟩ := usage
  revert validators decimal ipv4 ipv6
  decide

theorem typeNames_ofTable {validators : Bool} {table : MappedTable} {parts : List Part}
    (h : ofTable validators table = .ok parts) : typeNames parts = [table.declaredName] := by
  cases validators with
  | false =>
    cases h
    rfl
  | true =>
    obtain ⟨_, hschema, h⟩ := bind_eq_ok.1 h
    obtain ⟨expr, -, rfl⟩ := map_eq_ok.1 hschema
    cases h
    rfl

theorem typeNames_flatten {validators : Bool} {tables : List MappedTable}
    {sections : List (List Part)} (h : tables.mapM (ofTable validators) = .ok sections) :
    typeNames sections.flatten = tables.map (·.declaredName) := by
  rw [mapM_eq_ok] at h
  induction h with
  | nil => rfl
  | cons hpart _ ih =>
    rw [List.flatten_cons, typeNames_append, typeNames_ofTable hpart, ih]
    rfl

end Part

/-- What is known of the parts of a module. -/
theorem exists_usage {validators : Bool} {tables : List MappedTable} {ps : List Part}
    (h : parts validators tables = .ok ps) : ∃ usage sections,
      validateTables tables = .ok () ∧ Usage.ofTables tables = .ok usage ∧
      tables.mapM (Part.ofTable validators) = .ok sections ∧
      ps = .header :: Part.imports validators usage ++ Part.brands usage ++ sections.flatten := by
  obtain ⟨_, hvalid, h⟩ := bind_eq_ok.1 h
  obtain ⟨usage, husage, h⟩ := bind_eq_ok.1 h
  obtain ⟨sections, hsections, h⟩ := bind_eq_ok.1 h
  exact ⟨usage, sections, hvalid, husage, hsections, (Except.ok.inj h).symm⟩

/-- A module is written part by part, and declares a type name twice exactly if a table has the name
of something that the module supplies itself. -/
theorem typeNames_nodup_iff {validators : Bool} {tables : List MappedTable} {text : String}
    (h : render validators tables = .ok text) :
    ∃ ps, parts validators tables = .ok ps ∧ Part.texts ps = text ∧
      ((Part.typeNames ps).Nodup ↔ ∀ s : Supply,
        ¬((∃ table ∈ tables, table.declaredName = s.name) ∧ ∃ table ∈ tables, s.NeededBy table)) := by
  rw [render_eq] at h
  obtain ⟨ps, hps, rfl⟩ := map_eq_ok.1 h
  refine ⟨ps, hps, rfl, ?_⟩
  obtain ⟨usage, sections, hvalid, husage, hsections, rfl⟩ := exists_usage hps
  have hnames : Part.typeNames
      (.header :: Part.imports validators usage ++ Part.brands usage ++ sections.flatten) =
        usage.supplies.map Supply.name ++ tables.map (·.declaredName) := by
    rw [Part.typeNames_append, ← Part.typeNames_needed validators, Part.typeNames_flatten hsections,
      ← Part.typeNames_append]
    rfl
  have hsupplies := usage.nodup_supplies.map Supply.name_injective
  simp only [hnames, List.nodup_append, hsupplies, nodup_of_validateTables hvalid, true_and,
    List.mem_map, Usage.mem_supplies, Usage.has_ofTables husage]
  constructor
  · rintro h s ⟨⟨table, ht, hname⟩, hneeded⟩
    exact h s.name ⟨s, hneeded, rfl⟩ s.name ⟨table, ht, hname⟩ rfl
  · rintro h _ ⟨s, hneeded, rfl⟩ _ ⟨table, ht, rfl⟩ hname
    exact h s ⟨⟨table, ht, hname.symm⟩, hneeded⟩

def preciseDecimals : ResolveOptions := { decimal := .arbitraryPrecision }

/-- The modules that a script with precise decimals amounts to. -/
def preciseParts (source : String) : Except Error (List Part) := do
  let report ← readScript source
  let tables ← resolve preciseDecimals report.tables.toList
  parts false tables

/-- Tables are told apart by their declared names, but from nothing else that declares a type. -/
theorem typeNames_decimal : ∃ report tables text ps,
    readScript "CREATE TABLE decimal (a Decimal(10, 2))" = .ok report ∧
      resolve preciseDecimals report.tables.toList = .ok tables ∧
      render false tables = .ok text ∧ parts false tables = .ok ps ∧ Part.texts ps = text ∧
      Part.typeNames ps = ["Decimal", "Decimal"] := by
  have h : (preciseParts "CREATE TABLE decimal (a Decimal(10, 2))").toOption.any (fun ps =>
      Part.typeNames ps = ["Decimal", "Decimal"]) = true := by decide +kernel
  obtain ⟨ps, hps, h⟩ := exists_of_any h
  obtain ⟨report, hread, hps⟩ := bind_eq_ok.1 hps
  obtain ⟨tables, hresolve, hps⟩ := bind_eq_ok.1 hps
  exact ⟨report, tables, _, ps, hread, hresolve, by rw [render_eq, hps]; rfl, hps, rfl,
    of_decide_eq_true h⟩

def prices : TableDecl where
  name := "prices"
  columns := [⟨"price", .plain "Decimal", "Decimal", none, none, none⟩]

theorem typeNames_nodup_prices : ∃ tables text,
    resolve preciseDecimals [prices] = .ok tables ∧ render false tables = .ok text ∧
      ∃ ps, parts false tables = .ok ps ∧ Part.texts ps = text ∧ (Part.typeNames ps).Nodup := by
  have h : (resolve preciseDecimals [prices]).toOption.any (fun tables =>
      tables.map (·.declaredName) = ["Prices"] ∧ (render false tables).toOption.any fun _ => true) =
        true := by decide +kernel
  obtain ⟨tables, hresolve, h⟩ := exists_of_any h
  obtain ⟨hnames, h⟩ := of_decide_eq_true h
  obtain ⟨text, hrender, -⟩ := exists_of_any h
  obtain ⟨ps, hps, htexts, hiff⟩ := typeNames_nodup_iff hrender
  refine ⟨tables, text, hresolve, hrender, ps, hps, htexts, hiff.2 ?_⟩
  rintro s ⟨⟨table, ht, hname⟩, -⟩
  have hmem : s.name ∈ tables.map (·.declaredName) := hname ▸ List.mem_map_of_mem ht
  have hall : ∀ s ∈ Supply.all, s.name ∉ ["Prices"] := by decide
  exact hall s s.mem_all (hnames ▸ hmem)

end Names

end Interface

end TypedTables
