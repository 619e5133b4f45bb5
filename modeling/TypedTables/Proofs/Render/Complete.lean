import TypedTables.Proofs.Render.Agreement
import TypedTables.Proofs.Render.Members

/-!
Nothing is lost between tables and what is rendered, and nothing is merged: one document and one
interface for each table, and in each of them one property for each column, all in their order.
-/

namespace TypedTables

section Names

theorem unseen_of_checkColumns {table : String} {seen : Index ResolvedColumn}
    {columns : List ResolvedColumn} (h : checkColumns table seen columns = .ok ()) :
    Unseen ResolvedColumn.name seen columns := by
  induction columns generalizing seen with
  | nil => simp [Unseen]
  | cons column columns ih =>
    rw [checkColumns] at h
    cases hs : seen.get? column.name with
    | some first =>
      rw [hs] at h
      contradiction
    | none =>
      rw [hs] at h
      cases hp : column.problem? with
      | some problem =>
        rw [hp] at h
        contradiction
      | none =>
        rw [hp] at h
        exact unseen_cons.2 ⟨hs, ih h⟩

theorem nodup_columns_of_checkTables {seen : Index MappedTable} {tables : List MappedTable}
    (h : checkTables seen tables = .ok ()) :
    ∀ table ∈ tables, (table.columns.map (·.name)).Nodup := by
  induction tables generalizing seen with
  | nil => exact List.forall_mem_nil _
  | cons table tables ih =>
    obtain ⟨-, hcolumns, h⟩ := of_checkTables_cons h
    exact List.forall_mem_cons.2 ⟨unseen_empty.1 (unseen_of_checkColumns hcolumns), ih h⟩

theorem nodup_columns_of_validateTables {tables : List MappedTable}
    (h : validateTables tables = .ok ()) :
    ∀ table ∈ tables, (table.columns.map (·.name)).Nodup :=
  nodup_columns_of_checkTables (Ceiling.check_bind_eq_ok.1 h).2

theorem escape_append_inj {c d : Char} {cs ds : List Char}
    (h : quoted.escape c ++ cs = quoted.escape d ++ ds) : c = d ∧ cs = ds := by
  unfold quoted.escape at h
  split at h <;> split at h <;> grind

theorem escape_append_ne (c : Char) (cs : List Char) : quoted.escape c ++ cs ≠ ['\x27'] := by
  unfold quoted.escape
  split <;> grind

theorem quoted_injective : Function.Injective quoted := by
  have hescape (cs ds : List Char)
      (h : cs.flatMap quoted.escape ++ ['\x27'] = ds.flatMap quoted.escape ++ ['\x27']) :
      cs = ds := by
    induction cs generalizing ds with
    | nil =>
      cases ds with
      | nil => rfl
      | cons d ds =>
        rw [List.flatMap_cons, List.append_assoc] at h
        exact absurd h.symm (escape_append_ne d _)
    | cons c cs ih =>
      rw [List.flatMap_cons, List.append_assoc] at h
      cases ds with
      | nil => exact absurd h (escape_append_ne c _)
      | cons d ds =>
        rw [List.flatMap_cons, List.append_assoc] at h
        obtain ⟨rfl, hrest⟩ := escape_append_inj h
        rw [ih ds hrest]
  intro name name' h
  have htext := String.ofList_injective h
  exact String.toList_injective (hescape _ _ (List.cons.inj htext).2)

/-- A key is the name itself, which then begins no literal, or the name as a literal. -/
theorem propertyKey_cases (name : String) :
    (propertyKey name = name ∧ name.toList.head? ≠ some '\x27') ∨
      propertyKey name = quoted name := by
  unfold propertyKey
  split
  · next c rest hname =>
    split_ifs with hkey
    · rw [Bool.and_eq_true] at hkey
      refine .inl ⟨rfl, fun hhead => ?_⟩
      obtain rfl : c = '\x27' := by simpa [hname] using hhead
      exact absurd hkey.1 (by decide)
    · exact .inr rfl
  · exact .inr rfl

theorem propertyKey_injective : Function.Injective propertyKey := by
  have hhead (name : String) : (quoted name).toList.head? = some '\x27' := by
    rw [quoted, String.toList_ofList]
    rfl
  intro name name' h
  obtain ⟨hkey, hbare⟩ | hkey := propertyKey_cases name <;>
    obtain ⟨hkey', hbare'⟩ | hkey' := propertyKey_cases name' <;> rw [hkey, hkey'] at h
  · exact h
  · exact absurd (h ▸ hhead name') hbare
  · exact absurd (h.symm ▸ hhead name) hbare'
  · exact quoted_injective h

end Names

namespace Json

/-- A value stands somewhere inside another one, or is the other one. -/
inductive Inside (inner : Json) : Json → Prop
  | refl : Inside inner inner
  | item {items : List Json} {item : Json} (hmem : item ∈ items) (h : Inside inner item) :
    Inside inner (.arr items)
  | field {fields : List (String × Json)} {field : String × Json} (hmem : field ∈ fields)
    (h : Inside inner field.2) : Inside inner (.obj fields)

theorem field?_setField {key k : String} (hne : k ≠ key) (value : Json)
    (fields : List (String × Json)) :
    (obj (setField key value fields)).field? k = (obj fields).field? k := by
  have hkey : (k == key) = false := beq_eq_false_iff_ne.2 hne
  change (setField key value fields).lookup k = fields.lookup k
  induction fields with
  | nil => rw [setField, List.lookup_cons, hkey]
  | cons field fields ih =>
    rw [setField]
    split_ifs with h
    · subst h
      rw [List.lookup_cons, List.lookup_cons, hkey]
    · rw [List.lookup_cons, List.lookup_cons, ih]

theorem mem_setField {key : String} {value : Json} {fields : List (String × Json)}
    {field : String × Json} (h : field ∈ setField key value fields) :
    field = (key, value) ∨ field ∈ fields := by
  induction fields with
  | nil => exact .inl (List.mem_singleton.1 h)
  | cons first fields ih =>
    rw [setField] at h
    split_ifs at h
    · obtain h | h := List.mem_cons.1 h
      · exact .inl h
      · exact .inr (List.mem_cons_of_mem _ h)
    · obtain rfl | h := List.mem_cons.1 h
      · exact .inr List.mem_cons_self
      · exact (ih h).imp_right (List.mem_cons_of_mem _)

theorem field?_withField {key k : String} (hne : k ≠ key) (json value : Json) :
    (json.withField key value).field? k = json.field? k := by
  cases json with
  | obj fields => exact field?_setField hne value fields
  | null | bool | int | str | arr => rfl

end Json

namespace JsonSchema

/-- An object with exactly the fields of a tuple of so many items, all of them required. -/
structure TupleOf (n : Nat) (json : Json) : Prop where
  properties : ∃ properties, json.field? "properties" = some (.obj properties) ∧
    properties.map Prod.fst = (List.range n).map TsType.fieldName
  required : json.field? "required" =
    some (.arr (((List.range n).map TsType.fieldName).map .str))

/-- Whatever has properties is an object of a tuple. -/
def TuplesOnly (json : Json) : Prop := ∀ inner properties, inner.Inside json →
  inner.field? "properties" = some properties → ∃ n, TupleOf n inner

/-- The schema shows every tuple of the type, and objects of tuples only. -/
def ShowsTuples (ty : TypeExpr) (schema : Json) : Prop :=
  TuplesOnly schema ∧ ∃ s, Skeleton.ofType ty = .ok s ∧
    ∀ path items, s.at? path = some (.tuple items) →
      ∃ json, at? schema path = some json ∧ TupleOf items.length json

/-- The document has one property for each column of the table, under its name and in its place,
and requires them all. -/
structure Describes (table : MappedTable) (document : Json) : Prop where
  properties : ∃ properties, document.field? "properties" = some (.obj properties) ∧
    properties.map Prod.fst = table.columns.map (·.name) ∧
    List.Forall₂ (fun column schema => ShowsTuples column.type schema) table.columns
      (properties.map Prod.snd)
  required : document.field? "required" =
    some (.arr (table.columns.map fun column => .str column.name))

section TuplesOnly

variable {n : Nat} {json : Json}

theorem TuplesOnly.obj {fields : List (String × Json)}
    (h : ∀ properties, (Json.obj fields).field? "properties" = some properties →
      ∃ n, TupleOf n (.obj fields))
    (hfields : ∀ field ∈ fields, TuplesOnly field.2) : TuplesOnly (.obj fields) := by
  intro inner properties hinside hproperties
  cases hinside with
  | refl => exact h properties hproperties
  | field hmem hinside => exact hfields _ hmem inner properties hinside hproperties

/-- An object without properties. -/
theorem TuplesOnly.obj_of_none {fields : List (String × Json)}
    (h : (Json.obj fields).field? "properties" = none)
    (hfields : ∀ field ∈ fields, TuplesOnly field.2) : TuplesOnly (.obj fields) :=
  .obj (fun _ hproperties => nomatch h.symm.trans hproperties) hfields

theorem TuplesOnly.arr {items : List Json} (h : ∀ item ∈ items, TuplesOnly item) :
    TuplesOnly (.arr items) := by
  intro inner properties hinside hproperties
  cases hinside with
  | refl => contradiction
  | item hmem hinside => exact h _ hmem inner properties hinside hproperties

theorem one_field {key : String} (h : TuplesOnly json) :
    ∀ field ∈ [(key, json)], TuplesOnly field.2 := fun field hmem => by
  rwa [List.mem_singleton.1 hmem]

theorem tuplesOnly_str (text : String) : TuplesOnly (.str text) := by
  intro inner properties hinside hproperties
  cases hinside
  contradiction

theorem tuplesOnly_bool (value : Bool) : TuplesOnly (.bool value) := by
  intro inner properties hinside hproperties
  cases hinside
  contradiction

theorem tuplesOnly_strings (texts : List String) : TuplesOnly (.arr (texts.map .str)) :=
  .arr fun item hmem => by
    obtain ⟨text, -, rfl⟩ := List.mem_map.1 hmem
    exact tuplesOnly_str text

theorem tupleOf_exactly {properties : List (String × Json)}
    (h : properties.map Prod.fst = (List.range n).map TsType.fieldName) :
    TupleOf n (exactly properties ((List.range n).map TsType.fieldName)) :=
  ⟨⟨properties, rfl, h⟩, rfl⟩

/-- No item of a tuple is called like what holds the items. -/
theorem field?_eq_none_of_fieldNames {properties : List (String × Json)}
    (h : properties.map Prod.fst = (List.range n).map TsType.fieldName) :
    (Json.obj properties).field? "properties" = none := by
  change properties.lookup "properties" = none
  rw [List.lookup_eq_none_iff]
  intro property hmem
  have hkey : property.1 ∈ (List.range n).map TsType.fieldName := h ▸ List.mem_map_of_mem hmem
  obtain ⟨i, -, hi⟩ := List.mem_map.1 hkey
  refine bne_iff_ne.2 fun heq => ?_
  have hletter : 'p' ∈ (TsType.fieldName i).toList := by
    rw [hi, ← heq]
    decide
  obtain h | h := isDigit_of_mem_fieldName hletter <;> contradiction

theorem tuplesOnly_exactly {properties : List (String × Json)}
    (h : properties.map Prod.fst = (List.range n).map TsType.fieldName)
    (hproperties : ∀ property ∈ properties, TuplesOnly property.2) :
    TuplesOnly (exactly properties ((List.range n).map TsType.fieldName)) := by
  have hnone := field?_eq_none_of_fieldNames h
  refine .obj (fun _ _ => ⟨n, tupleOf_exactly h⟩) ?_
  simp only [List.forall_mem_cons]
  exact ⟨tuplesOnly_str _, .obj_of_none hnone hproperties, tuplesOnly_strings _,
    tuplesOnly_bool false, List.forall_mem_nil _⟩

theorem tuplesOnly_typed (name : String) : TuplesOnly (typed name []) :=
  .obj_of_none rfl (one_field (tuplesOnly_str name))

theorem tuplesOnly_typed_text (name : String) {key : String} (hkey : key ≠ "properties")
    (text : String) : TuplesOnly (typed name [(key, .str text)]) := by
  have hnone : (typed name [(key, .str text)]).field? "properties" = none := by
    have hother : ("properties" == key) = false := beq_eq_false_iff_ne.2 hkey.symm
    change List.lookup "properties" [("type", Json.str name), (key, .str text)] = none
    simp [List.lookup, hother]
  exact .obj_of_none hnone
    (List.forall_mem_cons.2 ⟨tuplesOnly_str name, one_field (tuplesOnly_str text)⟩)

theorem tuplesOnly_leaf (options : MappingOptions) (kind : Leaf) :
    TuplesOnly (leaf options kind) := by
  unfold leaf
  repeat' split
  all_goals first
    | exact tuplesOnly_typed _
    | exact tuplesOnly_typed_text _ (by decide) _

/-- Every object with properties in the schema of a skeleton is that of a tuple. -/
theorem tuplesOnly_schema (options : MappingOptions) (s : Skeleton) :
    TuplesOnly (s.schema options) := by
  induction s with
  | nullable inner ih =>
    rw [Skeleton.schema]
    refine .obj_of_none rfl (one_field (.arr fun item hmem => ?_))
    obtain rfl | rfl : item = _ ∨ item = _ := by simpa using hmem
    · exact ih
    · exact .obj_of_none rfl (one_field (tuplesOnly_str _))
  | array item ih =>
    rw [Skeleton.schema]
    exact .obj_of_none rfl (List.forall_mem_cons.2 ⟨tuplesOnly_str _, one_field ih⟩)
  | tuple items ih =>
    rw [Skeleton.schema]
    refine tuplesOnly_exactly ?_ fun property hmem => ?_
    · rw [Skeleton.fieldNames_eq, List.length_map]
    · obtain ⟨⟨json, i⟩, hentry, rfl⟩ := List.mem_map.1 hmem
      obtain ⟨item, hitem, rfl⟩ := List.mem_map.1 (List.fst_mem_of_mem_zipIdx hentry)
      exact ih item hitem
  | map value ih =>
    rw [Skeleton.schema]
    exact .obj_of_none rfl (List.forall_mem_cons.2 ⟨tuplesOnly_str _, one_field ih⟩)
  | enumeration keys =>
    rw [Skeleton.schema]
    exact .obj_of_none rfl
      (List.forall_mem_cons.2 ⟨tuplesOnly_str _, one_field (tuplesOnly_strings keys)⟩)
  | leaf kind =>
    rw [Skeleton.schema]
    exact tuplesOnly_leaf options kind
  | unknown =>
    rw [Skeleton.schema]
    exact .obj_of_none rfl (List.forall_mem_nil _)

theorem TupleOf.withField (h : TupleOf n json) {key : String} (hproperties : "properties" ≠ key)
    (hrequired : "required" ≠ key) (value : Json) : TupleOf n (json.withField key value) where
  properties := by
    rw [Json.field?_withField hproperties]
    exact h.properties
  required := by
    rw [Json.field?_withField hrequired]
    exact h.required

theorem TuplesOnly.withField (h : TuplesOnly json) {key : String} (hproperties : "properties" ≠ key)
    (hrequired : "required" ≠ key) (text : String) :
    TuplesOnly (json.withField key (.str text)) := by
  cases json with
  | null | bool | int | str | arr => exact h
  | obj fields =>
    refine .obj (fun properties hown => ?_) fun field hmem => ?_
    · have hown := hown.symm.trans (Json.field?_setField hproperties _ fields)
      obtain ⟨n, htuple⟩ := h _ properties .refl hown.symm
      exact ⟨n, htuple.withField hproperties hrequired _⟩
    · obtain rfl | hmem := Json.mem_setField hmem
      · exact tuplesOnly_str text
      · exact fun inner properties hinside => h inner properties (.field hmem hinside)

end TuplesOnly

section Columns

variable {options : MappingOptions} {column : ResolvedColumn} {schema : Json}

theorem child?_withField {key : String} (hkey : key ∈ ["$comment", "description"])
    (json value : Json) (step : Skeleton.Step) :
    child? (json.withField key value) step = child? json step := by
  have hne : ∀ k ∈ ["anyOf", "items", "properties", "additionalProperties"], k ≠ key := by
    rintro k hk rfl
    revert k
    decide
  cases step <;> simp only [child?] <;> rw [Json.field?_withField (hne _ (by decide))]

theorem showsTuples_withField {ty : TypeExpr} (h : ShowsTuples ty schema) {key : String}
    (hkey : key ∈ ["$comment", "description"]) (text : String) :
    ShowsTuples ty (schema.withField key (.str text)) := by
  have hne : "properties" ≠ key ∧ "required" ≠ key := by
    revert key
    decide
  obtain ⟨honly, s, hs, htuples⟩ := h
  refine ⟨honly.withField hne.1 hne.2 text, s, hs, fun path items hat => ?_⟩
  obtain ⟨json, hjson, htuple⟩ := htuples path items hat
  cases path with
  | nil =>
    obtain rfl := Option.some.inj hjson
    exact ⟨_, rfl, htuple.withField hne.1 hne.2 _⟩
  | cons step path =>
    refine ⟨json, ?_, htuple⟩
    rw [at?, child?_withField hkey]
    exact hjson

theorem showsTuples_ofType {ty : TypeExpr} (h : ofType options ty = .ok schema) :
    ShowsTuples ty schema := by
  have hplain : (fold options).Plain := fun _ _ => rfl
  obtain ⟨s, hs⟩ := TypeFold.exists_run_of_run hplain Skeleton.plain_fold Skeleton.total_fold h
  obtain rfl : schema = s.schema options :=
    (Skeleton.respects_schema options).of_runWithin Skeleton.plain_fold hplain hs h
  refine ⟨tuplesOnly_schema options s, s, hs, fun path items hat => ?_⟩
  refine ⟨_, Skeleton.at?_schema options hat, ?_⟩
  rw [Skeleton.schema]
  refine tupleOf_exactly ?_
  rw [Skeleton.fieldNames_eq, List.length_map]

theorem showsTuples_ofColumn (h : ofColumn options column = .ok schema) :
    ShowsTuples column.type schema := by
  obtain ⟨json, hjson, h⟩ := bind_eq_ok.1 h
  cases h
  have hshows := showsTuples_withField (showsTuples_ofType hjson) (by decide : "$comment" ∈ _)
    column.rawType
  unfold describe
  split
  · exact showsTuples_withField hshows (by decide) _
  · exact hshows

end Columns

section Documents

variable {tables : List MappedTable} {docs : List (String × Json)}

/-- Properties under distinct names are all kept, in their order. -/
theorem describes_ofTable {table : MappedTable} {document : Json}
    (hnodup : (table.columns.map (·.name)).Nodup) (h : ofTable table = .ok document) :
    Describes table document := by
  obtain ⟨properties, hproperties, h⟩ := bind_eq_ok.1 h
  have hcolumns : List.Forall₂ (fun column property => property.1 = column.name ∧
      ShowsTuples column.type property.2) table.columns properties := by
    refine (mapM_eq_ok.1 hproperties).imp fun column property hcolumn => ?_
    obtain ⟨schema, hschema, hcolumn⟩ := bind_eq_ok.1 hcolumn
    cases hcolumn
    exact ⟨rfl, showsTuples_ofColumn hschema⟩
  have hnames : properties.map Prod.fst = table.columns.map (·.name) :=
    map_eq_map_of_forall₂ (hcolumns.flip.imp fun _ _ h => h.1)
  have hobject := Json.ofFields_of_nodup (hnames ▸ hnodup)
  cases h
  refine ⟨⟨properties, ?_, hnames, ?_⟩, ?_⟩
  · rw [← hobject]
    cases table.info.comment <;> rfl
  · rw [List.forall₂_map_right_iff]
    exact hcolumns.imp fun _ _ h => h.2
  · cases table.info.comment <;> rfl

/-- There is one document for each table, under its name and in its place. -/
theorem describes_of_documents (h : documents tables = .ok docs) :
    docs.map Prod.fst = tables.map (·.declaredName) ∧
      List.Forall₂ Describes tables (docs.map Prod.snd) := by
  obtain ⟨⟨⟩, hvalid, h⟩ := bind_eq_ok.1 h
  have hdocs : List.Forall₂ (fun table doc => doc.1 = table.declaredName ∧
      ofTable table = .ok doc.2) tables docs := by
    refine (mapM_eq_ok.1 h).imp fun table doc hdoc => ?_
    obtain ⟨document, hdocument, hdoc⟩ := bind_eq_ok.1 hdoc
    cases hdoc
    exact ⟨rfl, hdocument⟩
  refine ⟨map_eq_map_of_forall₂ (hdocs.flip.imp fun _ _ h => h.1), ?_⟩
  rw [List.forall₂_map_right_iff]
  refine ((List.forall₂_and_left _ _).2 ⟨nodup_columns_of_validateTables hvalid, hdocs⟩).imp ?_
  exact fun table doc h => describes_ofTable h.1 h.2.2

end Documents

end JsonSchema

namespace Interface

/-- The name of an interface and the text of its fields. -/
def Part.interface? : Part → Option (String × String)
  | .interface _ name fields => some (name, fields)
  | _ => none

theorem Part.interfaces_ofTable {validators : Bool} {table : MappedTable} {ps : List Part}
    (h : ofTable validators table = .ok ps) :
    ps.filterMap interface? =
      [(table.declaredName, String.join (table.columns.map field))] := by
  obtain ⟨rfl, -⟩ | ⟨expr, rfl, -⟩ := ofTable_eq h <;> rfl

/-- The interfaces of a module are those of its tables. -/
theorem interfaces_of_parts {validators : Bool} {tables : List MappedTable} {ps : List Part}
    (h : parts validators tables = .ok ps) : ps.filterMap Part.interface? =
      tables.map fun table => (table.declaredName, String.join (table.columns.map field)) := by
  obtain ⟨usage, sections, -, -, hsections, rfl⟩ := exists_usage h
  have hneeded : (.header :: Part.imports validators usage ++ Part.brands usage).filterMap
      Part.interface? = [] := by
    clear h hsections
    obtain ⟨decimal, ipv4, ipv6⟩ := usage
    revert validators decimal ipv4 ipv6
    decide
  rw [List.filterMap_append, hneeded, List.nil_append]
  rw [mapM_eq_ok] at hsections
  clear h
  induction hsections with
  | nil => rfl
  | cons hpart _ ih =>
    rw [List.flatten_cons, List.filterMap_append, Part.interfaces_ofTable hpart, ih]
    rfl

end Interface

/-- Whatever is rendered, nothing of the tables is lost or merged: there is one document and one
interface for each table, and in each of them one property for each column, all in their order.
From the fields of an interface one member is read for each column, as long as the mapped types are
whole, which they are if no plugin has given them. -/
theorem renderings_complete {tables : List MappedTable} {validators : Bool}
    {interfaces schemas : String}
    (hinterfaces : Interface.render validators tables = .ok interfaces)
    (hschemas : JsonSchema.render tables = .ok schemas) :
    (∃ docs, JsonSchema.documents tables = .ok docs ∧
      docs.map Prod.fst = tables.map (·.declaredName) ∧ (docs.map Prod.fst).Nodup ∧
      List.Forall₂ JsonSchema.Describes tables (docs.map Prod.snd) ∧
      schemas = (Json.obj docs).pretty ++ "\n") ∧
    ∃ ps, Interface.parts validators tables = .ok ps ∧ Interface.Part.texts ps = interfaces ∧
      ps.filterMap Interface.Part.interface? = tables.map (fun table =>
        (table.declaredName, String.join (table.columns.map Interface.field))) ∧
      ∀ table ∈ tables, (table.columns.map fun column => propertyKey column.name).Nodup ∧
        ((∀ column ∈ table.columns, WholeType column.mappedType) →
          members? (String.join (table.columns.map Interface.field)) =
            some (table.columns.map fun column =>
              propertyKey column.name ++ ": " ++ column.mappedType)) := by
  obtain ⟨docs, hdocs, hschemas⟩ := bind_eq_ok.1 hschemas
  obtain ⟨hnames, hdescribes⟩ := JsonSchema.describes_of_documents hdocs
  obtain ⟨⟨⟩, hvalid, -⟩ := bind_eq_ok.1 hdocs
  have hdistinct : (docs.map Prod.fst).Nodup :=
    hnames ▸ Interface.nodup_of_validateTables hvalid
  rw [Interface.render_eq] at hinterfaces
  obtain ⟨ps, hps, rfl⟩ := map_eq_ok.1 hinterfaces
  refine ⟨⟨docs, hdocs, hnames, hdistinct, hdescribes, ?_⟩, ps, hps, rfl,
    Interface.interfaces_of_parts hps, fun table ht => ⟨?_, members?_fields⟩⟩
  · rw [← Json.ofFields_of_nodup hdistinct]
    exact (Except.ok.inj hschemas).symm
  · have hkeys := (nodup_columns_of_validateTables hvalid table ht).map propertyKey_injective
    rwa [List.map_map] at hkeys

def places : TableDecl where
  name := "places"
  columns := [⟨"id", .plain "UInt64", "UInt64", none, none, none⟩,
    ⟨"spot", .mk "Tuple" [.type (.plain "Float64"), .type (.mk "Tuple" [.type (.plain "String")])],
      "Tuple(Float64, Tuple(String))", some "a; b */ c", none, none⟩]

theorem renderings_complete_places : ∃ tables interfaces schemas,
    resolve {} [places] = .ok tables ∧ Interface.render true tables = .ok interfaces ∧
      JsonSchema.render tables = .ok schemas ∧
      (∃ docs, docs.map Prod.fst = ["Places"] ∧
        List.Forall₂ JsonSchema.Describes tables (docs.map Prod.snd) ∧
        schemas = (Json.obj docs).pretty ++ "\n") ∧
      ∀ table ∈ tables, members? (String.join (table.columns.map Interface.field)) =
        some ["id: bigint", "spot: \x7b _0: number; _1: \x7b _0: string \x7d \x7d"] := by
  have h : (resolve {} [places]).toOption.any (fun tables =>
      (Interface.render true tables).toOption.any fun _ =>
      (JsonSchema.render tables).toOption.any fun _ =>
        tables.map (·.declaredName) = ["Places"] ∧ ∀ table ∈ tables,
          (table.columns.map fun column => propertyKey column.name ++ ": " ++ column.mappedType) =
            ["id: bigint", "spot: \x7b _0: number; _1: \x7b _0: string \x7d \x7d"]) = true := by
    decide +kernel
  obtain ⟨tables, hr, h⟩ := exists_of_any h
  obtain ⟨interfaces, hinterfaces, h⟩ := exists_of_any h
  obtain ⟨schemas, hschemas, h⟩ := exists_of_any h
  obtain ⟨hnames, hcolumns⟩ := of_decide_eq_true h
  obtain ⟨⟨docs, -, hdocs, -, hdescribes, hpretty⟩, ps, -, -, -, hfields⟩ :=
    renderings_complete hinterfaces hschemas
  refine ⟨tables, interfaces, schemas, hr, hinterfaces, hschemas,
    ⟨docs, hdocs.trans hnames, hdescribes, hpretty⟩, fun table ht => ?_⟩
  have hwhole := (mapped_of_resolve rfl hr table ht).wholeType
  rw [(hfields table ht).2 hwhole, hcolumns table ht]

end TypedTables
