import TypedTables.Proofs.Json
import TypedTables.Proofs.Render.Layout
import TypedTables.Proofs.Resolve.Mapped
import TypedTables.Proofs.TypeExpr.Related
import TypedTables.Render.JsonSchema

/-!
The structure that the outputs have in common. A type has one skeleton; its TypeScript type, its
JSON Schema and, as long as no tuple encloses a line feed of a key, its validator are what each
format makes of the skeleton.
-/

namespace TypedTables

namespace JsonSchema

/-- A value or null. -/
def orNull (json : Json) : Json := .obj [("anyOf", .arr [json, .obj [("type", .str "null")]])]

def oneOf (keys : List String) : Json :=
  .obj [("type", .str "string"), ("enum", .arr (keys.map .str))]

/-- An object with properties of which some are required, and with no others. -/
def exactly (properties : List (String × Json)) (required : List String) : Json :=
  .obj [("type", .str "object"), ("properties", .obj properties),
    ("required", .arr (required.map .str)), ("additionalProperties", .bool false)]

end JsonSchema

/-- What an output shows of a type: wrappers that leave the value as it is are left out. -/
inductive Skeleton
  | nullable (inner : Skeleton)
  | array (item : Skeleton)
  | tuple (items : List Skeleton)
  | map (value : Skeleton)
  | enumeration (keys : List String)
  | leaf (kind : Leaf)
  | unknown

namespace Skeleton

@[elab_as_elim, induction_eliminator]
theorem induction {motive : Skeleton → Prop}
    (nullable : ∀ inner, motive inner → motive (.nullable inner))
    (array : ∀ item, motive item → motive (.array item))
    (tuple : ∀ items, (∀ item ∈ items, motive item) → motive (.tuple items))
    (map : ∀ value, motive value → motive (.map value))
    (enumeration : ∀ keys, motive (.enumeration keys)) (leaf : ∀ kind, motive (.leaf kind))
    (unknown : motive .unknown) : ∀ s, motive s
  | .nullable inner =>
    nullable inner (induction nullable array tuple map enumeration leaf unknown inner)
  | .array item => array item (induction nullable array tuple map enumeration leaf unknown item)
  | .tuple items => tuple items fun item _ =>
    induction nullable array tuple map enumeration leaf unknown item
  | .map value => map value (induction nullable array tuple map enumeration leaf unknown value)
  | .enumeration keys => enumeration keys
  | .leaf kind => leaf kind
  | .unknown => unknown

def fold : TypeFold Skeleton where
  nullable := nullable
  array := array
  tuple := tuple
  map := map
  enumeration := enumeration
  leaf := leaf
  unknown _ := .ok unknown

def ofType (ty : TypeExpr) : Except Error Skeleton := fold.run ty

variable (options : MappingOptions)

/-- Whether a `|` stands outside the brackets of the TypeScript type. -/
def isUnion : Skeleton → Bool
  | .nullable _ => true
  | .enumeration keys => 1 < keys.length
  | _ => false

def typeScript : Skeleton → String
  | .nullable inner => inner.typeScript ++ " | null"
  | .array item =>
    if item.isUnion then "(" ++ item.typeScript ++ ")[]" else item.typeScript ++ "[]"
  | .tuple [] => "\x7b\x7d"
  | .tuple items =>
    let fields := (items.map typeScript).zipIdx.map fun (text, i) =>
      TsType.fieldName i ++ ": " ++ text
    "\x7b " ++ "; ".intercalate fields ++ " \x7d"
  | .map value => "Record<string, " ++ value.typeScript ++ ">"
  | .enumeration keys => " | ".intercalate (keys.map quoted)
  | .leaf kind => (TsType.leaf options kind).text
  | .unknown => "unknown"

def schema : Skeleton → Json
  | .nullable inner => JsonSchema.orNull inner.schema
  | .array item => .obj [("type", .str "array"), ("items", item.schema)]
  | .tuple items => JsonSchema.exactly
      ((items.map schema).zipIdx.map fun (json, i) => (TsType.fieldName i, json))
      ((List.range items.length).map TsType.fieldName)
  | .map value => .obj [("type", .str "object"), ("additionalProperties", value.schema)]
  | .enumeration keys => JsonSchema.oneOf keys
  | .leaf kind => JsonSchema.leaf options kind
  | .unknown => .obj []

open Layout in
def validator : Skeleton → List Glyph
  | .nullable inner => inner.validator ++ code ".nullable()"
  | .array item => code "z.array(" ++ item.validator ++ code ")"
  | .tuple items => Layout.tuple (items.map validator)
  | .map value => code "z.record(z.string(), " ++ value.validator ++ code ")"
  | .enumeration keys => code ("z.enum([" ++ ", ".intercalate (keys.map quoted) ++ "])")
  | .leaf kind => code (Validator.leaf options kind)
  | .unknown => code "z.unknown()"

/-- Line feeds in the keys of enumerations. -/
def breaks : Skeleton → Nat
  | .nullable inner => inner.breaks
  | .array item => item.breaks
  | .tuple items => (items.map breaks).sum
  | .map value => value.breaks
  | .enumeration keys => (keys.map fun key => key.toList.count '\n').sum
  | .leaf _ | .unknown => 0

/-- Line feeds in the keys of enumerations, each as often as a tuple encloses it. -/
def enclosedBreaks : Skeleton → Nat
  | .nullable inner => inner.enclosedBreaks
  | .array item => item.enclosedBreaks
  | .tuple items => (items.map fun item => item.enclosedBreaks + item.breaks).sum
  | .map value => value.enclosedBreaks
  | .enumeration _ | .leaf _ | .unknown => 0

theorem plain_fold : fold.Plain := fun _ _ => rfl

theorem total_fold : fold.Total := fun _ => ⟨.unknown, rfl⟩

theorem respects_typeScript : fold.Respects (TsType.plainFold options)
    fun s t => t = ⟨s.typeScript options, s.isUnion⟩ where
  nullable := by
    rintro s _ rfl
    simp [fold, TsType.plainFold, TsType.fold, TsType.nullable, typeScript, isUnion]
  array := by
    rintro s _ rfl
    cases h : s.isUnion <;>
      simp [fold, TsType.plainFold, TsType.fold, TsType.array, TsType.single, typeScript, h,
        isUnion.eq_def (array s)]
  tuple {items texts} h := by
    obtain rfl := eq_map_of_forall₂ h
    change TsType.tuple _ = ⟨typeScript options (.tuple items), false⟩
    cases items with
    | nil => simp [TsType.tuple, TsType.single, typeScript]
    | cons item items =>
      simp [TsType.tuple, TsType.single, typeScript, List.zipIdx_map, Function.comp_def]
  map := by
    rintro s _ rfl
    simp [fold, TsType.plainFold, TsType.fold, TsType.map, TsType.single, typeScript, isUnion]
  enumeration keys := by
    simp [fold, TsType.plainFold, TsType.fold, TsType.enumeration, typeScript, isUnion]
  leaf kind := by
    simp [fold, TsType.plainFold, TsType.fold, typeScript, isUnion,
      ← TsType.union_leaf options kind]
  unknown {name s t} hs ht := by
    obtain rfl : t = TsType.single "unknown" := by
      simp only [TsType.plainFold, TsType.fold, TsType.unknown] at ht
      split at ht
      · contradiction
      · exact (Except.ok.inj ht).symm
    obtain rfl : s = .unknown := (Except.ok.inj hs).symm
    change _ = TsType.mk (typeScript options .unknown) false
    rw [typeScript]
    rfl

theorem fieldNames_eq (items : List Json) :
    (items.zipIdx.map fun (item, i) => (TsType.fieldName i, item)).map Prod.fst =
      (List.range items.length).map TsType.fieldName := by
  rw [List.map_map, List.range_eq_range', ← List.zipIdx_map_snd 0 items, List.map_map]
  rfl

theorem closed_fields (items : List Json) :
    JsonSchema.closed (items.zipIdx.map fun (item, i) => (TsType.fieldName i, item)) =
      JsonSchema.exactly (items.zipIdx.map fun (item, i) => (TsType.fieldName i, item))
        ((List.range items.length).map TsType.fieldName) := by
  have hnames := fieldNames_eq items
  have hnodup : ((List.range items.length).map TsType.fieldName).Nodup :=
    List.nodup_range.map fieldName_injective
  rw [JsonSchema.closed, Json.ofFields_of_nodup (hnames ▸ hnodup), ← hnames, JsonSchema.exactly,
    List.map_map (f := Prod.fst)]
  rfl

theorem respects_schema :
    fold.Respects (JsonSchema.fold options) fun s json => json = s.schema options where
  nullable := by
    rintro s _ rfl
    rw [fold, schema]
    rfl
  array := by
    rintro s _ rfl
    rw [fold, schema]
    rfl
  tuple {items texts} h := by
    obtain rfl := eq_map_of_forall₂ h
    rw [fold, schema]
    exact (closed_fields _).trans (by rw [List.length_map])
  map := by
    rintro s _ rfl
    rw [fold, schema]
    rfl
  enumeration keys := by
    rw [fold, schema]
    rfl
  leaf kind := by
    rw [fold, schema]
    rfl
  unknown {name s t} hs ht := by
    rw [← Except.ok.inj hs, ← Except.ok.inj ht, schema]

theorem count_quoted (key : String) : (quoted key).toList.count '\n' = key.toList.count '\n' := by
  have hescape : (key.toList.flatMap quoted.escape).count '\n' = key.toList.count '\n' := by
    induction key.toList with
    | nil => rfl
    | cons c cs ih =>
      rw [List.flatMap_cons, List.count_append, ih, List.count_cons]
      unfold quoted.escape
      split <;> simp [List.count_singleton, Nat.add_comm]
  rw [quoted, String.toList_ofList, List.cons_append, List.count_cons, List.count_append, hescape]
  simp

theorem lineFeeds_enumeration (keys : List String) :
    Layout.lineFeeds ((enumeration keys).validator options) = (enumeration keys).breaks := by
  have hkeys : ((keys.map quoted).map String.toList).map (List.count '\n') =
      keys.map fun key => key.toList.count '\n' := by
    simp only [List.map_map, Function.comp_def, count_quoted]
  have hjoin : (", ".intercalate (keys.map quoted)).toList.count '\n' =
      (keys.map fun key => key.toList.count '\n').sum := by
    rw [String.toList_intercalate, ← hkeys]
    exact count_intercalate (by decide) _
  rw [validator, breaks, Layout.lineFeeds_code, String.toList_append, String.toList_append,
    List.count_append, List.count_append, hjoin]
  simp

theorem lineFeed_not_mem_leaf (kind : Leaf) : '\n' ∉ (Validator.leaf options kind).toList := by
  unfold Validator.leaf
  repeat' split
  all_goals decide

open Layout in
theorem lineFeeds_validator (s : Skeleton) : lineFeeds (s.validator options) = s.breaks := by
  induction s with
  | nullable inner ih =>
    rw [validator, breaks, lineFeeds_append, lineFeeds_code, ih]
    rfl
  | array item ih | map item ih =>
    rw [validator, breaks, lineFeeds_append, lineFeeds_append, lineFeeds_code, lineFeeds_code, ih]
    simp
  | tuple items ih =>
    rw [validator, breaks, lineFeeds_tuple, List.map_map]
    exact congrArg List.sum (List.map_congr_left ih)
  | enumeration keys => exact lineFeeds_enumeration options keys
  | leaf kind =>
    rw [validator, breaks, lineFeeds_code]
    exact List.count_eq_zero.2 (lineFeed_not_mem_leaf options kind)
  | unknown =>
    rw [validator, breaks, lineFeeds_code]
    decide

theorem enclosedBreaks_eq_zero {s : Skeleton} (h : s.breaks = 0) : s.enclosedBreaks = 0 := by
  induction s with
  | nullable inner ih | array inner ih | map inner ih =>
    rw [breaks] at h
    rw [enclosedBreaks, ih h]
  | tuple items ih =>
    rw [breaks, List.sum_eq_zero_iff] at h
    rw [enclosedBreaks, List.sum_eq_zero_iff]
    intro n hn
    obtain ⟨item, hitem, rfl⟩ := List.mem_map.1 hn
    have hbreaks : item.breaks = 0 := h _ (List.mem_map_of_mem hitem)
    rw [ih item hitem hbreaks, hbreaks, Nat.add_zero]
  | enumeration | leaf | unknown => rw [enclosedBreaks]

theorem respects_validator : fold.Respects (Validator.fold options)
    fun s expr => Tracks expr.toList (s.validator options) s.enclosedBreaks where
  nullable {s expr} h := by
    have h := h.append (.code ".nullable()")
    simpa [fold, Validator.fold, validator, enclosedBreaks] using h
  array {s expr} h := by
    have h := ((Tracks.code "z.array(").append h).append (.code ")")
    simpa [fold, Validator.fold, validator, enclosedBreaks] using h
  tuple {items exprs} h := by
    let layouts := items.map fun s => (s.validator options, s.enclosedBreaks)
    have hall : TracksAll exprs layouts := by
      rw [TracksAll, List.forall₂_map_right_iff]
      exact h.flip
    have hplain : ∀ layout ∈ layouts, Layout.lineFeeds layout.1 = 0 → layout.2 = 0 := by
      intro layout hlayout hfeeds
      obtain ⟨s, -, rfl⟩ := List.mem_map.1 hlayout
      rw [lineFeeds_validator] at hfeeds
      exact enclosedBreaks_eq_zero hfeeds
    have h := hall.tuple hplain
    simp only [layouts, List.map_map, Function.comp_def, lineFeeds_validator] at h
    rwa [fold, validator, enclosedBreaks]
  map {s expr} h := by
    have h := ((Tracks.code "z.record(z.string(), ").append h).append (.code ")")
    simpa [fold, Validator.fold, validator, enclosedBreaks] using h
  enumeration keys := by
    have h := Tracks.code ("z.enum([" ++ ", ".intercalate (keys.map quoted) ++ "])")
    rwa [fold, validator, enclosedBreaks]
  leaf kind := by
    have h := Tracks.code (Validator.leaf options kind)
    rwa [fold, validator, enclosedBreaks]
  unknown {name s expr} hs hexpr := by
    rw [← Except.ok.inj hs, ← Except.ok.inj hexpr, validator, enclosedBreaks]
    exact .code "z.unknown()"

end Skeleton

end TypedTables
