import TypedTables.Proofs.Render.Skeleton
import TypedTables.Proofs.Resolve.Mapped

/-!
Positions in a type, and what the outputs show there: the outputs of a skeleton agree at every
position on whether a value may be null, on the keys of enumerations and on the fields of tuples.
-/

namespace TypedTables

theorem infix_intercalate {α : Type} {x : List α} (separator : List α) {xs : List (List α)}
    (h : x ∈ xs) : x <:+: separator.intercalate xs := by
  induction xs with
  | nil => contradiction
  | cons y ys ih =>
    cases ys with
    | nil =>
      obtain rfl := List.mem_singleton.1 h
      rw [List.intercalate_singleton]
    | cons z zs =>
      rw [List.intercalate_cons_cons, List.append_assoc]
      obtain rfl | h := List.mem_cons.1 h
      · exact (List.prefix_append ..).isInfix
      · have hsuffix := List.suffix_append (y ++ separator) (separator.intercalate (z :: zs))
        rw [List.append_assoc] at hsuffix
        exact (ih h).trans hsuffix.isInfix

theorem Layout.infix_tuple {gs : List Glyph} {values : List (List Glyph)} (h : gs ∈ values) :
    ∃ k, gs.map Glyph.indent^[k] <:+: Layout.tuple values := by
  obtain ⟨entry, hentry, hgs⟩ : ∃ entry ∈ entries values, gs <:+ entry := by
    obtain ⟨i, hi⟩ := List.mem_iff_getElem?.1 h
    have hentry : code (TsType.fieldName i ++ ": ") ++ gs ∈ entries values :=
      List.mem_map.2 ⟨(gs, i), List.mem_zipIdx_iff_getElem?.2 hi, rfl⟩
    exact ⟨_, hentry, List.suffix_append ..⟩
  rw [tuple_of_ne_nil (List.ne_nil_of_mem h)]
  split_ifs
  · refine ⟨0, ?_⟩
    rw [Function.iterate_zero, List.map_id]
    exact hgs.isInfix.trans ((infix_intercalate _ hentry).trans (List.infix_append ..))
  · refine ⟨1, ?_⟩
    rw [Function.iterate_one]
    have hline : gs.map Glyph.indent <:+:
        code "  " ++ entry.map .indent ++ code "," ++ [.newline 0] := by
      rw [List.append_assoc]
      exact (hgs.map Glyph.indent).isInfix.trans (List.infix_append ..)
    have hlines := List.infix_of_mem_flatten
      (List.mem_map_of_mem (f := fun entry : List Glyph =>
        code "  " ++ entry.map .indent ++ code "," ++ [.newline 0]) hentry)
    rw [blockObject, List.flatMap_def]
    exact hline.trans (hlines.trans (List.infix_append ..))

namespace Skeleton

/-- A step from a type to one it is made of. -/
inductive Step
  | inner
  | item
  | field (i : Nat)
  | value

def child? : Skeleton → Step → Option Skeleton
  | .nullable inner, .inner => some inner
  | .array item, .item => some item
  | .tuple items, .field i => items[i]?
  | .map value, .value => some value
  | _, _ => none

/-- What stands at a position. -/
def at? (s : Skeleton) : List Step → Option Skeleton
  | [] => some s
  | step :: path => (s.child? step).bind (at? · path)

end Skeleton

namespace JsonSchema

def child? (json : Json) : Skeleton.Step → Option Json
  | .inner => (json.field? "anyOf").bind (·.item? 0)
  | .item => json.field? "items"
  | .field i => (json.field? "properties").bind (·.field? (TsType.fieldName i))
  | .value => json.field? "additionalProperties"

def at? (json : Json) : List Skeleton.Step → Option Json
  | [] => some json
  | step :: path => (child? json step).bind (at? · path)

theorem oneOf_injective : Function.Injective oneOf := fun keys keys' h => by
  have hkeys : keys.map Json.str = keys'.map Json.str := by simpa [oneOf] using h
  exact List.map_injective_iff.2 (fun _ _ => Json.str.inj) hkeys

theorem exactly_inj {properties properties' : List (String × Json)}
    {required required' : List String}
    (h : exactly properties required = exactly properties' required') :
    properties = properties' ∧ required = required' := by
  have h : properties = properties' ∧ required.map Json.str = required'.map Json.str := by
    simpa [exactly] using h
  exact ⟨h.1, List.map_injective_iff.2 (fun _ _ => Json.str.inj) h.2⟩

theorem leaf_eq (options : MappingOptions) (kind : Leaf) : ∃ name fields,
    leaf options kind = .obj (("type", .str name) :: fields) ∧
      fields.map Prod.fst ∈ [[], ["format"], ["pattern"]] := by
  unfold leaf
  repeat' split
  all_goals exact ⟨_, _, rfl, by decide⟩

theorem field?_fieldName (items : List Json) (i : Nat) :
    (Json.obj (items.zipIdx.map fun (item, i) => (TsType.fieldName i, item))).field?
      (TsType.fieldName i) = items[i]? := by
  suffices h : ∀ k, ((items.zipIdx k).map fun (item, i) => (TsType.fieldName i, item)).lookup
      (TsType.fieldName (k + i)) = items[i]? by
    simpa [Json.field?] using h 0
  induction items generalizing i with
  | nil => exact fun k => rfl
  | cons item items ih =>
    intro k
    rw [List.zipIdx_cons, List.map_cons, List.lookup_cons]
    cases i with
    | zero => simp
    | succ i =>
      have hne : (TsType.fieldName (k + (i + 1)) == TsType.fieldName k) = false := by
        simpa using fieldName_injective.ne (show k + (i + 1) ≠ k by omega)
      rw [hne, List.getElem?_cons_succ, ← ih i (k + 1), Nat.add_right_comm, Nat.add_assoc]

end JsonSchema

namespace Skeleton

variable (options : MappingOptions) {s sub : Skeleton} {path : List Step}

theorem child?_schema {step : Step} (h : s.child? step = some sub) :
    JsonSchema.child? (s.schema options) step = some (sub.schema options) := by
  cases s <;> cases step <;> try contradiction
  case nullable.inner inner | array.item item | map.value value =>
    obtain rfl := Option.some.inj h
    rw [schema]
    rfl
  case tuple.field items i =>
    rw [schema]
    have hfield := JsonSchema.field?_fieldName (items.map (schema options)) i
    rw [List.getElem?_map, (show items[i]? = some sub from h)] at hfield
    exact hfield

/-- The schema at a position is the schema of what stands there. -/
theorem at?_schema (h : s.at? path = some sub) :
    JsonSchema.at? (s.schema options) path = some (sub.schema options) := by
  induction path generalizing s with
  | nil =>
    obtain rfl := Option.some.inj h
    rfl
  | cons step path ih =>
    obtain ⟨child, hchild, hsub⟩ := Option.bind_eq_some_iff.1 h
    rw [JsonSchema.at?, child?_schema options hchild]
    exact ih hsub

/-- A relation to the parts one step away, carried to what stands at a position. -/
@[elab_as_elim]
theorem at?_induction {motive : Skeleton → Skeleton → Prop} (h : s.at? path = some sub)
    (hrefl : ∀ s, motive s s) (hstep : ∀ {s step child sub}, child? s step = some child →
      motive child sub → motive s sub) : motive s sub := by
  induction path generalizing s with
  | nil =>
    obtain rfl := Option.some.inj h
    exact hrefl s
  | cons step path ih =>
    obtain ⟨child, hchild, hsub⟩ := Option.bind_eq_some_iff.1 h
    exact hstep hchild (ih hsub)

theorem child?_typeScript {step : Step} (h : s.child? step = some sub) :
    (sub.typeScript options).toList <:+: (s.typeScript options).toList := by
  cases s <;> cases step <;> try contradiction
  case nullable.inner inner =>
    obtain rfl := Option.some.inj h
    rw [typeScript, String.toList_append]
    exact (List.prefix_append ..).isInfix
  case array.item item =>
    obtain rfl := Option.some.inj h
    rw [typeScript]
    split
    · rw [String.toList_append, String.toList_append]
      exact List.infix_append ..
    · rw [String.toList_append]
      exact (List.prefix_append ..).isInfix
  case map.value value =>
    obtain rfl := Option.some.inj h
    rw [typeScript, String.toList_append, String.toList_append]
    exact List.infix_append ..
  case tuple.field items i =>
    have hmem : (sub.typeScript options, i) ∈ (items.map (typeScript options)).zipIdx := by
      rw [List.mem_zipIdx_iff_getElem?, List.getElem?_map, (show items[i]? = some sub from h)]
      rfl
    have hfield : (TsType.fieldName i ++ ": " ++ sub.typeScript options).toList ∈
        ((items.map (typeScript options)).zipIdx.map fun entry =>
          TsType.fieldName entry.2 ++ ": " ++ entry.1).map String.toList :=
      List.mem_map_of_mem (List.mem_map.2 ⟨_, hmem, rfl⟩)
    cases items with
    | nil => contradiction
    | cons item items =>
      rw [typeScript, String.toList_append, String.toList_append, String.toList_intercalate]
      · have hfields := infix_intercalate "; ".toList hfield
        rw [String.toList_append] at hfields
        exact ((List.suffix_append ..).isInfix.trans hfields).trans (List.infix_append ..)
      · exact List.cons_ne_nil item items

/-- The TypeScript type of what stands at a position is a part of the TypeScript type. -/
theorem at?_typeScript (h : s.at? path = some sub) :
    (sub.typeScript options).toList <:+: (s.typeScript options).toList :=
  at?_induction h (fun _ => List.infix_rfl)
    fun hchild hsub => hsub.trans (child?_typeScript options hchild)

theorem child?_validator {step : Step} (h : s.child? step = some sub) :
    ∃ k, (sub.validator options).map Glyph.indent^[k] <:+: s.validator options := by
  cases s <;> cases step <;> try contradiction
  case nullable.inner inner =>
    obtain rfl := Option.some.inj h
    refine ⟨0, ?_⟩
    rw [validator, Function.iterate_zero, List.map_id]
    exact (List.prefix_append ..).isInfix
  case array.item item | map.value value =>
    obtain rfl := Option.some.inj h
    refine ⟨0, ?_⟩
    rw [validator, Function.iterate_zero, List.map_id]
    exact List.infix_append ..
  case tuple.field items i =>
    rw [validator]
    have hmem : sub.validator options ∈ items.map (validator options) :=
      List.mem_map_of_mem (List.mem_of_getElem? h)
    exact Layout.infix_tuple hmem

/-- The validator of what stands at a position is a part of the validator, moved to the right. -/
theorem at?_validator (h : s.at? path = some sub) :
    ∃ k, (sub.validator options).map Glyph.indent^[k] <:+: s.validator options := by
  refine at?_induction h (fun s => ⟨0, ?_⟩) fun hchild hsub => ?_
  · rw [Function.iterate_zero, List.map_id]
  · obtain ⟨k, hk⟩ := hsub
    obtain ⟨m, hm⟩ := child?_validator options hchild
    refine ⟨m + k, ?_⟩
    rw [Function.iterate_add, ← List.map_map]
    exact (hk.map _).trans hm

theorem schema_eq_orNull_iff :
    (∃ json, s.schema options = JsonSchema.orNull json) ↔ ∃ inner, s = .nullable inner := by
  constructor
  · rintro ⟨json, h⟩
    cases s with
    | nullable inner => exact ⟨inner, rfl⟩
    | array | tuple | map | enumeration | unknown =>
      simp [schema, JsonSchema.orNull, JsonSchema.exactly, JsonSchema.oneOf] at h
    | leaf kind =>
      obtain ⟨name, fields, hleaf, -⟩ := JsonSchema.leaf_eq options kind
      simp [schema, hleaf, JsonSchema.orNull] at h
  · rintro ⟨inner, rfl⟩
    exact ⟨inner.schema options, by rw [schema]⟩

/-- A text with one ending has no other one. -/
theorem not_isSuffix_of_isSuffix {α : Type} {ending other l : List α} (h : ending <:+ l)
    (hne : ¬ ending <:+ other) (hle : ending.length ≤ other.length) : ¬ other <:+ l :=
  fun hother => hne (List.suffix_of_suffix_length_le h hother hle)

theorem isSuffix_intercalate {α : Type} {separator ending : List α} {xs : List (List α)}
    (hne : xs ≠ []) (h : ∀ x ∈ xs, ending <:+ x) : ending <:+ separator.intercalate xs := by
  induction xs with
  | nil => contradiction
  | cons x xs ih =>
    cases xs with
    | nil => simpa using h
    | cons y ys =>
      rw [List.intercalate_cons_cons]
      have hrest := ih (List.cons_ne_nil y ys) fun z hz => h z (List.mem_cons_of_mem x hz)
      exact hrest.trans (List.suffix_append ..)

theorem isSuffix_quoted (key : String) : ['\x27'] <:+ (quoted key).toList := by
  rw [quoted, String.toList_ofList]
  exact List.suffix_append ..

theorem isSuffix_append (before ending : String) :
    ending.toList <:+ (before ++ ending).toList := by
  rw [String.toList_append]
  exact List.suffix_append ..

theorem not_isSuffix_leaf (kind : Leaf) :
    ¬ " | null".toList <:+ (TsType.leaf options kind).text.toList := by
  have all : ∀ text ∈ TsType.leafTexts, ¬ " | null".toList <:+ text.toList := by decide
  exact all _ (TsType.leaf_mem options kind)

theorem not_isSuffix_typeScript (h : ∀ inner, s ≠ .nullable inner) :
    ¬ " | null".toList <:+ (s.typeScript options).toList := by
  cases s with
  | nullable inner => exact absurd rfl (h inner)
  | array item =>
    rw [typeScript]
    split
    · exact not_isSuffix_of_isSuffix (isSuffix_append _ ")[]") (by decide) (by decide)
    · exact not_isSuffix_of_isSuffix (isSuffix_append _ "[]") (by decide) (by decide)
  | tuple items =>
    cases items with
    | nil =>
      rw [typeScript]
      decide
    | cons item items =>
      rw [typeScript]
      · exact not_isSuffix_of_isSuffix (isSuffix_append _ " \x7d") (by decide) (by decide)
      · exact List.cons_ne_nil item items
  | map value =>
    rw [typeScript]
    exact not_isSuffix_of_isSuffix (isSuffix_append _ ">") (by decide) (by decide)
  | enumeration keys =>
    rw [typeScript, String.toList_intercalate]
    cases keys with
    | nil => decide
    | cons key keys =>
      refine not_isSuffix_of_isSuffix (isSuffix_intercalate ?_ fun text htext => ?_) (by decide)
        (by decide : ['\x27'].length ≤ _)
      · rw [List.map_cons, List.map_cons]
        exact List.cons_ne_nil _ _
      · simp only [List.mem_map] at htext
        obtain ⟨_, ⟨key, -, rfl⟩, rfl⟩ := htext
        exact isSuffix_quoted key
  | leaf kind =>
    rw [typeScript]
    exact not_isSuffix_leaf options kind
  | unknown =>
    rw [typeScript]
    decide

theorem typeScript_eq_append_iff :
    (∃ text, s.typeScript options = text ++ " | null") ↔ ∃ inner, s = .nullable inner := by
  constructor
  · rintro ⟨text, htext⟩
    by_contra hs
    refine not_isSuffix_typeScript options (not_exists.1 hs) ?_
    rw [htext, String.toList_append]
    exact List.suffix_append ..
  · rintro ⟨inner, rfl⟩
    exact ⟨inner.typeScript options, by rw [typeScript]⟩

section Validator

open Layout (code)

theorem isSuffix_tuple (values : List (List Glyph)) : code "\x7d)" <:+ Layout.tuple values := by
  cases values with
  | nil => exact List.suffix_append (code "z.object(\x7b") (code "\x7d)")
  | cons value values =>
    rw [Layout.tuple_of_ne_nil (List.cons_ne_nil value values)]
    split_ifs
    · exact (List.suffix_append (code " ") (code "\x7d)")).trans (List.suffix_append ..)
    · exact List.suffix_append ..

theorem isSuffix_code (before ending : String) : code ending <:+ code (before ++ ending) := by
  rw [code, code, String.toList_append, List.map_append]
  exact List.suffix_append ..

theorem isSuffix_leaf (kind : Leaf) : code ")" <:+ code (Validator.leaf options kind) ∧
    ¬ code ".nullable()" <:+ code (Validator.leaf options kind) := by
  unfold Validator.leaf
  repeat' split
  all_goals decide

theorem isSuffix_validator (s : Skeleton) : code ")" <:+ s.validator options := by
  cases s with
  | nullable inner =>
    rw [validator]
    exact (by decide : code ")" <:+ code ".nullable()").trans (List.suffix_append ..)
  | array item | map value =>
    rw [validator]
    exact List.suffix_append ..
  | tuple items =>
    rw [validator]
    exact (by decide : code ")" <:+ code "\x7d)").trans (isSuffix_tuple _)
  | enumeration keys =>
    rw [validator]
    exact (by decide : code ")" <:+ code "])").trans (isSuffix_code ..)
  | leaf kind =>
    rw [validator]
    exact (isSuffix_leaf options kind).1
  | unknown =>
    rw [validator]
    decide

theorem not_isSuffix_validator (h : ∀ inner, s ≠ .nullable inner) :
    ¬ code ".nullable()" <:+ s.validator options := by
  cases s with
  | nullable inner => exact absurd rfl (h inner)
  | array inner | map inner =>
    have hinner : code "))" <:+ inner.validator options ++ code ")" :=
      List.suffix_append_self_iff.2 (isSuffix_validator options inner)
    rw [validator, List.append_assoc]
    exact not_isSuffix_of_isSuffix (hinner.trans (List.suffix_append ..)) (by decide) (by decide)
  | tuple items =>
    rw [validator]
    exact not_isSuffix_of_isSuffix (isSuffix_tuple _) (by decide) (by decide)
  | enumeration keys =>
    rw [validator]
    exact not_isSuffix_of_isSuffix (isSuffix_code _ "])") (by decide) (by decide)
  | leaf kind =>
    rw [validator]
    exact (isSuffix_leaf options kind).2
  | unknown =>
    rw [validator]
    decide

theorem validator_eq_append_iff :
    (∃ gs, s.validator options = gs ++ code ".nullable()") ↔ ∃ inner, s = .nullable inner := by
  constructor
  · rintro ⟨gs, hgs⟩
    by_contra hs
    refine not_isSuffix_validator options (not_exists.1 hs) ?_
    rw [hgs]
    exact List.suffix_append ..
  · rintro ⟨inner, rfl⟩
    exact ⟨inner.validator options, by rw [validator]⟩

end Validator

theorem eq_enumeration {keys : List String} (h : s.schema options = JsonSchema.oneOf keys) :
    s = .enumeration keys := by
  cases s with
  | enumeration keys' =>
    rw [schema] at h
    rw [JsonSchema.oneOf_injective h]
  | nullable | array | tuple | map | unknown =>
    simp [schema, JsonSchema.orNull, JsonSchema.exactly, JsonSchema.oneOf] at h
  | leaf kind =>
    obtain ⟨name, fields, hleaf, hfields⟩ := JsonSchema.leaf_eq options kind
    rw [schema, hleaf] at h
    obtain ⟨-, rfl⟩ : name = "string" ∧ fields = [("enum", .arr (keys.map .str))] := by
      simpa [JsonSchema.oneOf] using h
    simp at hfields

theorem exists_eq_tuple {properties : List (String × Json)} {required : List String}
    (h : s.schema options = JsonSchema.exactly properties required) :
    ∃ items, s = .tuple items ∧ properties.map Prod.fst = required ∧
      required = (List.range items.length).map TsType.fieldName := by
  cases s with
  | tuple items =>
    rw [schema] at h
    obtain ⟨rfl, rfl⟩ := JsonSchema.exactly_inj h
    refine ⟨items, rfl, ?_, rfl⟩
    rw [fieldNames_eq, List.length_map]
  | nullable | array | enumeration | map | unknown =>
    simp [schema, JsonSchema.orNull, JsonSchema.exactly, JsonSchema.oneOf] at h
  | leaf kind =>
    obtain ⟨name, fields, hleaf, hfields⟩ := JsonSchema.leaf_eq options kind
    rw [schema, hleaf] at h
    obtain ⟨-, rfl⟩ : name = "object" ∧ fields = [("properties", .obj properties),
        ("required", .arr (required.map .str)), ("additionalProperties", .bool false)] := by
      simpa [JsonSchema.exactly] using h
    simp at hfields

/-- What the outputs of a skeleton have in common at one position. -/
structure Agrees (s : Skeleton) : Prop where
  typeScript : (∃ json, s.schema options = JsonSchema.orNull json) ↔
    ∃ text, s.typeScript options = text ++ " | null"
  validator : (∃ json, s.schema options = JsonSchema.orNull json) ↔
    ∃ gs, s.validator options = gs ++ Layout.code ".nullable()"
  keys : ∀ keys : List String, s.schema options = JsonSchema.oneOf keys →
    s.typeScript options = " | ".intercalate (keys.map quoted) ∧
    s.validator options = Layout.code ("z.enum([" ++ ", ".intercalate (keys.map quoted) ++ "])")
  fields : ∀ properties required, s.schema options = JsonSchema.exactly properties required →
    ∃ items, s = .tuple items ∧ properties.map Prod.fst = required ∧
      required = (List.range items.length).map TsType.fieldName

theorem agrees (s : Skeleton) : s.Agrees options where
  typeScript := by rw [schema_eq_orNull_iff, typeScript_eq_append_iff]
  validator := by rw [schema_eq_orNull_iff, validator_eq_append_iff]
  keys keys h := by
    rw [eq_enumeration options h, Skeleton.typeScript, Skeleton.validator]
    exact ⟨rfl, rfl⟩
  fields _ _ := exists_eq_tuple options

end Skeleton

theorem TsType.unknown_eq_error {options : MappingOptions} {name : String} {e : Error} :
    TsType.unknown options name = .error e ↔
      options.failOnUnknownLeaf = true ∧ e = .unknownLeaf name := by
  unfold TsType.unknown
  split <;> simp [*, eq_comm]

/-- A type has one skeleton. What is written for the type in each format is the rendering of the
skeleton, except that a validator has blanks behind line feeds of keys inside of tuples; and what is
written at a position renders what stands there. -/
theorem exists_skeleton (options : MappingOptions) (casing : Casing) (table column : String)
    (ty : TypeExpr) {json : Json} (h : JsonSchema.ofType options ty = .ok json) :
    ∃ s : Skeleton, Skeleton.ofType ty = .ok s ∧ json = s.schema options ∧
      (mapType ⟨options, casing, []⟩ table column ty = .ok (s.typeScript options) ∨
        options.failOnUnknownLeaf = true ∧
          ∃ name, mapType ⟨options, casing, []⟩ table column ty = .error (.unknownLeaf name)) ∧
      (∃ expr, Validator.ofType options ty = .ok expr ∧
        (expr = Layout.text (s.validator options) ↔ s.enclosedBreaks = 0)) ∧
      ∀ path sub, s.at? path = some sub →
        JsonSchema.at? json path = some (sub.schema options) ∧
        (sub.typeScript options).toList <:+: (s.typeScript options).toList ∧
        (∃ k, (sub.validator options).map Glyph.indent^[k] <:+: s.validator options) ∧
        sub.Agrees options := by
  have hplain : (JsonSchema.fold options).Plain := fun _ _ => rfl
  have hwithin := TypeFold.within_of_runWithin hplain h
  obtain ⟨s, hs⟩ := TypeFold.exists_run_of_run hplain Skeleton.plain_fold Skeleton.total_fold h
  obtain rfl : json = s.schema options :=
    (Skeleton.respects_schema options).of_runWithin Skeleton.plain_fold hplain hs h
  refine ⟨s, hs, rfl, ?_, ?_, fun path sub hsub => ?_⟩
  · have hplain := TsType.plainFold_plain options
    rw [mapType_eq rfl]
    cases hts : (TsType.plainFold options).run ty with
    | ok t =>
      have ht := (Skeleton.respects_typeScript options).of_runWithin Skeleton.plain_fold hplain hs
        hts
      exact .inl (congrArg (fun t => Except.ok (TsType.text t)) ht)
    | error e =>
      obtain ⟨hlt, -⟩ | ⟨name, he⟩ := TypeFold.error_of_runWithin hplain hwithin hts
      · exact absurd hlt (Nat.lt_irrefl _)
      · obtain ⟨hfail, rfl⟩ := TsType.unknown_eq_error.1 he
        exact .inr ⟨hfail, name, rfl⟩
  · have hplain : (Validator.fold options).Plain := fun _ _ => rfl
    have htotal : (Validator.fold options).Total := fun _ => ⟨_, rfl⟩
    obtain ⟨expr, hexpr⟩ := TypeFold.exists_run_of_run Skeleton.plain_fold hplain htotal hs
    have htracks := (Skeleton.respects_validator options).of_runWithin Skeleton.plain_fold hplain
      hs hexpr
    refine ⟨expr, hexpr, ?_⟩
    rw [← htracks.eq_iff, Layout.text, ← String.toList_inj, String.toList_ofList]
  · exact ⟨Skeleton.at?_schema options hsub, Skeleton.at?_typeScript options hsub,
      Skeleton.at?_validator options hsub, sub.agrees options⟩

/-- A tuple of an enumeration whose key takes two lines. -/
def tupleOfLines : TypeExpr := .mk "Tuple" [.type (.mk "Enum8" [.member "a\nb" 1])]

theorem exists_skeleton_tupleOfLines : ∃ s : Skeleton, Skeleton.ofType tupleOfLines = .ok s ∧
    JsonSchema.exactly [("_0", JsonSchema.oneOf ["a\nb"])] ["_0"] = s.schema {} ∧
    ∃ expr, Validator.ofType {} tupleOfLines = .ok expr ∧
      (expr = Layout.text (s.validator {}) ↔ s.enclosedBreaks = 0) := by
  obtain ⟨s, hs, hschema, -, hexpr, -⟩ :=
    exists_skeleton {} .preserve "t" "c" tupleOfLines rfl
  exact ⟨s, hs, hschema, hexpr⟩

theorem not_exists_skeleton_tupleOfLines :
    mapType ⟨{}, .preserve, []⟩ "t" "c" tupleOfLines = .ok "\x7b _0: 'a\nb' \x7d" ∧
    JsonSchema.ofType {} tupleOfLines =
      .ok (JsonSchema.exactly [("_0", JsonSchema.oneOf ["a\nb"])] ["_0"]) ∧
    Validator.ofType {} tupleOfLines =
      .ok "z.object(\x7b\n  _0: z.enum(['a\n  b']),\n\x7d)" ∧
    ¬ ∃ s : Skeleton, JsonSchema.ofType {} tupleOfLines = .ok (s.schema {}) ∧
      Validator.ofType {} tupleOfLines = .ok (Layout.text (s.validator {})) := by
  refine ⟨by decide +kernel, rfl, by decide +kernel, ?_⟩
  rintro ⟨s, hschema, hvalidator⟩
  have hschema : s.schema {} = JsonSchema.exactly [("_0", JsonSchema.oneOf ["a\nb"])] ["_0"] :=
    (Except.ok.inj hschema).symm
  obtain ⟨items, rfl, -, hrequired⟩ := Skeleton.exists_eq_tuple {} hschema
  obtain ⟨item, rfl⟩ : ∃ item, items = [item] :=
    List.length_eq_one_iff.1 (by simpa using (congrArg List.length hrequired).symm)
  rw [Skeleton.schema] at hschema
  have hitem : TsType.fieldName 0 = "_0" ∧ item.schema {} = JsonSchema.oneOf ["a\nb"] := by
    simpa using (JsonSchema.exactly_inj hschema).1
  rw [Skeleton.eq_enumeration {} hitem.2, Skeleton.validator, List.map_singleton,
    Skeleton.validator] at hvalidator
  revert hvalidator
  decide +kernel

end TypedTables
