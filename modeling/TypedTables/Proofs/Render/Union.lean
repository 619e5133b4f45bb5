import TypedTables.Proofs.Render.Layout
import TypedTables.Proofs.Resolve.Mapped

/-!
Unions. The types that resolution builds by itself know whether they are unions, while the answer of
a plugin is a text that is scanned for a `|` outside brackets and literals. Behind every mapped type
the scan stands where it stood before, so that it finds a union in exactly the types built as one.
-/

namespace TypedTables

namespace UnionScan

/-- Characters that the scan goes by. -/
def special : List Char :=
  ['|', '\x27', '\x22', '\x60', '(', '[', '\x7b', '<', ')', ']', '\x7d', '>']

/-- Text that the scan leaves in as many brackets as it came in, with or without a `|` in none. -/
def Passes (union : Bool) (cs : List Char) : Prop := ∀ depth rest,
  hasUnionFrom (.code depth) (cs ++ rest) =
    (union && depth == 0 || hasUnionFrom (.code depth) rest)

variable {cs ds : List Char} {union union' : Bool} {depth : Nat}

section Passes

theorem Passes.hasTopLevelUnion {text : String} (h : Passes union text.toList) :
    hasTopLevelUnion text = union := by
  have hall := h 0 []
  rwa [List.append_nil, beq_self_eq_true, Bool.and_true, hasUnionFrom, Bool.or_false] at hall

theorem Passes.nil : Passes false [] := fun _ _ => rfl

theorem Passes.append (h : Passes union cs) (h' : Passes union' ds) :
    Passes (union || union') (cs ++ ds) := fun depth rest => by
  rw [List.append_assoc, h, h', ← Bool.or_assoc, Bool.and_or_distrib_right]

theorem hasUnionFrom_code {c : Char} (hc : c ≠ '|') (rest : List Char) :
    hasUnionFrom (.code depth) (c :: rest) = hasUnionFrom (step (.code depth) c) rest := by
  simp [hasUnionFrom, hc]

theorem passes_bar : Passes true ['|'] := fun depth rest => by
  cases depth <;> simp [hasUnionFrom, step]

theorem step_code {c : Char} (hc : c ∉ special) : step (.code depth) c = .code depth := by
  simp only [special, List.mem_cons, List.not_mem_nil, or_false, not_or] at hc
  simp [step, hc]

theorem passes_of_plain (h : ∀ c ∈ cs, c ∉ special) : Passes false cs := by
  induction cs with
  | nil => exact .nil
  | cons c cs ih =>
    obtain ⟨hc, hcs⟩ := List.forall_mem_cons.1 h
    have hbar : c ≠ '|' := fun h => hc (h.symm ▸ List.mem_cons_self)
    intro depth rest
    rw [List.cons_append, hasUnionFrom_code hbar, step_code hc, ih hcs]

theorem passes_text (text : String) (h : text.toList.all (· ∉ special) = true) :
    Passes false text.toList := passes_of_plain fun c hc => by simpa using List.all_eq_true.1 h c hc

/-- Within brackets no `|` makes a union of the whole. -/
theorem Passes.bracket (h : Passes union cs) {c d : Char} (hc : c ≠ '|') (hd : d ≠ '|')
    (hopen : ∀ depth, step (.code depth) c = .code (depth + 1))
    (hclose : ∀ depth, step (.code depth) d = .code (depth - 1)) :
    Passes false (c :: cs ++ [d]) := fun depth rest => by
  rw [List.append_assoc, List.cons_append, hasUnionFrom_code hc, hopen, h, List.singleton_append,
    hasUnionFrom_code hd, hclose, Nat.add_sub_cancel]
  simp

theorem Passes.intercalate {separator : List Char} (hseparator : Passes union separator)
    {xs : List (List Char)} (h : ∀ x ∈ xs, ∃ union, Passes union x) :
    ∃ union, Passes union (separator.intercalate xs) := by
  induction xs with
  | nil => exact ⟨false, .nil⟩
  | cons x xs ih =>
    obtain ⟨⟨_, hx⟩, hxs⟩ := List.forall_mem_cons.1 h
    cases xs with
    | nil => exact ⟨_, by rwa [List.intercalate_singleton]⟩
    | cons y ys =>
      obtain ⟨_, hrest⟩ := ih hxs
      rw [List.intercalate_cons_cons]
      exact ⟨_, (hx.append hseparator).append hrest⟩

theorem hasUnionFrom_literal (scan : List Char) :
    hasUnionFrom (.literal '\x27' false depth) (cs.flatMap quoted.escape ++ scan) =
      hasUnionFrom (.literal '\x27' false depth) scan := by
  induction cs with
  | nil => rfl
  | cons c cs ih =>
    rw [List.flatMap_cons, List.append_assoc, ← ih]
    unfold quoted.escape
    split
    · rfl
    · rfl
    · next hslash hquote => simp [hasUnionFrom, step, if_neg hslash, if_neg hquote]

/-- The scan passes over a literal, whatever it says. -/
theorem passes_quoted (value : String) : Passes false (quoted value).toList := fun depth rest => by
  rw [quoted, String.toList_ofList, List.cons_append, List.cons_append,
    hasUnionFrom_code (by decide), List.append_assoc]
  exact hasUnionFrom_literal _

end Passes

section Types

variable (options : MappingOptions)

theorem passes_array {item : TsType} (h : Passes item.union item.text.toList) :
    Passes (TsType.array item).union (TsType.array item).text.toList := by
  have hbrackets : Passes false "[]".toList :=
    Passes.nil.bracket (by decide) (by decide) (fun _ => rfl) fun _ => rfl
  unfold TsType.array
  split_ifs with hunion
  · have hparens : Passes false ('(' :: item.text.toList ++ [')']) :=
      h.bracket (by decide) (by decide) (fun _ => rfl) fun _ => rfl
    change Passes false ("(" ++ item.text ++ ")[]").toList
    rw [String.toList_append, String.toList_append]
    simpa using hparens.append hbrackets
  · rw [Bool.not_eq_true] at hunion
    rw [hunion] at h
    change Passes false (item.text ++ "[]").toList
    rw [String.toList_append]
    exact h.append hbrackets

theorem passes_fieldName (i : Nat) : Passes false (TsType.fieldName i).toList := by
  refine passes_of_plain fun c hc hspecial => ?_
  have hall : special.all (fun c => c != '_' && !c.isDigit) = true := by decide
  have hother := List.all_eq_true.1 hall c hspecial
  obtain rfl | hdigit := isDigit_of_mem_fieldName hc
  · simp at hother
  · simp [hdigit] at hother

theorem passes_tuple {items : List TsType}
    (h : ∀ item ∈ items, Passes item.union item.text.toList) :
    Passes (TsType.tuple items).union (TsType.tuple items).text.toList := by
  cases items with
  | nil => exact Passes.nil.bracket (by decide) (by decide) (fun _ => rfl) fun _ => rfl
  | cons item rest =>
    let fields := (item :: rest).zipIdx.map fun entry =>
      TsType.fieldName entry.2 ++ ": " ++ entry.1.text
    have hblank : Passes false " ".toList := passes_text _ (by decide)
    obtain ⟨_, hfields⟩ : ∃ union,
        Passes union ("; ".toList.intercalate (fields.map String.toList)) := by
      refine Passes.intercalate (passes_text _ (by decide)) fun text htext => ?_
      rw [List.map_map] at htext
      obtain ⟨entry, hentry, rfl⟩ := List.mem_map.1 htext
      rw [Function.comp_apply, String.toList_append, String.toList_append]
      exact ⟨_, ((passes_fieldName entry.2).append (passes_text _ (by decide))).append
        (h entry.1 (List.fst_mem_of_mem_zipIdx hentry))⟩
    have hall := ((hblank.append hfields).append hblank).bracket (c := '\x7b') (d := '\x7d')
      (by decide) (by decide) (fun _ => rfl) fun _ => rfl
    change Passes false ("\x7b " ++ "; ".intercalate fields ++ " \x7d").toList
    rw [String.toList_append, String.toList_append, String.toList_intercalate]
    simpa using hall

theorem passes_map {value : TsType} (h : Passes value.union value.text.toList) :
    Passes false (TsType.map value).text.toList := by
  have hvalue : Passes (false || value.union) ("string, ".toList ++ value.text.toList) :=
    (passes_text _ (by decide)).append h
  have hrecord : Passes false "Record".toList := passes_text _ (by decide)
  have hall := hrecord.append (hvalue.bracket (c := '<') (d := '>') (by decide) (by decide)
    (fun _ => rfl) fun _ => rfl)
  rw [TsType.map, TsType.single, String.toList_append, String.toList_append]
  simpa using hall

theorem passes_bars : Passes true " | ".toList :=
  ((passes_text " " (by decide)).append passes_bar).append
    (passes_text " " (by decide))

theorem passes_enumeration {keys : List String} (h : keys ≠ []) :
    Passes (1 < keys.length) (TsType.enumeration keys).text.toList := by
  rw [TsType.enumeration, String.toList_intercalate, List.map_map]
  obtain ⟨key, keys, rfl⟩ := List.exists_cons_of_ne_nil h
  cases keys with
  | nil => simpa using passes_quoted key
  | cons next keys =>
    obtain ⟨_, hrest⟩ : ∃ union, Passes union (" | ".toList.intercalate
        ((next :: keys).map (String.toList ∘ quoted))) := by
      refine Passes.intercalate passes_bars fun text htext => ?_
      obtain ⟨key, -, rfl⟩ := List.mem_map.1 htext
      exact ⟨_, passes_quoted key⟩
    rw [List.map_cons, List.map_cons, List.intercalate_cons_cons]
    simpa using ((passes_quoted key).append passes_bars).append hrest

theorem keeps_passes :
    (TsType.plainFold options).Keeps fun mapped => Passes mapped.union mapped.text.toList where
  nullable inner h := by
    change Passes true (inner.text ++ " | null").toList
    have hnull : Passes (true || false) (" | ".toList ++ "null".toList) :=
      passes_bars.append (passes_text _ (by decide))
    rw [String.toList_append]
    simpa using h.append hnull
  array _ h := passes_array h
  tuple _ h := passes_tuple h
  map _ h := passes_map h
  enumeration _ h := passes_enumeration h
  leaf kind := by
    have hall : ∀ text ∈ TsType.leafTexts, text.toList.all (· ∉ special) = true := by decide
    change Passes (TsType.leaf options kind).union _
    rw [TsType.union_leaf]
    exact passes_text _ (hall _ (TsType.leaf_mem options kind))
  unknown name mapped h := by
    simp only [TsType.plainFold, TsType.fold, TsType.unknown] at h
    split_ifs at h
    cases h
    exact passes_text _ (by decide)

end Types

end UnionScan

section Plugins

/-- An array of items that are answered for. -/
theorem TypeFold.runWithin_array {α : Type} {fold : TypeFold α} {array item : TypeExpr} {room : Nat}
    {answer : α} (hshape : array.shape = .array item)
    (hpass : fold.intercept array (maxTypeDepth - (room + 1)) = none)
    (hitem : fold.intercept item (maxTypeDepth - room) = some answer) :
    fold.runWithin (room + 2) array = .ok (fold.array answer) := by
  simp only [runWithin, hpass, hshape, hitem]
  rfl

namespace ResolveOptions

variable (options : ResolveOptions) (table column : String)

/-- What the first plugin that does not pass answers for a node of the type of a column. -/
def answer? (ty : TypeExpr) (depth : Nat) : Option String :=
  options.plugins.findSome? fun plugin => plugin ty ⟨table, column, depth, options.toMappingOptions⟩

/-- What columns are mapped with. -/
def typeFold : TypeFold TsType :=
  TsType.fold options.toMappingOptions fun ty depth =>
    (options.answer? table column ty depth).map TsType.ofText

theorem mapType_eq_typeFold (ty : TypeExpr) :
    mapType options table column ty = TsType.text <$> (options.typeFold table column).run ty := rfl

end ResolveOptions

/-- Each type that resolution builds by itself is a union if a scan of its text finds one. So the
items of an array, wherever it stands, are grouped alike if plugins answer for them with that
text. -/
theorem union_eq_hasTopLevelUnion {mapping : MappingOptions} {ty : TypeExpr} {mapped : TsType}
    (h : (TsType.plainFold mapping).run ty = .ok mapped) :
    mapped.union = hasTopLevelUnion mapped.text ∧
    ∀ (options : ResolveOptions) (table column : String) (array item : TypeExpr) (room : Nat),
      array.shape = .array item →
      options.answer? table column array (maxTypeDepth - (room + 1)) = none →
      options.answer? table column item (maxTypeDepth - room) = some mapped.text →
      (options.typeFold table column).runWithin (room + 2) array = .ok (TsType.array mapped) := by
  have hpasses := (UnionScan.keeps_passes mapping).of_runWithin (TsType.plainFold_plain _) h
  have hunion := hpasses.hasTopLevelUnion
  refine ⟨hunion.symm, fun options table column array item room hshape hpass hanswer => ?_⟩
  have hbuilt : TsType.ofText mapped.text = mapped := by rw [TsType.ofText, hunion]
  refine TypeFold.runWithin_array hshape (congrArg (Option.map TsType.ofText) hpass) ?_
  exact (congrArg (Option.map TsType.ofText) hanswer).trans (congrArg some hbuilt)

/-- A plugin that answers for points with the text of a nullable text. -/
def pointPlugin : Plugin := fun ty _ => if ty.name == "Point" then some "string | null" else none

theorem union_eq_hasTopLevelUnion_point :
    (TsType.plainFold {}).run TypeExpr.text.nullable = .ok ⟨"string | null", true⟩ ∧
    mapType { plugins := [pointPlugin] } "t" "c" (.mk "Array" [.type (.plain "Point")]) =
      .ok "(string | null)[]" := by
  have h : (TsType.plainFold {}).run TypeExpr.text.nullable = .ok ⟨"string | null", true⟩ := by
    decide +kernel
  have harray := (union_eq_hasTopLevelUnion h).2 { plugins := [pointPlugin] } "t" "c"
    (.mk "Array" [.type (.plain "Point")]) (.plain "Point") 18 rfl rfl rfl
  rw [ResolveOptions.mapType_eq_typeFold]
  exact ⟨h, congrArg (TsType.text <$> ·) harray⟩

end Plugins

end TypedTables
