import Mathlib
import TypedTables.Render.Validator

/-!
Layouts of generated code, in which a line break that lays it out is told from a line feed of a
literal. Moving the lines of a text to the right does the same to its layout as long as no literal
has a line feed.
-/

namespace TypedTables

theorem countP_intercalate {α : Type} {p : α → Bool} {separator : List α}
    (h : separator.countP p = 0) (xs : List (List α)) :
    (separator.intercalate xs).countP p = (xs.map (List.countP p)).sum := by
  induction xs with
  | nil => rfl
  | cons x xs ih =>
    cases xs with
    | nil => simp
    | cons y ys =>
      rw [List.intercalate_cons_cons, List.countP_append, List.countP_append, ih, h, Nat.add_zero]
      rfl

theorem count_intercalate {α : Type} [BEq α] {a : α} {separator : List α}
    (h : separator.count a = 0) (xs : List (List α)) :
    (separator.intercalate xs).count a = (xs.map (List.count a)).sum := countP_intercalate h xs

section FieldName

theorem isDigit_of_mem_fieldName {c : Char} {i : Nat} (h : c ∈ (TsType.fieldName i).toList) :
    c = '_' ∨ c.isDigit = true := by
  have hmem : c ∈ '_' :: Nat.toDigits 10 i := by
    simpa [TsType.fieldName, ← Nat.toList_repr] using h
  obtain rfl | hc := List.mem_cons.1 hmem
  · exact .inl rfl
  · exact .inr (Nat.isDigit_of_mem_toDigits (by decide) (by decide) hc)

theorem fieldName_injective : Function.Injective TsType.fieldName := fun i j h => by
  have hrepr : i.repr = j.repr := by simpa [TsType.fieldName] using h
  exact Nat.repr_inj.1 hrepr

theorem propertyKey_fieldName (i : Nat) :
    propertyKey (TsType.fieldName i) = TsType.fieldName i := by
  have hcons : (TsType.fieldName i).toList = '_' :: Nat.toDigits 10 i := by
    simp [TsType.fieldName, ← Nat.toList_repr]
  have hall : (Nat.toDigits 10 i).all isKeyPart = true := by
    rw [List.all_eq_true]
    intro c hc
    have hdigit : c.isDigit = true := Nat.isDigit_of_mem_toDigits (by decide) (by decide) hc
    simp [isKeyPart, Char.isAlphanum, hdigit]
  unfold propertyKey
  rw [hcons]
  exact if_pos hall

theorem lineFeed_not_mem_fieldName (i : Nat) : '\n' ∉ (TsType.fieldName i).toList := by
  intro h
  obtain h | h := isDigit_of_mem_fieldName h <;> contradiction

end FieldName

/-- A character of the code, or a line break with two blanks behind it for each object around. -/
inductive Glyph
  | char (c : Char)
  | newline (depth : Nat)
  deriving DecidableEq

namespace Glyph

def chars : Glyph → List Char
  | .char c => [c]
  | .newline depth => '\n' :: List.replicate (2 * depth) ' '

def indent : Glyph → Glyph
  | .char c => .char c
  | .newline depth => .newline (depth + 1)

def isLineFeed : Glyph → Bool
  | .char c => c == '\n'
  | .newline _ => false

end Glyph

namespace Layout

variable {gs hs : List Glyph}

def chars (gs : List Glyph) : List Char := gs.flatMap Glyph.chars

def text (gs : List Glyph) : String := String.ofList (chars gs)

/-- Code without line breaks that lay it out. -/
def code (text : String) : List Glyph := text.toList.map .char

/-- Line feeds that do not lay the code out. -/
def lineFeeds (gs : List Glyph) : Nat := gs.countP Glyph.isLineFeed

theorem chars_cons (g : Glyph) (gs : List Glyph) : chars (g :: gs) = g.chars ++ chars gs :=
  List.flatMap_cons

theorem chars_append (gs hs : List Glyph) : chars (gs ++ hs) = chars gs ++ chars hs :=
  List.flatMap_append

theorem chars_code (text : String) : chars (code text) = text.toList := by
  simp [chars, code, List.flatMap_map, Glyph.chars]

theorem lineFeeds_append (gs hs : List Glyph) :
    lineFeeds (gs ++ hs) = lineFeeds gs + lineFeeds hs := List.countP_append

theorem lineFeeds_code (text : String) : lineFeeds (code text) = text.toList.count '\n' := by
  simp [lineFeeds, code, List.countP_map, List.count, Function.comp_def, Glyph.isLineFeed]

theorem lineFeeds_le (gs : List Glyph) : lineFeeds gs ≤ (chars gs).count '\n' := by
  induction gs with
  | nil => exact Nat.le_refl 0
  | cons g gs ih =>
    rw [chars_cons, List.count_append, lineFeeds, List.countP_cons, ← lineFeeds]
    cases g with
    | char c =>
      have hcount : [c].count '\n' = if Glyph.isLineFeed (.char c) then 1 else 0 :=
        List.count_singleton
      rw [Glyph.chars, hcount]
      omega
    | newline depth =>
      rw [Glyph.isLineFeed, if_neg Bool.false_ne_true]
      omega

theorem hasLineBreak_iff (text : String) :
    Validator.hasLineBreak text = true ↔ 0 < text.toList.count '\n' := by
  rw [Validator.hasLineBreak, List.contains_iff_mem, List.count_pos_iff]

theorem lineFeeds_indent (gs : List Glyph) : lineFeeds (gs.map .indent) = lineFeeds gs := by
  rw [lineFeeds, List.countP_map]
  exact List.countP_congr fun g _ => by cases g <;> rfl

/-- What moving the lines of a text to the right does to its characters. -/
def indentChars (cs : List Char) : List Char :=
  cs.flatMap fun c => if c = '\n' then ['\n', ' ', ' '] else [c]

theorem toList_indent (text : String) : (Validator.indent text).toList = indentChars text.toList :=
  String.toList_ofList

theorem indentChars_append (cs ds : List Char) :
    indentChars (cs ++ ds) = indentChars cs ++ indentChars ds := List.flatMap_append

theorem count_indentChars (cs : List Char) : (indentChars cs).count '\n' = cs.count '\n' := by
  induction cs with
  | nil => rfl
  | cons c cs ih =>
    rw [indentChars, List.flatMap_cons, ← indentChars, List.count_append, ih]
    by_cases hc : c = '\n'
    · simp [hc, Nat.add_comm]
    · simp [hc]

theorem length_indentChars (cs : List Char) :
    (indentChars cs).length = cs.length + 2 * cs.count '\n' := by
  induction cs with
  | nil => rfl
  | cons c cs ih =>
    rw [indentChars, List.flatMap_cons, ← indentChars, List.length_append, ih]
    by_cases hc : c = '\n' <;> simp [hc] <;> omega

theorem indentChars_of_not_mem {cs : List Char} (h : '\n' ∉ cs) : indentChars cs = cs := by
  induction cs with
  | nil => rfl
  | cons c cs ih =>
    obtain ⟨hc, hcs⟩ := not_or.1 (mt List.mem_cons.2 h)
    rw [indentChars, List.flatMap_cons, ← indentChars, ih hcs, if_neg (Ne.symm hc)]
    rfl

theorem count_chars_indent (gs : List Glyph) :
    (chars (gs.map .indent)).count '\n' = (chars gs).count '\n' := by
  induction gs with
  | nil => rfl
  | cons g gs ih =>
    rw [List.map_cons, chars_cons, chars_cons, List.count_append, List.count_append, ih]
    cases g <;> simp [Glyph.indent, Glyph.chars, List.count_replicate]

theorem length_chars_indent (gs : List Glyph) : (chars (gs.map .indent)).length + 2 * lineFeeds gs =
    (chars gs).length + 2 * (chars gs).count '\n' := by
  induction gs with
  | nil => rfl
  | cons g gs ih =>
    rw [List.map_cons, chars_cons, chars_cons, List.count_append, List.length_append,
      List.length_append, lineFeeds, List.countP_cons, ← lineFeeds]
    cases g with
    | char c =>
      have hcount : [c].count '\n' = if Glyph.isLineFeed (.char c) then 1 else 0 :=
        List.count_singleton
      rw [Glyph.chars, hcount, Glyph.indent, Glyph.chars]
      omega
    | newline depth =>
      have hblanks : (List.replicate (2 * depth) ' ').count '\n' = 0 := by
        simp [List.count_replicate]
      simp [Glyph.indent, Glyph.chars, Glyph.isLineFeed, hblanks]
      omega

theorem indentChars_chars {gs : List Glyph} (h : lineFeeds gs = 0) :
    indentChars (chars gs) = chars (gs.map .indent) := by
  induction gs with
  | nil => rfl
  | cons g gs ih =>
    rw [lineFeeds, List.countP_cons, ← lineFeeds] at h
    rw [List.map_cons, chars_cons, chars_cons, indentChars_append, ih (by omega)]
    congr 1
    cases g with
    | char c =>
      have hc : c ≠ '\n' := by
        rintro rfl
        simp [Glyph.isLineFeed] at h
      exact indentChars_of_not_mem (by simpa [Glyph.chars] using hc.symm)
    | newline depth =>
      have hblanks : indentChars (List.replicate (2 * depth) ' ') = _ :=
        indentChars_of_not_mem (by simp)
      change ['\n', ' ', ' '] ++ indentChars (List.replicate (2 * depth) ' ') =
        '\n' :: List.replicate (2 * depth + 2) ' '
      rw [hblanks]
      rfl

def inlineObject (entries : List (List Glyph)) : List Glyph :=
  code "z.object(\x7b " ++ (code ", ").intercalate entries ++ code " \x7d)"

/-- One line for each entry, moved to the right. -/
def blockObject (entries : List (List Glyph)) : List Glyph :=
  code "z.object(\x7b" ++ [.newline 0] ++
    (entries.flatMap fun entry => code "  " ++ entry.map .indent ++ code "," ++ [.newline 0]) ++
    code "\x7d)"

def entries (values : List (List Glyph)) : List (List Glyph) :=
  values.zipIdx.map fun (value, i) => code (TsType.fieldName i ++ ": ") ++ value

/-- The layout of a tuple whose fields have these layouts. -/
def tuple (values : List (List Glyph)) : List Glyph :=
  match values with
  | [] => code "z.object(\x7b\x7d)"
  | values =>
    if !(entries values).any (Validator.hasLineBreak <| text ·) &&
        values.length ≤ Validator.maxInlineFields &&
        (text (inlineObject (entries values))).utf8ByteSize ≤ Validator.maxInlineWidth then
      inlineObject (entries values)
    else blockObject (entries values)

end Layout

open Layout

/-- The characters of generated code, beside its layout: they have the same lines, and `n` times
too many of them have been moved to the right. -/
structure Tracks (cs : List Char) (gs : List Glyph) (n : Nat) : Prop where
  count : cs.count '\n' = (chars gs).count '\n'
  length : cs.length = (chars gs).length + 2 * n
  eq : n = 0 → cs = chars gs

namespace Tracks

variable {cs ds : List Char} {gs hs : List Glyph} {m n : Nat}

theorem eq_iff (h : Tracks cs gs n) : cs = chars gs ↔ n = 0 := by
  refine ⟨fun heq => ?_, h.eq⟩
  have hlength := h.length
  rw [heq] at hlength
  omega

theorem code (text : String) : Tracks text.toList (Layout.code text) 0 := by
  have hchars := chars_code text
  exact ⟨by rw [hchars], by rw [hchars]; rfl, fun _ => hchars.symm⟩

theorem newline : Tracks ['\n'] [.newline 0] 0 := ⟨rfl, rfl, fun _ => rfl⟩

theorem append (h : Tracks cs gs m) (h' : Tracks ds hs n) :
    Tracks (cs ++ ds) (gs ++ hs) (m + n) where
  count := by rw [chars_append, List.count_append, List.count_append, h.count, h'.count]
  length := by
    rw [chars_append, List.length_append, List.length_append, h.length, h'.length]
    omega
  eq hmn := by rw [chars_append, h.eq (by omega), h'.eq (by omega)]

/-- Moving all lines to the right moves what is behind a line feed of a literal, too. -/
theorem indent (h : Tracks cs gs n) :
    Tracks (indentChars cs) (gs.map .indent) (n + lineFeeds gs) where
  count := by rw [count_indentChars, h.count, count_chars_indent]
  length := by
    have hlength := length_chars_indent gs
    rw [length_indentChars, h.length, h.count]
    omega
  eq hn := by
    rw [h.eq (by omega), indentChars_chars (by omega)]

end Tracks

/-- Layouts with the names of fields before them. -/
def Layout.numbered (k : Nat) (layouts : List (List Glyph × Nat)) : List (List Glyph × Nat) :=
  (layouts.zipIdx k).map fun entry =>
    (code (TsType.fieldName entry.2 ++ ": ") ++ entry.1.1, entry.1.2)

/-- Texts of generated code, beside their layouts and how often each has been moved too far. -/
abbrev TracksAll (texts : List String) (layouts : List (List Glyph × Nat)) : Prop :=
  List.Forall₂ (fun text layout => Tracks text.toList layout.1 layout.2) texts layouts

namespace TracksAll

variable {texts : List String} {layouts : List (List Glyph × Nat)}

theorem intercalate (h : TracksAll texts layouts) (separator : String) :
    Tracks (separator.intercalate texts).toList
      ((code separator).intercalate (layouts.map (·.1))) (layouts.map (·.2)).sum := by
  rw [String.toList_intercalate]
  induction h with
  | nil => exact .code ""
  | cons hfirst hrest ih =>
    cases hrest with
    | nil => simpa using hfirst
    | cons hsecond hrest =>
      have h := (hfirst.append (.code separator)).append ih
      simpa using h

theorem inlineObject (h : TracksAll texts layouts) :
    Tracks (Validator.inlineObject texts).toList (Layout.inlineObject (layouts.map (·.1)))
      (layouts.map (·.2)).sum := by
  have h := ((Tracks.code "z.object(\x7b ").append (h.intercalate ", ")).append (.code " \x7d)")
  rw [Validator.inlineObject, String.toList_append, String.toList_append]
  simpa [Layout.inlineObject] using h

theorem lines (h : TracksAll texts layouts) :
    Tracks (texts.flatMap fun entry => ("  " ++ Validator.indent entry ++ ",\n").toList)
      (layouts.flatMap fun layout =>
        code "  " ++ layout.1.map .indent ++ code "," ++ [.newline 0])
      (layouts.map fun layout => layout.2 + lineFeeds layout.1).sum := by
  induction h with
  | nil => exact .code ""
  | @cons entry layout texts layouts hfirst hrest ih =>
    have hentry := (Tracks.code "  ").append hfirst.indent
    have h := (hentry.append ((Tracks.code ",").append .newline)).append ih
    simpa [toList_indent] using h

theorem blockObject (h : TracksAll texts layouts) :
    Tracks (Validator.blockObject texts).toList (Layout.blockObject (layouts.map (·.1)))
      (layouts.map fun layout => layout.2 + lineFeeds layout.1).sum := by
  have hopen := (Tracks.code "z.object(\x7b").append .newline
  have h := (hopen.append h.lines).append (.code "\x7d)")
  rw [Validator.blockObject, String.toList_append, String.toList_append, String.toList_join,
    List.flatMap_map]
  simpa [Layout.blockObject, List.flatMap_map] using h

theorem hasLineBreak (h : TracksAll texts layouts) : texts.any Validator.hasLineBreak =
    (layouts.map (·.1)).any (Validator.hasLineBreak <| text ·) := by
  induction h with
  | nil => rfl
  | @cons entry layout texts layouts hfirst hrest ih =>
    have hiff : Validator.hasLineBreak entry = Validator.hasLineBreak (text layout.1) := by
      rw [Bool.eq_iff_iff, hasLineBreak_iff, hasLineBreak_iff, hfirst.count, text,
        String.toList_ofList]
    rw [List.map_cons, List.any_cons, List.any_cons, hiff, ih]

/-- Without line breaks nothing can be moved. -/
theorem eq_zero (h : TracksAll texts layouts)
    (hplain : ∀ layout ∈ layouts, lineFeeds layout.1 = 0 → layout.2 = 0)
    (hbreak : texts.any Validator.hasLineBreak = false) :
    (layouts.map (·.2)).sum = 0 ∧
      (layouts.map fun layout => layout.2 + lineFeeds layout.1).sum = 0 := by
  rw [h.hasLineBreak, List.any_eq_false] at hbreak
  have hzero (layout) (hlayout : layout ∈ layouts) : layout.2 = 0 ∧ lineFeeds layout.1 = 0 := by
    have hnot := hbreak layout.1 (List.mem_map_of_mem hlayout)
    rw [hasLineBreak_iff, text, String.toList_ofList] at hnot
    have hle := lineFeeds_le layout.1
    have hfeeds : lineFeeds layout.1 = 0 := by omega
    exact ⟨hplain layout hlayout hfeeds, hfeeds⟩
  constructor
  · refine List.sum_eq_zero fun n hn => ?_
    obtain ⟨layout, hlayout, rfl⟩ := List.mem_map.1 hn
    exact (hzero layout hlayout).1
  · refine List.sum_eq_zero fun n hn => ?_
    obtain ⟨layout, hlayout, rfl⟩ := List.mem_map.1 hn
    exact Nat.add_eq_zero_iff.2 (hzero layout hlayout)

theorem numbered (h : TracksAll texts layouts) (k : Nat) :
    TracksAll ((texts.zipIdx k).map fun (text, i) => TsType.fieldName i ++ ": " ++ text)
      (Layout.numbered k layouts) := by
  induction h generalizing k with
  | nil => exact .nil
  | cons hfirst hrest ih =>
    refine .cons ?_ (ih (k + 1))
    rw [String.toList_append]
    simpa using (Tracks.code (TsType.fieldName k ++ ": ")).append hfirst

end TracksAll

section Numbered

variable {layouts : List (List Glyph × Nat)}

theorem lineFeeds_entry (i : Nat) (gs : List Glyph) :
    lineFeeds (code (TsType.fieldName i ++ ": ") ++ gs) = lineFeeds gs := by
  have hkey : (TsType.fieldName i ++ ": ").toList.count '\n' = 0 := by
    rw [String.toList_append, List.count_append,
      List.count_eq_zero.2 (lineFeed_not_mem_fieldName i)]
    rfl
  rw [lineFeeds_append, lineFeeds_code, hkey, Nat.zero_add]

theorem numbered_fst (layouts : List (List Glyph × Nat)) :
    (numbered 0 layouts).map (·.1) = entries (layouts.map (·.1)) := by
  simp [numbered, entries, List.zipIdx_map, Function.comp_def]

theorem numbered_moved (k : Nat) (layouts : List (List Glyph × Nat)) :
    (numbered k layouts).map (fun layout => layout.2 + lineFeeds layout.1) =
      layouts.map fun layout => layout.2 + lineFeeds layout.1 := by
  induction layouts generalizing k with
  | nil => rfl
  | cons layout layouts ih =>
    have ih : ((layouts.zipIdx (k + 1)).map _).map _ = _ := ih (k + 1)
    rw [numbered, List.zipIdx_cons, List.map_cons, List.map_cons, List.map_cons, ih,
      lineFeeds_entry]

theorem plain_numbered (hplain : ∀ layout ∈ layouts, lineFeeds layout.1 = 0 → layout.2 = 0)
    (k : Nat) : ∀ layout ∈ numbered k layouts, lineFeeds layout.1 = 0 → layout.2 = 0 := by
  intro entry hentry hfeeds
  obtain ⟨⟨layout, i⟩, hlayout, rfl⟩ := List.mem_map.1 hentry
  rw [lineFeeds_entry] at hfeeds
  exact hplain layout (List.fst_mem_of_mem_zipIdx hlayout) hfeeds

end Numbered

theorem Validator.object_of_ne_nil {fields : List (String × String)} (h : fields ≠ []) :
    Validator.object fields =
      let entries := fields.map fun (key, expr) => propertyKey key ++ ": " ++ expr
      if !entries.any hasLineBreak && fields.length ≤ maxInlineFields &&
          (Validator.inlineObject entries).utf8ByteSize ≤ maxInlineWidth then
        Validator.inlineObject entries
      else Validator.blockObject entries := by
  cases fields with
  | nil => contradiction
  | cons field fields => rfl

theorem Layout.tuple_of_ne_nil {values : List (List Glyph)} (h : values ≠ []) :
    Layout.tuple values =
      if !(entries values).any (Validator.hasLineBreak <| text ·) &&
          values.length ≤ Validator.maxInlineFields &&
          (text (inlineObject (entries values))).utf8ByteSize ≤ Validator.maxInlineWidth then
        inlineObject (entries values)
      else blockObject (entries values) := by
  cases values with
  | nil => contradiction
  | cons value values => rfl

section LineFeeds

variable (es : List (List Glyph))

theorem lineFeeds_inlineObject : lineFeeds (Layout.inlineObject es) = (es.map lineFeeds).sum := by
  have hjoin : lineFeeds ((code ", ").intercalate es) = (es.map lineFeeds).sum :=
    countP_intercalate rfl es
  rw [Layout.inlineObject, lineFeeds_append, lineFeeds_append, hjoin, lineFeeds_code,
    lineFeeds_code]
  simp

theorem lineFeeds_blockObject : lineFeeds (Layout.blockObject es) = (es.map lineFeeds).sum := by
  have hlines : lineFeeds (es.flatMap fun entry =>
      code "  " ++ entry.map .indent ++ code "," ++ [.newline 0]) = (es.map lineFeeds).sum := by
    induction es with
    | nil => rfl
    | cons e es ih =>
      rw [List.flatMap_cons, lineFeeds_append, ih, lineFeeds_append, lineFeeds_append,
        lineFeeds_append, lineFeeds_indent, lineFeeds_code, lineFeeds_code, List.map_cons,
        List.sum_cons]
      simp [lineFeeds, Glyph.isLineFeed]
  rw [Layout.blockObject, lineFeeds_append, lineFeeds_append, lineFeeds_append, hlines,
    lineFeeds_code, lineFeeds_code]
  simp [lineFeeds, Glyph.isLineFeed]

theorem lineFeeds_tuple (values : List (List Glyph)) :
    lineFeeds (Layout.tuple values) = (values.map lineFeeds).sum := by
  have hentries : (Layout.entries values).map lineFeeds = values.map lineFeeds := by
    have hfeeds : lineFeeds ∘ (fun entry : List Glyph × Nat =>
        code (TsType.fieldName entry.2 ++ ": ") ++ entry.1) = lineFeeds ∘ Prod.fst :=
      funext fun entry => lineFeeds_entry entry.2 entry.1
    rw [Layout.entries, List.map_map]
    exact (congrArg (List.map · values.zipIdx) hfeeds).trans (by simp [← List.map_map])
  cases hvalues : values with
  | nil => exact lineFeeds_code _
  | cons value rest =>
    rw [← hvalues, Layout.tuple_of_ne_nil (by simp [hvalues])]
    split_ifs
    · rw [lineFeeds_inlineObject, hentries]
    · rw [lineFeeds_blockObject, hentries]

end LineFeeds

/-- The validator of a tuple, beside its layout. -/
theorem TracksAll.tuple {texts : List String} {layouts : List (List Glyph × Nat)}
    (h : TracksAll texts layouts)
    (hplain : ∀ layout ∈ layouts, lineFeeds layout.1 = 0 → layout.2 = 0) :
    Tracks (Validator.object (texts.zipIdx.map fun (text, i) => (TsType.fieldName i, text))).toList
      (Layout.tuple (layouts.map (·.1)))
      (layouts.map fun layout => layout.2 + lineFeeds layout.1).sum := by
  cases hlayouts : layouts with
  | nil =>
    obtain rfl : texts = [] := List.forall₂_nil_right_iff.1 (hlayouts ▸ h)
    exact .code "z.object(\x7b\x7d)"
  | cons layout rest =>
    rw [← hlayouts]
    have hne : texts ≠ [] := by
      rintro rfl
      cases hlayouts ▸ h
    have hentries := h.numbered 0
    have hblock := hentries.blockObject
    have hinline := hentries.inlineObject
    have hbreak := hentries.hasLineBreak
    rw [numbered_fst] at hblock hinline hbreak
    rw [numbered_moved] at hblock
    rw [Validator.object_of_ne_nil (by simpa using hne),
      Layout.tuple_of_ne_nil (by simp [hlayouts])]
    have hkeys : (texts.zipIdx.map fun (text, i) => (TsType.fieldName i, text)).map
        (fun (key, expr) => propertyKey key ++ ": " ++ expr) =
        texts.zipIdx.map fun (text, i) => TsType.fieldName i ++ ": " ++ text := by
      simp [propertyKey_fieldName]
    have hlength : (texts.zipIdx.map fun (text, i) => (TsType.fieldName i, text)).length =
        (layouts.map (·.1)).length := by
      simp [h.length_eq]
    dsimp only
    rw [hkeys, hlength]
    cases hany : (Layout.entries (layouts.map (·.1))).any (Validator.hasLineBreak <| text ·) with
    | true =>
      rw [hbreak, hany]
      exact hblock
    | false =>
      obtain ⟨hzero, hmoved⟩ := hentries.eq_zero (plain_numbered hplain 0) (hbreak.trans hany)
      rw [numbered_moved] at hmoved
      rw [hmoved] at hblock ⊢
      rw [hzero] at hinline
      have hwidth : Validator.inlineObject _ = text _ :=
        String.toList_inj.1 ((hinline.eq rfl).trans String.toList_ofList.symm)
      rw [hbreak, hany, hwidth]
      split_ifs
      · exact hwidth ▸ hinline
      · exact hblock

end TypedTables
