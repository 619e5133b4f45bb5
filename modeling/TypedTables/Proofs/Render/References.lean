import TypedTables.Proofs.Render.Declarations
import TypedTables.Proofs.Render.Layout
import TypedTables.Proofs.Resolve.Settled
import TypedTables.Proofs.TypeExpr.Related

/-!
The names that generated code refers to. A type or a validator refers to a name by a word outside
its literals that is neither a key nor a member, and a module declares exactly those names that its
types and validators refer to.
-/

namespace TypedTables

/-- A token of TypeScript code, as far as references go. -/
inductive CodeToken
  | word (text : List Char)
  | literal
  | sign (c : Char)
  deriving DecidableEq

/-- Names outside ASCII count as words, too. -/
def CodeToken.isWordPart (c : Char) : Bool := isKeyPart c || 127 < c.toNat

def CodeToken.opensLiteral (c : Char) : Bool := c = '\x27' || c = '\x22' || c = '\x60'

/-- A word that has been read, last character first. -/
def CodeToken.ended (letters : List Char) : List CodeToken :=
  if letters.isEmpty then [] else [.word letters.reverse]

/-- A scan of TypeScript code: outside literals, with the word that is being read, or inside one,
with the quote that ends it and whether the next character is escaped. -/
inductive CodeScan
  | code (letters : List Char)
  | literal (quote : Char) (escaped : Bool)

namespace CodeScan

open CodeToken

def tokens : CodeScan → List Char → List CodeToken
  | .code letters, [] => ended letters
  | .code letters, c :: rest =>
    if isWordPart c then tokens (.code (c :: letters)) rest
    else if opensLiteral c then ended letters ++ .literal :: tokens (.literal c false) rest
    else if c.isWhitespace then ended letters ++ tokens (.code []) rest
    else ended letters ++ .sign c :: tokens (.code []) rest
  | .literal _ _, [] => []
  | .literal quote true, _ :: rest => tokens (.literal quote false) rest
  | .literal quote false, c :: rest =>
    if c = '\\' then tokens (.literal quote true) rest
    else if c = quote then tokens (.code []) rest
    else tokens (.literal quote false) rest

end CodeScan

/-- The words that are neither members, behind a dot, nor keys, before a colon. -/
def CodeToken.references (member : Bool) : List CodeToken → List (List Char)
  | [] => []
  | .word text :: rest =>
    if member || rest.head? = some (.sign ':') then references false rest
    else text :: references false rest
  | token :: rest => references (token = .sign '.') rest

/-- The names that code refers to. -/
def references (code : List Char) : List (List Char) :=
  CodeToken.references false (CodeScan.tokens (.code []) code)

/-- Whether code refers to a name outside its literals. -/
def refersTo (name code : String) : Bool := (references code.toList).contains name.toList

example : refersTo "Decimal" "Record<string, Decimal>" = true := by decide +kernel

example : refersTo "Decimal" "z.object(\x7b Decimal: z.enum(['Decimal']) \x7d)" = false := by
  decide +kernel

section Compose

open CodeToken

variable {cs ds rest : List Char} {names others : List (List Char)}

/-- Text that ends a word before it and does not make it a key. -/
def Ends (rest : List Char) : Prop :=
  (∀ c ∈ rest.head?, isWordPart c = false) ∧
    (CodeScan.tokens (.code []) rest).head? ≠ some (.sign ':')

/-- What a whole word, or text that ends in one, refers to. -/
def Refers (cs : List Char) (names : List (List Char)) : Prop :=
  ∀ rest, Ends rest → references (cs ++ rest) = names ++ references rest

/-- What text refers to whatever follows. -/
def Closed (cs : List Char) (names : List (List Char)) : Prop :=
  ∀ rest, references (cs ++ rest) = names ++ references rest

theorem Closed.refers (h : Closed cs names) : Refers cs names := fun rest _ => h rest

theorem Closed.append (h : Closed cs names) (h' : Closed ds others) :
    Closed (cs ++ ds) (names ++ others) := fun rest => by
  rw [List.append_assoc, h, h', List.append_assoc]

theorem Closed.append_refers (h : Closed cs names) (h' : Refers ds others) :
    Refers (cs ++ ds) (names ++ others) := fun rest hrest => by
  rw [List.append_assoc, h, h' rest hrest, List.append_assoc]

theorem Refers.append_closed (h : Refers cs names) (hends : ∀ rest, Ends (ds ++ rest))
    (h' : Closed ds others) : Closed (cs ++ ds) (names ++ others) := fun rest => by
  rw [List.append_assoc, h _ (hends rest), h', List.append_assoc]

theorem Refers.append (h : Refers cs names) (hends : ∀ rest, Ends (ds ++ rest))
    (h' : Refers ds others) : Refers (cs ++ ds) (names ++ others) := fun rest hrest => by
  rw [List.append_assoc, h _ (hends rest), h' rest hrest, List.append_assoc]

theorem tokens_ended {letters : List Char} (h : ∀ c ∈ rest.head?, isWordPart c = false) :
    CodeScan.tokens (.code letters) rest =
      ended letters ++ CodeScan.tokens (.code []) rest := by
  cases rest with
  | nil => simp [CodeScan.tokens, ended]
  | cons c rest =>
    have hc := h c rfl
    simp only [CodeScan.tokens, hc, ended, Bool.false_eq_true, if_false, List.isEmpty_nil, if_true,
      List.nil_append]
    split_ifs <;> simp

theorem tokens_letters {letters : List Char} (h : cs.all isWordPart = true) :
    CodeScan.tokens (.code letters) (cs ++ rest) =
      CodeScan.tokens (.code (cs.reverse ++ letters)) rest := by
  induction cs generalizing letters with
  | nil => rfl
  | cons c cs ih =>
    rw [List.all_cons, Bool.and_eq_true] at h
    rw [List.cons_append, CodeScan.tokens, if_pos h.1, ih h.2, List.reverse_cons,
      List.append_assoc]
    rfl

theorem tokens_word (h : cs.all isWordPart = true) (hne : cs ≠ [])
    (hrest : ∀ c ∈ rest.head?, isWordPart c = false) :
    CodeScan.tokens (.code []) (cs ++ rest) = .word cs :: CodeScan.tokens (.code []) rest := by
  rw [tokens_letters h, List.append_nil, tokens_ended hrest, ended, List.isEmpty_reverse,
    List.isEmpty_eq_false_iff.2 hne, List.reverse_reverse]
  rfl

theorem refers_word (cs : List Char) (h : cs.all isWordPart = true) (hne : cs ≠ []) :
    Refers cs [cs] :=
  fun rest hrest => by
    rw [references, tokens_word h hne hrest.1, CodeToken.references, Bool.false_or,
      if_neg (by simpa using hrest.2)]
    rfl

theorem closed_key (h : cs.all isWordPart = true) (hne : cs ≠ []) : Closed (cs ++ [':', ' ']) [] :=
  fun rest => by
    rw [List.append_assoc, references, tokens_word h hne (by rintro _ ⟨⟩; rfl)]
    rfl

theorem tokens_escape (c : Char) : CodeScan.tokens (.literal '\x27' false) (quoted.escape c ++ rest) =
    CodeScan.tokens (.literal '\x27' false) rest := by
  unfold quoted.escape
  split
  · rfl
  · rfl
  · next hslash hquote =>
    rw [List.singleton_append, CodeScan.tokens, if_neg hslash, if_neg hquote]

theorem closed_quoted (value : String) : Closed (quoted value).toList [] := fun rest => by
  have hvalue (cs : List Char) :
      CodeScan.tokens (.literal '\x27' false) (cs.flatMap quoted.escape ++ '\x27' :: rest) =
        CodeScan.tokens (.code []) rest := by
    induction cs with
    | nil => rfl
    | cons c cs ih => rw [List.flatMap_cons, List.append_assoc, tokens_escape, ih]
  have hliteral : CodeScan.tokens (.code []) ((quoted value).toList ++ rest) =
      .literal :: CodeScan.tokens (.code []) rest := by
    rw [← hvalue value.toList, quoted, String.toList_ofList, List.cons_append, List.cons_append,
      List.append_assoc]
    rfl
  rw [references, hliteral]
  rfl

end Compose

section Indent

open CodeToken Layout

variable {cs rest : List Char}

/-- A scan that stands inside a literal knows its quote. -/
def CodeScan.Quoted : CodeScan → Prop
  | .code _ => True
  | .literal quote _ => opensLiteral quote = true

theorem tokens_blanks {quote : Char} (h : opensLiteral quote = true) (cs : List Char) :
    CodeScan.tokens (.literal quote false) (' ' :: ' ' :: cs) =
      CodeScan.tokens (.literal quote false) cs := by
  have hquote : ' ' ≠ quote := by
    rintro rfl
    contradiction
  simp [CodeScan.tokens, hquote]

/-- Code that has been moved to the right has the tokens it had: blanks behind a line break are
outside the words, or inside a literal. -/
theorem tokens_indentChars (scan : CodeScan) (h : scan.Quoted) :
    scan.tokens (indentChars cs ++ rest) = scan.tokens (cs ++ rest) := by
  induction cs generalizing scan with
  | nil => rfl
  | cons c cs ih =>
    have hcode (letters : List Char) := ih (.code letters) trivial
    have hliteral {quote : Char} (escaped : Bool) (hq : opensLiteral quote = true) :=
      ih (.literal quote escaped) hq
    have hstep : indentChars (c :: cs) = indentChars [c] ++ indentChars cs :=
      indentChars_append [c] cs
    rw [hstep, List.append_assoc, List.cons_append]
    by_cases hc : c = '\n'
    · subst hc
      change scan.tokens ('\n' :: ' ' :: ' ' :: (indentChars cs ++ rest)) = _
      cases scan with
      | code letters =>
        have hblanks : CodeScan.tokens (.code []) (' ' :: ' ' :: (indentChars cs ++ rest)) =
            CodeScan.tokens (.code []) (indentChars cs ++ rest) := rfl
        change ended letters ++ CodeScan.tokens (.code []) _ =
          ended letters ++ CodeScan.tokens (.code []) _
        rw [hblanks, hcode]
      | literal quote escaped =>
        cases escaped with
        | true =>
          change CodeScan.tokens (.literal quote false) _ = CodeScan.tokens (.literal quote false) _
          rw [tokens_blanks h, hliteral false h]
        | false =>
          have hquote : '\n' ≠ quote := by
            rintro rfl
            contradiction
          have hline (cs : List Char) : CodeScan.tokens (.literal quote false) ('\n' :: cs) =
              CodeScan.tokens (.literal quote false) cs := by
            rw [CodeScan.tokens, if_neg (by decide), if_neg hquote]
          rw [hline, hline, tokens_blanks h, hliteral false h]
    · have hplain : indentChars [c] = [c] := indentChars_of_not_mem (by simpa using Ne.symm hc)
      rw [hplain, List.singleton_append]
      cases scan with
      | code letters =>
        simp only [CodeScan.tokens, hcode]
        split_ifs with hword hopens
        · rfl
        · rw [hliteral false hopens]
        · rfl
        · rfl
      | literal quote escaped =>
        cases escaped with
        | true => exact hliteral false h
        | false => simp only [CodeScan.tokens, hcode, hliteral _ h]

theorem Refers.indent {names : List (List Char)} (h : Refers cs names) :
    Refers (indentChars cs) names := fun rest hrest => by
  rw [references, tokens_indentChars (.code []) trivial]
  exact h rest hrest

end Indent

section Texts

open CodeToken Layout

/-- The signs that stand behind whole expressions in generated code. -/
def signs : List Char := ['(', ')', '[', ']', '\x7b', '\x7d', '>', ',', ';', '.', '|']

theorem ends_sign {c : Char} (h : c ∈ signs) (rest : List Char) : Ends (c :: rest) := by
  have hall : signs.all (fun c => !isWordPart c && !opensLiteral c && !c.isWhitespace && c != ':') =
      true := by decide +kernel
  have hc := List.all_eq_true.1 hall c h
  simp only [Bool.and_eq_true, Bool.not_eq_true', bne_iff_ne] at hc
  obtain ⟨⟨⟨hword, hliteral⟩, hblank⟩, hcolon⟩ := hc
  refine ⟨by rintro _ ⟨⟩; exact hword, ?_⟩
  simpa [CodeScan.tokens, hword, hliteral, hblank, ended] using hcolon

theorem Ends.blank {rest : List Char} (h : Ends rest) : Ends (' ' :: rest) :=
  ⟨by rintro _ ⟨⟩; rfl, h.2⟩

variable {texts : List String} {names : List (List (List Char))}

/-- What each of some texts refers to. -/
abbrev RefersAll (texts : List String) (names : List (List (List Char))) : Prop :=
  List.Forall₂ (fun text names => Refers text.toList names) texts names

theorem RefersAll.intercalate (h : RefersAll texts names) (separator : String)
    (hends : ∀ rest, Ends (separator.toList ++ rest)) (hclosed : Closed separator.toList []) :
    Refers (separator.intercalate texts).toList names.flatten := by
  rw [String.toList_intercalate]
  induction h with
  | nil => exact fun _ _ => rfl
  | cons hfirst hrest ih =>
    cases hrest with
    | nil => simpa using hfirst
    | cons hsecond hrest =>
      have h := (hfirst.append_closed hends hclosed).append_refers ih
      simpa using h

theorem RefersAll.lines (h : RefersAll texts names) :
    Closed (texts.flatMap fun entry => ("  " ++ Validator.indent entry ++ ",\n").toList)
      names.flatten := by
  induction h with
  | nil => exact fun _ => rfl
  | @cons entry names texts all hfirst hrest ih =>
    have hblank : Closed "  ".toList [] := fun _ => rfl
    have hcomma : Closed ",\n".toList [] := fun _ => rfl
    have hline := (hblank.append_refers hfirst.indent).append_closed
      (fun _ => ends_sign (by decide) _) hcomma
    have h := hline.append ih
    simpa [toList_indent] using h

theorem closed_propertyKey (name : String) : Closed (propertyKey name ++ ": ").toList [] := by
  have hquoted : Closed (quoted name ++ ": ").toList [] := by
    rw [String.toList_append]
    exact (closed_quoted name).append fun _ => rfl
  unfold propertyKey
  split
  · next c rest hname =>
    split_ifs with hkey
    · have hword : ∀ d ∈ c :: rest, isWordPart d = true := by
        rw [Bool.and_eq_true, List.all_eq_true] at hkey
        have hstart : isKeyPart c = true := by
          have := hkey.1
          simp only [isKeyStart, isKeyPart, Char.isAlphanum, Bool.or_eq_true] at this ⊢
          tauto
        rw [List.forall_mem_cons]
        exact ⟨by rw [isWordPart, hstart]; rfl, fun d hd => by rw [isWordPart, hkey.2 d hd]; rfl⟩
      rw [String.toList_append, hname]
      exact closed_key (List.all_eq_true.2 hword) (List.cons_ne_nil c rest)
    · exact hquoted
  · exact hquoted

theorem closed_fieldName (i : Nat) : Closed (TsType.fieldName i ++ ": ").toList [] :=
  propertyKey_fieldName i ▸ closed_propertyKey (TsType.fieldName i)

/-- The fields of a tuple refer to what their types refer to. -/
theorem RefersAll.fields (h : RefersAll texts names) (k : Nat) :
    RefersAll ((texts.zipIdx k).map fun (text, i) => TsType.fieldName i ++ ": " ++ text) names := by
  induction h generalizing k with
  | nil => exact .nil
  | cons hfirst _ ih =>
    refine .cons ?_ (ih (k + 1))
    rw [String.toList_append]
    exact (closed_fieldName k).append_refers hfirst

theorem refersAll_quoted (keys : List String) :
    RefersAll (keys.map quoted) (keys.map fun _ => []) := by
  rw [RefersAll, List.forall₂_map_left_iff, List.forall₂_map_right_iff, List.forall₂_same]
  exact fun key _ => (closed_quoted key).refers

/-- The references of an object are those of its values. -/
theorem closed_object {fields : List (String × String)}
    (h : RefersAll (fields.map Prod.snd) names) :
    Closed (Validator.object fields).toList (['z'] :: names.flatten) := by
  have hentries : RefersAll (fields.map fun field => propertyKey field.1 ++ ": " ++ field.2)
      names := by
    rw [RefersAll, List.forall₂_map_left_iff] at h ⊢
    refine h.imp fun field names hfield => ?_
    rw [String.toList_append]
    exact (closed_propertyKey field.1).append_refers hfield
  cases hfields : fields with
  | nil =>
    obtain rfl : names = [] := by simpa [hfields] using h
    exact fun _ => rfl
  | cons field rest =>
    rw [← hfields, Validator.object_of_ne_nil (by simp [hfields])]
    dsimp only
    split_ifs
    · have hopen : Closed "z.object(\x7b ".toList [['z']] := fun _ => rfl
      have hclose : Closed " \x7d)".toList [] := fun _ => rfl
      have hinner := hopen.append_refers
        (hentries.intercalate ", " (fun _ => ends_sign (by decide) _) fun _ => rfl)
      have h := hinner.append_closed (fun _ => (ends_sign (by decide) _).blank) hclose
      simpa [Validator.inlineObject] using h
    · have hopen : Closed "z.object(\x7b\n".toList [['z']] := fun _ => rfl
      have hclose : Closed "\x7d)".toList [] := fun _ => rfl
      have h := (hopen.append hentries.lines).append hclose
      simpa [Validator.blockObject, List.flatMap_map] using h

end Texts

section Folds

open CodeToken Interface

variable {asked : List Supply} {options : MappingOptions} {usage : Usage} {code : String}

/-- Code refers, of the names that are asked for, to those that represent a leaf in use. -/
def Shows (asked : List Supply) (options : MappingOptions) (usage : Usage) (code : String) : Prop :=
  ∃ names, Refers code.toList names ∧ ∀ s ∈ asked,
    (s.name.toList ∈ names ↔ usage.has s = true ∧ s.represents options = true)

/-- Names that a module does not supply. -/
def Foreign (names : List (List Char)) : Prop := ∀ s : Supply, s.name.toList ∉ names

theorem foreign_of_all {names : List (List Char)}
    (h : Supply.all.all (fun s => s.name.toList ∉ names) = true) : Foreign names :=
  fun s => of_decide_eq_true (List.all_eq_true.1 h s s.mem_all)

theorem shows_of_foreign {names : List (List Char)} (h : Refers code.toList names)
    (hforeign : Foreign names) : Shows asked options {} code :=
  ⟨names, h, fun s _ => by simp [hforeign s]⟩

theorem Shows.wrap (h : Shows asked options usage code) (before behind : String)
    (names others : List (List Char)) (hbefore : Closed before.toList names)
    (hends : ∀ rest, Ends (behind.toList ++ rest)) (hbehind : Refers behind.toList others)
    (hforeign : Foreign (names ++ others)) :
    Shows asked options usage (before ++ code ++ behind) := by
  obtain ⟨inner, hcode, hinner⟩ := h
  refine ⟨names ++ inner ++ others, ?_, fun s hs => ?_⟩
  · rw [String.toList_append, String.toList_append]
    exact (hbefore.append_refers hcode).append hends hbehind
  · obtain ⟨hnames, hothers⟩ := not_or.1 (mt List.mem_append.2 (hforeign s))
    simp only [List.mem_append, hnames, hothers, false_or, or_false, hinner s hs]

theorem exists_refersAll {usages : List Usage} {codes : List String}
    (h : List.Forall₂ (Shows asked options) usages codes) : ∃ names, RefersAll codes names ∧
      ∀ s ∈ asked, (s.name.toList ∈ names.flatten ↔
        (usages.foldl Usage.merge {}).has s = true ∧ s.represents options = true) := by
  simp only [Usage.has_foldl]
  induction h with
  | nil => exact ⟨[], .nil, by simp⟩
  | cons hfirst _ ih =>
    obtain ⟨names, hrefers, hnames⟩ := hfirst
    obtain ⟨rest, hall, hrest⟩ := ih
    refine ⟨names :: rest, .cons hrefers hall, fun s hs => ?_⟩
    rw [List.flatten_cons, List.mem_append, hnames s hs, hrest s hs, List.any_cons, Bool.or_eq_true]
    tauto

theorem name_eq_leaf (kind : Leaf) (s : Supply) :
    s.name = (TsType.leaf options kind).text ↔ kind = s.leaf ∧ s.represents options = true := by
  have hforeign {text : String} (h : Foreign [text.toList]) : s.name ≠ text := fun heq =>
    h s (by rw [heq]; exact List.mem_singleton_self _)
  have hstring : s.name ≠ "string" := hforeign (foreign_of_all (by decide))
  have hdate : s.name ≠ "Date" := hforeign (foreign_of_all (by decide))
  unfold TsType.leaf
  cases kind with
  | decimal =>
    cases hd : options.decimal with
    | string => cases s <;> simp [TsType.single, hstring, Supply.leaf, Supply.represents, hd]
    | arbitraryPrecision =>
      change s.name = Supply.decimal.name ↔ _
      rw [Supply.name_injective.eq_iff]
      cases s <;> simp [Supply.leaf, Supply.represents, hd]
  | address family =>
    change s.name = (Supply.address family).name ↔ _
    rw [Supply.name_injective.eq_iff]
    cases s with
    | decimal => simp [Supply.leaf]
    | address other => simpa [Supply.leaf, Supply.represents] using eq_comm
  | integer | float =>
    have hnumber : s.name ≠ "number" := hforeign (foreign_of_all (by decide))
    cases s <;> simp [TsType.single, hnumber, Supply.leaf]
  | boolean =>
    have hboolean : s.name ≠ "boolean" := hforeign (foreign_of_all (by decide))
    cases s <;> simp [TsType.single, hboolean, Supply.leaf]
  | text => cases s <;> simp [TsType.single, hstring, Supply.leaf]
  | wideInteger =>
    have hbigint : s.name ≠ "bigint" := hforeign (foreign_of_all (by decide))
    cases options.int64 <;> cases s <;> simp [TsType.single, hbigint, hstring, Supply.leaf]
  | date | dateTime =>
    cases options.datetime <;> cases s <;> simp [TsType.single, hdate, hstring, Supply.leaf]

theorem shows_leaf (kind : Leaf) :
    Shows asked options (Usage.fold.leaf kind) (TsType.leaf options kind).text := by
  refine ⟨[(TsType.leaf options kind).text.toList], ?_, fun s _ => ?_⟩
  · have hall : TsType.leafTexts.all
        (fun code => code.toList.all isWordPart && !code.toList.isEmpty) = true := by decide
    have h := List.all_eq_true.1 hall _ (TsType.leaf_mem options kind)
    rw [Bool.and_eq_true, Bool.not_eq_true', List.isEmpty_eq_false_iff] at h
    exact refers_word _ h.1 h.2
  · rw [Usage.has_leaf, List.mem_singleton, String.toList_inj, beq_iff_eq, name_eq_leaf]

/-- A type refers to the names of the leaves that it reaches. -/
theorem respects_types : Usage.fold.Respects (TsType.plainFold options)
    fun usage mapped => Shows asked options usage mapped.text where
  nullable {usage mapped} h := by
    have hbar : Closed " | ".toList [] := fun _ => rfl
    have hnull := hbar.append_refers (refers_word "null".toList (by decide) (by decide))
    have h := h.wrap "" " | null" [] _ (fun _ => rfl) (fun _ => (ends_sign (by decide) _).blank) hnull
      (foreign_of_all (by decide))
    rwa [String.empty_append] at h
  array {usage mapped} h := by
    change Shows _ _ _ (TsType.array mapped).text
    unfold TsType.array
    split_ifs
    · have hclose : Closed ")[]".toList [] := fun _ => rfl
      exact h.wrap "(" ")[]" [] [] (fun _ => rfl) (fun _ => ends_sign (by decide) _) hclose.refers
        (foreign_of_all (by decide))
    · have hclose : Closed "[]".toList [] := fun _ => rfl
      have h := h.wrap "" "[]" [] [] (fun _ => rfl) (fun _ => ends_sign (by decide) _) hclose.refers
        (foreign_of_all (by decide))
      rwa [String.empty_append] at h
  tuple {usages items} h := by
    obtain ⟨names, hitems, hnames⟩ := exists_refersAll (List.forall₂_map_right_iff.2 h)
    cases items with
    | nil =>
      cases h
      exact shows_of_foreign (show Closed "\x7b\x7d".toList [] from fun _ => rfl).refers
        (foreign_of_all (by decide))
    | cons item items =>
      have hopen : Closed "\x7b ".toList [] := fun _ => rfl
      have hclose : Closed " \x7d".toList [] := fun _ => rfl
      have hfields := (hitems.fields 0).intercalate "; " (fun _ => ends_sign (by decide) _) fun _ => rfl
      have h := (hopen.append_refers hfields).append_closed
        (fun _ => (ends_sign (by decide) _).blank) hclose
      refine ⟨names.flatten, Closed.refers ?_, hnames⟩
      simpa [TsType.plainFold, TsType.fold, TsType.tuple, TsType.single, List.zipIdx_map,
        Function.comp_def] using h
  map {usage mapped} h := by
    have hclose : Closed ">".toList [] := fun _ => rfl
    exact h.wrap "Record<string, " ">" ["Record".toList, "string".toList] [] (fun _ => rfl)
      (fun _ => ends_sign (by decide) _) hclose.refers (foreign_of_all (by decide))
  enumeration keys := by
    have h := (refersAll_quoted keys).intercalate " | " (fun _ => (ends_sign (by decide) _).blank)
      fun _ => rfl
    exact shows_of_foreign h (by simp [Foreign])
  leaf := shows_leaf
  unknown {name usage mapped} husage hmapped := by
    obtain rfl : usage = {} := (Except.ok.inj husage).symm
    obtain rfl : mapped = TsType.single "unknown" := by
      simp only [TsType.plainFold, TsType.fold, TsType.unknown] at hmapped
      split at hmapped
      · contradiction
      · exact (Except.ok.inj hmapped).symm
    exact shows_of_foreign (refers_word "unknown".toList (by decide) (by decide))
      (foreign_of_all (by decide))

theorem closed_validator_leaf {kind : Leaf}
    (h : ¬(kind = .decimal ∧ options.decimal = .arbitraryPrecision)) :
    Closed (Validator.leaf options kind).toList ["z".toList] := by
  have hstring : Closed "z.string()".toList ["z".toList] := fun _ => rfl
  have hnumber : Closed "z.number()".toList ["z".toList] := fun _ => rfl
  have hbigint : Closed "z.bigint()".toList ["z".toList] := fun _ => rfl
  have hboolean : Closed "z.boolean()".toList ["z".toList] := fun _ => rfl
  have hdate : Closed "z.date()".toList ["z".toList] := fun _ => rfl
  have haddress4 : Closed "z.string().ip(\x7b version: 'v4' \x7d)".toList ["z".toList] := fun _ => rfl
  have haddress6 : Closed "z.string().ip(\x7b version: 'v6' \x7d)".toList ["z".toList] := fun _ => rfl
  unfold Validator.leaf
  cases kind with
  | integer | float => exact hnumber
  | boolean => exact hboolean
  | text => exact hstring
  | decimal =>
    cases hd : options.decimal with
    | string => exact hstring
    | arbitraryPrecision => exact absurd ⟨rfl, hd⟩ h
  | wideInteger =>
    cases options.int64 with
    | wideInteger => exact hbigint
    | string => exact hstring
  | date | dateTime =>
    cases options.datetime with
    | string => exact hstring
    | dateType => exact hdate
  | address family =>
    cases family with
    | v4 => exact haddress4
    | v6 => exact haddress6

theorem shows_validator_leaf (kind : Leaf) :
    Shows [.decimal] options (Usage.fold.leaf kind) (Validator.leaf options kind) := by
  by_cases h : kind = .decimal ∧ options.decimal = .arbitraryPrecision
  · obtain ⟨rfl, hd⟩ := h
    have hclosed : Closed "z.instanceof(Decimal)".toList ["z".toList, "Decimal".toList] :=
      fun _ => rfl
    refine ⟨["z".toList, "Decimal".toList], ?_, ?_⟩
    · simpa only [Validator.leaf, hd] using hclosed.refers
    · rintro s hs
      obtain rfl := List.mem_singleton.1 hs
      simp [Supply.name, Usage.has_leaf, Supply.leaf, Supply.represents, hd]
  · refine ⟨["z".toList], (closed_validator_leaf h).refers, ?_⟩
    rintro s hs
    obtain rfl := List.mem_singleton.1 hs
    simpa [Supply.name, Usage.has_leaf, Supply.leaf, Supply.represents] using h

theorem shows_object {usages : List Usage} {fields : List (String × String)}
    (h : List.Forall₂ (Shows asked options) usages (fields.map Prod.snd)) :
    Shows asked options (usages.foldl Usage.merge {}) (Validator.object fields) := by
  obtain ⟨names, hall, hnames⟩ := exists_refersAll h
  have hforeign : Foreign ["z".toList] := foreign_of_all (by decide)
  refine ⟨"z".toList :: names.flatten, (closed_object hall).refers, fun s hs => ?_⟩
  have hne : s.name.toList ≠ "z".toList := fun heq =>
    hforeign s (heq ▸ List.mem_singleton_self _)
  rw [List.mem_cons, or_iff_right hne, hnames s hs]

theorem respects_validators : Usage.fold.Respects (Validator.fold options)
    fun usage expr => Shows [.decimal] options usage expr where
  nullable {usage expr} h := by
    have hcall : Closed ".nullable()".toList [] := fun _ => rfl
    have h := h.wrap "" ".nullable()" [] [] (fun _ => rfl) (fun _ => ends_sign (by decide) _)
      hcall.refers (foreign_of_all (by decide))
    rwa [String.empty_append] at h
  array {usage expr} h := by
    have hclose : Closed ")".toList [] := fun _ => rfl
    exact h.wrap "z.array(" ")" ["z".toList] [] (fun _ => rfl) (fun _ => ends_sign (by decide) _)
      hclose.refers (foreign_of_all (by decide))
  tuple {usages exprs} h := by
    have hexprs : (exprs.zipIdx.map fun (expr, i) => (TsType.fieldName i, expr)).map Prod.snd =
        exprs := by
      simp [Function.comp_def]
    exact shows_object (hexprs.symm ▸ h)
  map {usage expr} h := by
    have hclose : Closed ")".toList [] := fun _ => rfl
    exact h.wrap "z.record(z.string(), " ")" ["z".toList, "z".toList] [] (fun _ => rfl)
      (fun _ => ends_sign (by decide) _) hclose.refers (foreign_of_all (by decide))
  enumeration keys := by
    have hkeys := (refersAll_quoted keys).intercalate ", " (fun _ => ends_sign (by decide) _)
      fun _ => rfl
    have hopen : Closed "z.enum([".toList ["z".toList] := fun _ => rfl
    have hclose : Closed "])".toList [] := fun _ => rfl
    have h := ((hopen.append_refers hkeys).append_closed (fun _ => ends_sign (by decide) _) hclose).refers
    rw [← String.toList_append, ← String.toList_append] at h
    have hforeign : Foreign ["z".toList] := foreign_of_all (by decide)
    exact shows_of_foreign h fun s => by simpa using hforeign s
  leaf := shows_validator_leaf
  unknown {name usage expr} husage hexpr := by
    obtain rfl : usage = {} := (Except.ok.inj husage).symm
    obtain rfl : expr = "z.unknown()" := (Except.ok.inj hexpr).symm
    exact shows_of_foreign (show Closed "z.unknown()".toList ["z".toList] from fun _ => rfl).refers
      (foreign_of_all (by decide))

theorem Shows.refersTo {s : Supply} (h : Shows asked options usage code) (hs : s ∈ asked) :
    refersTo s.name code = true ↔ usage.has s = true ∧ s.represents options = true := by
  obtain ⟨names, hcode, hnames⟩ := h
  have hend : Ends [] := ⟨nofun, nofun⟩
  have hreferences := hcode [] hend
  rw [List.append_nil] at hreferences
  rw [← hnames s hs, TypedTables.refersTo, hreferences, List.contains_iff_mem]
  exact Iff.of_eq (congrArg _ (List.append_nil names))

end Folds

section Modules

open Interface

variable {tables : List MappedTable} {ps : List Part}

/-- The mapped types of the columns of all tables. -/
def mappedTypes (tables : List MappedTable) : List String :=
  tables.flatMap fun table => table.columns.map (·.mappedType)

/-- The expressions of the validators in a module. -/
def Interface.Part.validators (parts : List Part) : List String :=
  parts.filterMap fun
    | .validator _ expr => some expr
    | _ => none

/-- Columns whose types were mapped with the options that their table keeps, and by no plugin. -/
def MappedTable.Mapped (table : MappedTable) : Prop :=
  ∀ column ∈ table.columns, ∃ mapped,
    (TsType.plainFold table.representation).run column.type = .ok mapped ∧
      mapped.text = column.mappedType

theorem mapped_of_resolve {options : ResolveOptions} (hp : options.plugins = [])
    {decls : List TableDecl} (h : resolve options decls = .ok tables) :
    ∀ table ∈ tables, table.Mapped := by
  intro table ht column hc
  obtain ⟨-, -, h⟩ := resolve_eq_ok_iff.1 h
  obtain ⟨done, -, hdone⟩ := exists_of_forall₂ h.flip ht
  obtain ⟨columns, hcolumns, hdone⟩ := bind_eq_ok.1 hdone
  cases hdone
  obtain ⟨decl, -, hdecl⟩ := exists_of_forall₂ (mapM_eq_ok.1 hcolumns).flip hc
  have hm := (ColumnDecl.from_of_resolve hdecl).mapped
  rw [mapType_eq hp] at hm
  exact map_eq_ok.1 hm

/-- A table whose columns can all be rendered needs a declaration if one of its types refers to it. -/
theorem neededBy_iff {table : MappedTable} (h : table.Mapped) {usage : Usage}
    (husage : Usage.ofTable table = .ok usage) (s : Supply) :
    s.NeededBy table ↔ ∃ column ∈ table.columns, refersTo s.name column.mappedType = true := by
  obtain ⟨usages, hcolumns, -⟩ := bind_eq_ok.1 husage
  rw [mapM_eq_ok] at hcolumns
  have hcolumn : ∀ column ∈ table.columns, (refersTo s.name column.mappedType = true ↔
      s.represents table.representation = true ∧ column.type.Reaches s.leaf) := by
    intro column hc
    obtain ⟨mapped, hrun, htext⟩ := h column hc
    obtain ⟨_, -, husage⟩ := exists_of_forall₂ hcolumns hc
    obtain ⟨leaves, hleaves, -⟩ := bind_eq_ok.1 husage
    have hshows : Shows Supply.all _ leaves mapped.text :=
      respects_types.of_runWithin (fun _ _ => rfl) (TsType.plainFold_plain _) hleaves hrun
    rw [← htext, hshows.refersTo s.mem_all, Usage.has_of_runWithin hleaves, and_comm]
  constructor
  · rintro ⟨hrep, column, hc, hreaches⟩
    exact ⟨column, hc, (hcolumn column hc).2 ⟨hrep, hreaches⟩⟩
  · rintro ⟨column, hc, hrefers⟩
    obtain ⟨hrep, hreaches⟩ := (hcolumn column hc).1 hrefers
    exact ⟨hrep, column, hc, hreaches⟩

theorem shows_ofColumn {options : MappingOptions} {column : ResolvedColumn} {usage : Usage}
    (husage : Usage.ofColumn options column = .ok usage) {expr : String}
    (hexpr : Validator.ofType options column.type = .ok expr) :
    Shows [.decimal] options usage expr := by
  have hhas := Usage.has_ofColumn husage
  obtain ⟨leaves, hleaves, -⟩ := bind_eq_ok.1 husage
  obtain ⟨names, hrefers, hnames⟩ : Shows [.decimal] options leaves expr :=
    respects_validators.of_runWithin (fun _ _ => rfl) (fun _ _ => rfl) hleaves hexpr
  refine ⟨names, hrefers, fun s hs => ?_⟩
  rw [hnames s hs, hhas, Usage.has_of_runWithin hleaves]
  tauto

theorem refersTo_validator {table : MappedTable} {usage : Usage}
    (husage : Usage.ofTable table = .ok usage) {expr : String}
    (hexpr : Validator.ofTable table = .ok expr) :
    refersTo Supply.decimal.name expr = true ↔ Supply.decimal.NeededBy table := by
  have hhas := Usage.has_ofTable husage
  obtain ⟨usages, hcolumns, husage⟩ := bind_eq_ok.1 husage
  obtain ⟨fields, hfields, hexpr⟩ := bind_eq_ok.1 hexpr
  obtain rfl := Except.ok.inj husage
  obtain rfl := Except.ok.inj hexpr
  have hall : List.Forall₂ (Shows [.decimal] table.representation) usages (fields.map Prod.snd) := by
    rw [List.forall₂_map_right_iff]
    refine forall₂_of_common (mapM_eq_ok.1 hcolumns) (mapM_eq_ok.1 hfields) ?_
    intro column usage field husage hfield
    obtain ⟨expr, hexpr, hfield⟩ := bind_eq_ok.1 hfield
    obtain rfl := Except.ok.inj hfield
    exact shows_ofColumn husage hexpr
  rw [(shows_object hall).refersTo (List.mem_singleton_self _), hhas]
  exact ⟨fun h => h.1, fun h => ⟨h, h.1⟩⟩

namespace Interface.Part

theorem ofTable_eq {validators : Bool} {table : MappedTable} (h : ofTable validators table = .ok ps) :
    ps = ofInterface table ∧ validators = false ∨
      ∃ expr, ps = ofInterface table ++ ofValidator table expr ∧ validators = true ∧
        Validator.ofTable table = .ok expr := by
  cases validators with
  | false =>
    cases h
    exact .inl ⟨List.append_nil _, rfl⟩
  | true =>
    obtain ⟨_, hschema, h⟩ := bind_eq_ok.1 h
    obtain ⟨expr, hexpr, rfl⟩ := map_eq_ok.1 hschema
    exact .inr ⟨expr, (Except.ok.inj h).symm, rfl, hexpr⟩

theorem not_mem_ofTable {validators : Bool} {table : MappedTable}
    (h : ofTable validators table = .ok ps) (s : Supply) : s.part ∉ ps := by
  obtain ⟨rfl, -⟩ | ⟨expr, rfl, -⟩ := ofTable_eq h <;>
    cases s <;> simp [Supply.part, ofInterface, ofValidator]

/-- A declaration that a module supplies stands in it once if it is used, and else not at all. -/
theorem count_supply {validators : Bool} {usage : Usage} {sections : List (List Part)}
    (h : tables.mapM (ofTable validators) = .ok sections) (s : Supply) :
    (header :: imports validators usage ++ brands usage ++ sections.flatten).count s.part =
      if usage.has s then 1 else 0 := by
  have hsections : sections.flatten.count s.part = 0 := by
    rw [List.count_eq_zero, List.mem_flatten]
    rintro ⟨ps, hps, hmem⟩
    obtain ⟨table, -, hpart⟩ := exists_of_forall₂ (mapM_eq_ok.1 h).flip hps
    exact not_mem_ofTable hpart s hmem
  have hneeded : ∀ s ∈ Supply.all, (header :: imports validators usage ++ brands usage).count s.part =
      if usage.has s then 1 else 0 := by
    clear h hsections
    obtain ⟨decimal, ipv4, ipv6⟩ := usage
    revert validators decimal ipv4 ipv6
    decide
  rw [List.count_append, hsections, hneeded s s.mem_all, Nat.add_zero]

end Interface.Part

theorem Interface.Part.validators_append (xs ys : List Part) :
    validators (xs ++ ys) = validators xs ++ validators ys := List.filterMap_append

/-- The validators of a module are those of its tables. -/
theorem Interface.Part.exists_of_mem_validators {validators : Bool} {usage : Usage}
    {sections : List (List Part)} (h : tables.mapM (ofTable validators) = .ok sections)
    {expr : String} (hexpr : expr ∈ Part.validators
      (header :: imports validators usage ++ brands usage ++ sections.flatten)) :
    ∃ table ∈ tables, Validator.ofTable table = .ok expr := by
  have hneeded : Part.validators (header :: imports validators usage ++ brands usage) = [] := by
    clear h hexpr
    obtain ⟨decimal, ipv4, ipv6⟩ := usage
    revert validators decimal ipv4 ipv6
    decide
  rw [validators_append, hneeded, List.nil_append] at hexpr
  obtain ⟨part, hpart, hexpr⟩ := List.mem_filterMap.1 hexpr
  obtain ⟨ps, hps, hpart⟩ := List.mem_flatten.1 hpart
  obtain ⟨table, ht, hsection⟩ := exists_of_forall₂ (mapM_eq_ok.1 h).flip hps
  obtain ⟨rfl, -⟩ | ⟨other, rfl, -, hother⟩ := ofTable_eq hsection
  · obtain rfl | rfl : part = _ ∨ part = _ := by simpa [ofInterface] using hpart
    · contradiction
    · contradiction
  · obtain rfl | rfl | rfl | rfl : part = _ ∨ part = _ ∨ part = _ ∨ part = _ := by
      simpa [ofInterface, ofValidator] using hpart
    · contradiction
    · contradiction
    · contradiction
    · obtain rfl := Option.some.inj hexpr
      exact ⟨table, ht, hother⟩

/-- What the types of all tables refer to is what the tables use. -/
theorem refersTo_mappedTypes (hmapped : ∀ table ∈ tables, table.Mapped) {usage : Usage}
    (husage : Usage.ofTables tables = .ok usage) (s : Supply) :
    (mappedTypes tables).any (refersTo s.name) = usage.has s := by
  rw [Bool.eq_iff_iff, Usage.has_ofTables husage, List.any_eq_true]
  obtain ⟨usages, htables, -⟩ := bind_eq_ok.1 husage
  have hneeded : ∀ table ∈ tables, (s.NeededBy table ↔
      ∃ column ∈ table.columns, refersTo s.name column.mappedType = true) := by
    intro table ht
    obtain ⟨_, -, husage⟩ := exists_of_forall₂ (mapM_eq_ok.1 htables) ht
    exact neededBy_iff (hmapped table ht) husage s
  constructor
  · rintro ⟨_, hmem, h⟩
    obtain ⟨table, ht, hmem⟩ := List.mem_flatMap.1 hmem
    obtain ⟨column, hc, rfl⟩ := List.mem_map.1 hmem
    exact ⟨table, ht, (hneeded table ht).2 ⟨column, hc, h⟩⟩
  · rintro ⟨table, ht, h⟩
    obtain ⟨column, hc, h⟩ := (hneeded table ht).1 h
    exact ⟨_, List.mem_flatMap.2 ⟨table, ht, List.mem_map_of_mem hc⟩, h⟩

/-- The module for tables that have been resolved without plugins supplies exactly the declarations
that its types and validators refer to, each once. -/
theorem count_supplies {calls : List (ResolveOptions × List TableDecl)}
    {outputs : List (List MappedTable)} (hp : ∀ call ∈ calls, call.1.plugins = [])
    (hcalls : List.Forall₂ (fun call tables => resolve call.1 call.2 = .ok tables) calls outputs)
    {validators : Bool} {text : String} (h : render validators outputs.flatten = .ok text) :
    ∃ ps, parts validators outputs.flatten = .ok ps ∧ Part.texts ps = text ∧
      ps.count .decimalImport =
        (if (mappedTypes outputs.flatten ++ Part.validators ps).any (refersTo "Decimal") then 1
        else 0) ∧
      ∀ family : AddressFamily, ps.count (.brand family) =
        if (mappedTypes outputs.flatten).any (refersTo family.name) then 1 else 0 := by
  have hmapped : ∀ table ∈ outputs.flatten, table.Mapped := by
    intro table ht
    obtain ⟨tables, htables, ht⟩ := List.mem_flatten.1 ht
    obtain ⟨call, hcall, hresolve⟩ := exists_of_forall₂ hcalls.flip htables
    exact mapped_of_resolve (hp call hcall) hresolve table ht
  rw [render_eq] at h
  obtain ⟨ps, hps, rfl⟩ := map_eq_ok.1 h
  refine ⟨ps, hps, rfl, ?_⟩
  obtain ⟨usage, sections, -, husage, hsections, heq⟩ := exists_usage hps
  have hcount (s : Supply) : ps.count s.part = if usage.has s then 1 else 0 :=
    heq ▸ Part.count_supply hsections s
  have htypes := refersTo_mappedTypes hmapped husage
  -- a validator refers to nothing that the types of its table do not need
  have hvalidators : (Part.validators ps).any (refersTo Supply.decimal.name) = true →
      usage.has .decimal = true := by
    intro h
    obtain ⟨expr, hexpr, h⟩ := List.any_eq_true.1 h
    obtain ⟨table, ht, hexpr⟩ := Part.exists_of_mem_validators hsections (heq ▸ hexpr)
    rw [Usage.has_ofTables husage]
    obtain ⟨usages, htables, -⟩ := bind_eq_ok.1 husage
    obtain ⟨_, -, husage⟩ := exists_of_forall₂ (mapM_eq_ok.1 htables) ht
    exact ⟨table, ht, (refersTo_validator husage hexpr).1 h⟩
  have hall : (mappedTypes outputs.flatten ++ Part.validators ps).any
      (refersTo Supply.decimal.name) = usage.has .decimal := by
    rwa [List.any_append, htypes, Bool.eq_iff_iff, Bool.or_eq_true, or_iff_left_iff_imp]
  refine ⟨?_, fun family => ?_⟩
  · rw [show Part.decimalImport = Supply.decimal.part from rfl, hcount, ← hall]
    rfl
  · rw [show Part.brand family = (Supply.address family).part from rfl, hcount, ← htypes]
    rfl

def hosts : TableDecl where
  name := "hosts"
  columns := [⟨"address", .plain "IPv4", "IPv4", none, none, none⟩]

theorem count_supplies_hosts : ∃ tables tables' text,
    resolve preciseDecimals [prices] = .ok tables ∧ resolve {} [hosts] = .ok tables' ∧
      render true [tables, tables'].flatten = .ok text ∧
      ∃ ps, parts true [tables, tables'].flatten = .ok ps ∧ Part.texts ps = text ∧
        ps.count .decimalImport = 1 ∧ ps.count (.brand .v4) = 1 ∧ ps.count (.brand .v6) = 0 := by
  have h : ((resolve preciseDecimals [prices]).toOption.any fun tables =>
      (resolve {} [hosts]).toOption.any fun tables' =>
        (render true [tables, tables'].flatten).toOption.any fun _ =>
          ["Decimal", "IPv4", "IPv6"].map
            (fun name => (mappedTypes [tables, tables'].flatten).any (refersTo name)) =
              [true, true, false]) = true := by decide +kernel
  obtain ⟨tables, hprices, h⟩ := exists_of_any h
  obtain ⟨tables', hhosts, h⟩ := exists_of_any h
  obtain ⟨text, hrender, h⟩ := exists_of_any h
  have hrefers := of_decide_eq_true h
  simp only [List.map_cons, List.map_nil, List.cons.injEq, and_true] at hrefers
  obtain ⟨hdecimal, hipv4, hipv6⟩ := hrefers
  let calls : List (ResolveOptions × List TableDecl) := [(preciseDecimals, [prices]), ({}, [hosts])]
  have hp : ∀ call ∈ calls, call.1.plugins = [] := by
    simp [calls, preciseDecimals]
  obtain ⟨ps, hps, htexts, hcount, hbrands⟩ :=
    count_supplies hp (.cons hprices (.cons hhosts .nil)) hrender
  refine ⟨tables, tables', text, hprices, hhosts, hrender, ps, hps, htexts, ?_, ?_, ?_⟩
  · rw [hcount, List.any_append, hdecimal]
    rfl
  · rw [hbrands]
    exact if_pos hipv4
  · rw [hbrands]
    exact if_neg (Bool.eq_false_iff.1 hipv6)

end Modules

end TypedTables
