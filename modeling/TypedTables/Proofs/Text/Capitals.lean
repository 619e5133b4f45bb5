import TypedTables.Proofs.Text.Words

/-!
The spelling of a declared name whose characters are all ASCII: its letters and digits are those of
the identifier up to letter case, and it starts with a capital letter, or with a digit behind an
underscore.
-/

namespace TypedTables.Text

section Words

theorem flatten_alphanumericRuns (run : List Char) (done : List (List Char)) (cs : List Char) :
    (alphanumericRuns run done cs).flatten =
      done.reverse.flatten ++ run.reverse ++ cs.filter isAlphanumeric := by
  induction cs generalizing run done with
  | nil => simp [alphanumericRuns]
  | cons c cs ih =>
    rw [alphanumericRuns]
    split_ifs with hc
    · rw [ih]
      simp [hc]
    · rw [ih]
      simp [hc]

/-- Nothing is lost between words. Where there is nothing left to read there is no word either. -/
theorem flatten_runWords {mode : LastCase} {word : List Char} {done : List (List Char)}
    {cs : List Char} (h : cs = [] → word = []) :
    (runWords mode word done cs).flatten = done.reverse.flatten ++ word.reverse ++ cs := by
  fun_induction runWords mode word done cs with
  | case1 => simp [h rfl]
  | case2 => simp
  | case3 _ _ _ _ _ _ _ ih => rw [ih (by simp)]; simp
  | case4 _ _ _ _ _ _ _ _ ih => rw [ih (by simp)]; simp
  | case5 _ _ _ _ _ _ _ _ ih => rw [ih (by simp)]; simp

/-- The words of an identifier are its letters and numerals, cut into pieces. -/
theorem flatten_words (ident : List Char) : (words ident).flatten = ident.filter isAlphanumeric := by
  have hruns (runs : List (List Char)) :
      (runs.flatMap (runWords .none [] [])).flatten = runs.flatten := by
    induction runs with
    | nil => rfl
    | cons run runs ih =>
      have hrun : (runWords .none [] [] run).flatten = run := flatten_runWords fun _ => rfl
      simp [ih, hrun]
  rw [words, hruns, flatten_alphanumericRuns]
  rfl

end Words

section Ascii

variable {c : Char} {word : List Char}

/-- What holds of each ASCII character by evaluation. -/
theorem of_ascii {p : Char → Bool} (h : (List.range 128).all (p ∘ Char.ofNat) = true)
    (hc : c.toNat < 128) : p c = true := by
  have hp := List.all_eq_true.1 h c.toNat (List.mem_range.2 hc)
  rwa [Function.comp_apply, Char.ofNat_toNat] at hp

theorem isAlphanumeric_of_ascii (h : c.toNat < 128) : isAlphanumeric c = c.isAlphanum := by
  rw [isAlphanumeric, isAlphabetic, isNumeric, if_pos h, if_pos h, Char.isAlphanum]

theorem toNat_of_isAlphanum (h : c.isAlphanum = true) : c.toNat < 128 := by
  simp only [Char.isAlphanum, Char.isAlpha, Char.isUpper, Char.isLower, Char.isDigit,
    Bool.or_eq_true, Bool.and_eq_true, decide_eq_true_eq, UInt32.le_iff_toNat_le] at h
  change c.val.toNat < 128
  grind

theorem lowerWord_of_ascii (h : ∀ c ∈ word, c.toNat < 128) : lowerWord word = word.map Char.toLower := by
  have hflat : word.flatMap toLowercase = word.map Char.toLower := by
    rw [List.map_eq_flatMap]
    exact List.flatMap_congr fun c hc => if_pos (h c hc)
  unfold lowerWord
  split
  · next rest hrev =>
    have hsigma := h 'Σ' (List.mem_reverse.1 (hrev ▸ List.mem_cons_self))
    exact absurd hsigma (by decide)
  · exact hflat

theorem capitalizeWord_of_ascii {rest : List Char} (h : ∀ d ∈ c :: rest, d.toNat < 128) :
    capitalizeWord (c :: rest) = c.toUpper :: rest.map Char.toLower := by
  obtain ⟨hc, hrest⟩ := List.forall_mem_cons.1 h
  rw [capitalizeWord, lowerWord_of_ascii hrest, toUppercase, if_pos hc]
  rfl

theorem toLower_capitalizeWord (h : ∀ c ∈ word, c.toNat < 128) :
    (capitalizeWord word).map Char.toLower = word.map Char.toLower := by
  cases word with
  | nil => rfl
  | cons c rest =>
    have hupper {d : Char} (hd : d.toNat < 128) : d.toUpper.toLower = d.toLower :=
      of_decide_eq_true (of_ascii (p := fun d => d.toUpper.toLower = d.toLower)
        (by decide +kernel) hd)
    have hlower {d : Char} (hd : d.toNat < 128) : d.toLower.toLower = d.toLower :=
      of_decide_eq_true (of_ascii (p := fun d => d.toLower.toLower = d.toLower)
        (by decide +kernel) hd)
    obtain ⟨hc, hrest⟩ := List.forall_mem_cons.1 h
    rw [capitalizeWord_of_ascii h, List.map_cons, List.map_cons, List.map_map, hupper hc]
    congr 1
    exact List.map_congr_left fun d hd => hlower (hrest d hd)

theorem of_isAlphanum {p : Char → Bool}
    (h : (List.range 128).all (fun n => !(Char.ofNat n).isAlphanum || p (Char.ofNat n)) = true)
    (hc : c.isAlphanum = true) : p c = true := by
  simpa [hc] using of_ascii (p := fun c => !c.isAlphanum || p c) h (toNat_of_isAlphanum hc)

theorem isUpper_or_isDigit_toUpper (h : c.isAlphanum = true) :
    c.toUpper.isUpper = true ∨ c.toUpper.isDigit = true := by
  simpa using of_isAlphanum (p := fun c => c.toUpper.isUpper || c.toUpper.isDigit)
    (by decide +kernel) h

theorem isAlphanum_toUpper (h : c.isAlphanum = true) : c.toUpper.isAlphanum = true :=
  of_isAlphanum (p := fun c => c.toUpper.isAlphanum) (by decide +kernel) h

theorem isAlphanum_toLower (h : c.isAlphanum = true) : c.toLower.isAlphanum = true :=
  of_isAlphanum (p := fun c => c.toLower.isAlphanum) (by decide +kernel) h

end Ascii

section PascalCase

variable {ident : String}

/-- All characters are ASCII. -/
def IsAscii (text : String) : Prop := ∀ c ∈ text.toList, c.toNat < 128

instance : DecidablePred IsAscii := fun text =>
  decidable_of_iff (text.toList.all (·.toNat < 128) = true) (by simp [IsAscii])

/-- The letters and digits of a text, whatever their case. -/
def letters (text : String) : List Char := (text.toList.filter Char.isAlphanum).map Char.toLower

/-- ASCII letters and digits, the first of them a capital letter, or a digit behind an
underscore. -/
def IsCapitalized (text : String) : Prop :=
  ∃ c rest, text.toList = c :: rest ∧ (∀ d ∈ rest, d.isAlphanum = true) ∧
    (c.isUpper = true ∨ c = '_' ∧ ∃ d ∈ rest.head?, d.isDigit = true)

/-- The words of a name in their spelling, before an underscore is put in front of them. -/
def joined (ident : String) : List Char := (words ident.toList).flatMap capitalizeWord

theorem pascalCase_eq (ident : String) : pascalCase ident =
    match joined ident with
    | c :: rest => String.ofList (if c.isDigit then '_' :: c :: rest else c :: rest)
    | [] => "" := by
  unfold pascalCase joined
  cases (words ident.toList).flatMap capitalizeWord <;> rfl

theorem mem_of_mem_words {word : List Char} (h : word ∈ words ident.toList) {c : Char}
    (hc : c ∈ word) : c ∈ ident.toList ∧ isAlphanumeric c = true := by
  have hmem : c ∈ (words ident.toList).flatten := List.mem_flatten.2 ⟨word, h, hc⟩
  rwa [flatten_words, List.mem_filter] at hmem

/-- The spelling has the letters and digits of the name, in their order. -/
theorem toLower_joined (h : IsAscii ident) :
    (joined ident).map Char.toLower = letters ident := by
  have hwords (ws : List (List Char)) (hws : ∀ w ∈ ws, ∀ c ∈ w, c.toNat < 128) :
      (ws.flatMap capitalizeWord).map Char.toLower = ws.flatten.map Char.toLower := by
    induction ws with
    | nil => rfl
    | cons w ws ih =>
      obtain ⟨hw, hws⟩ := List.forall_mem_cons.1 hws
      rw [List.flatMap_cons, List.flatten_cons, List.map_append, List.map_append, ih hws,
        toLower_capitalizeWord hw]
  rw [joined, hwords _ fun w hw c hc => h c (mem_of_mem_words hw hc).1, flatten_words, letters]
  congr 1
  exact List.filter_congr fun c hc => isAlphanumeric_of_ascii (h c hc)

theorem isAlphanum_of_mem_joined (h : IsAscii ident) {d : Char} (hd : d ∈ joined ident) :
    d.isAlphanum = true := by
  obtain ⟨word, hword, hd⟩ := List.mem_flatMap.1 hd
  have hascii : ∀ c ∈ word, c.toNat < 128 := fun c hc => h c (mem_of_mem_words hword hc).1
  have halnum : ∀ c ∈ word, c.isAlphanum = true := fun c hc =>
    isAlphanumeric_of_ascii (hascii c hc) ▸ (mem_of_mem_words hword hc).2
  cases word with
  | nil => contradiction
  | cons c rest =>
    rw [capitalizeWord_of_ascii hascii, List.mem_cons, List.mem_map] at hd
    obtain rfl | ⟨e, he, rfl⟩ := hd
    · exact isAlphanum_toUpper (halnum c List.mem_cons_self)
    · exact isAlphanum_toLower (halnum e (List.mem_cons_of_mem _ he))

theorem head_joined (h : IsAscii ident) :
    ∀ d ∈ (joined ident).head?, d.isUpper = true ∨ d.isDigit = true := by
  refine head_flatMap fun word hword => ?_
  have hascii : ∀ c ∈ word, c.toNat < 128 := fun c hc => h c (mem_of_mem_words hword hc).1
  cases word with
  | nil => exact nofun
  | cons c rest =>
    have hc := (mem_of_mem_words hword List.mem_cons_self).2
    rw [isAlphanumeric_of_ascii (hascii c List.mem_cons_self)] at hc
    rw [capitalizeWord_of_ascii hascii]
    rintro _ ⟨⟩
    exact isUpper_or_isDigit_toUpper hc

theorem pascalCase_eq_empty_iff (h : IsAscii ident) :
    pascalCase ident = "" ↔ ∀ c ∈ ident.toList, c.isAlphanum = false := by
  have hjoined : pascalCase ident = "" ↔ joined ident = [] := by
    rw [pascalCase_eq]
    cases joined ident with
    | nil => simp
    | cons c rest => cases hc : c.isDigit <;> simp [hc]
  rw [hjoined, ← List.map_eq_nil_iff (f := Char.toLower), toLower_joined h, letters, List.map_eq_nil_iff,
    List.filter_eq_nil_iff]
  simp

theorem isCapitalized_pascalCase (h : IsAscii ident) (hne : pascalCase ident ≠ "") :
    IsCapitalized (pascalCase ident) := by
  have hhead := head_joined h
  have hall : ∀ d ∈ joined ident, d.isAlphanum = true := fun _ => isAlphanum_of_mem_joined h
  rw [pascalCase_eq] at hne ⊢
  cases hj : joined ident with
  | nil => simp [hj] at hne
  | cons c rest =>
    rw [hj] at hhead hall
    cases hc : c.isDigit with
    | true => exact ⟨'_', c :: rest, by simp [hc], hall, .inr ⟨rfl, c, rfl, hc⟩⟩
    | false =>
      refine ⟨c, rest, by simp [hc], fun d hd => hall d (List.mem_cons_of_mem _ hd), .inl ?_⟩
      exact (hhead c rfl).resolve_right (by simp [hc])

theorem letters_pascalCase (h : IsAscii ident) : letters (pascalCase ident) = letters ident := by
  have hall : (joined ident).filter Char.isAlphanum = joined ident :=
    List.filter_eq_self.2 fun _ => isAlphanum_of_mem_joined h
  rw [← toLower_joined h, pascalCase_eq, letters]
  congr 1
  cases hj : joined ident with
  | nil => rfl
  | cons c rest =>
    rw [hj] at hall
    have hline : Char.isAlphanum '_' = false := by decide
    cases hc : c.isDigit <;> simpa [hc, hline] using hall

end PascalCase

end TypedTables.Text
