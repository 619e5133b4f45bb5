import TypedTables.Proofs.Text.Blank
import TypedTables.Text.Words

/-!
The spelling of a declared name is empty or starts with a character that is no blank: words are made
of letters and numerals, and no capital letter is a blank.
-/

namespace TypedTables.Text

section Words

variable {P : Char → Prop}

theorem of_mem_alphanumericRuns {run : List Char} {done : List (List Char)} {cs : List Char}
    (hrun : ∀ c ∈ run, isAlphanumeric c = true)
    (hdone : ∀ r ∈ done, ∀ c ∈ r, isAlphanumeric c = true) :
    ∀ r ∈ alphanumericRuns run done cs, ∀ c ∈ r, isAlphanumeric c = true := by
  induction cs generalizing run done with
  | nil => simpa [alphanumericRuns, or_imp, forall_and] using ⟨hdone, hrun⟩
  | cons c cs ih =>
    rw [alphanumericRuns]
    split_ifs with hc
    · exact ih (List.forall_mem_cons.2 ⟨hc, hrun⟩) hdone
    · exact ih nofun (List.forall_mem_cons.2 ⟨by simpa using hrun, hdone⟩)

theorem of_mem_runWords {mode : LastCase} {word : List Char} {done : List (List Char)}
    {cs : List Char} (hword : ∀ c ∈ word, P c) (hdone : ∀ w ∈ done, ∀ c ∈ w, P c)
    (hcs : ∀ c ∈ cs, P c) : ∀ w ∈ runWords mode word done cs, ∀ c ∈ w, P c := by
  have push {c : Char} {word : List Char} (hc : P c) (hword : ∀ d ∈ word, P d) :
      ∀ d ∈ (c :: word).reverse, P d := fun d hd =>
    List.forall_mem_cons.2 ⟨hc, hword⟩ d (List.mem_reverse.1 hd)
  fun_induction runWords mode word done cs with
  | case1 mode word done => simpa using hdone
  | case2 mode word done c =>
    intro w hw
    obtain rfl | hw := List.mem_cons.1 (List.mem_reverse.1 hw)
    · exact push (hcs c List.mem_cons_self) hword
    · exact hdone w hw
  | case3 mode word done c next rest h ih =>
    obtain ⟨hc, hrest⟩ := List.forall_mem_cons.1 hcs
    exact ih (by simp) (List.forall_mem_cons.2 ⟨push hc hword, hdone⟩) hrest
  | case4 mode word done c next rest h h' ih =>
    obtain ⟨hc, hrest⟩ := List.forall_mem_cons.1 hcs
    have hword : ∀ d ∈ word.reverse, P d := fun d hd => hword d (List.mem_reverse.1 hd)
    exact ih (by simpa using hc) (List.forall_mem_cons.2 ⟨hword, hdone⟩) hrest
  | case5 mode word done c next rest h h' ih =>
    obtain ⟨hc, hrest⟩ := List.forall_mem_cons.1 hcs
    exact ih (List.forall_mem_cons.2 ⟨hc, hword⟩) hdone hrest

theorem isAlphanumeric_of_mem_words {ident word : List Char} (h : word ∈ words ident) :
    ∀ c ∈ word, isAlphanumeric c = true := by
  obtain ⟨run, hrun, h⟩ := List.mem_flatMap.1 h
  exact of_mem_runWords (by simp) (by simp)
    (of_mem_alphanumericRuns (by simp) (by simp) run hrun) word h

end Words

section Case

variable {c : Char}

theorem mem_of_find? {α : Type} {run : α → CodeRun} {table : Array α} {code : Nat} {entry : α}
    (h : CodeRun.find? run table code = some entry) : entry ∈ table := by
  have go (lo hi : Nat) (h : CodeRun.find?.go run table code lo hi = some entry) :
      entry ∈ table := by
    fun_induction CodeRun.find?.go run table code lo hi with
    | case1 | case5 => contradiction
    | case2 lo hi _ _ _ _ ih => exact ih h
    | case3 lo hi _ _ _ _ _ ih => exact ih h
    | case4 lo hi _ found hf =>
      cases h
      exact Array.mem_of_getElem? hf
  exact go 0 table.size h

theorem mem_of_isBlank_ofNat {code : Nat} (h : isBlank (Char.ofNat code) = true) :
    code ∈ blanks.map Char.toNat := by
  have hmem : (Char.ofNat code).toNat ∈ blanks.map Char.toNat :=
    List.mem_map_of_mem (isBlank_iff.1 h)
  have hzero : 0 ∉ blanks.map Char.toNat := by decide
  rw [Char.toNat_ofNat] at hmem
  split_ifs at hmem with hvalid
  · exact hmem
  · contradiction

/-- Whether no target of a table is a blank. -/
def avoidsBlanks (table : Array CaseRun) : Bool :=
  table.all fun run => (blanks.map Char.toNat).all fun blank =>
    blank < run.target || run.target + (run.source.last - run.source.first) < blank

theorem isBlank_image {table : Array CaseRun} (ht : avoidsBlanks table = true)
    (h : isBlank c = false) : isBlank (Char.ofNat (CaseRun.image table c.toNat)) = false := by
  rw [← Char.ofNat_toNat c] at h
  unfold CaseRun.image
  split
  · next run hrun =>
    split_ifs with hc
    · rw [← Bool.not_eq_true]
      intro hb
      have hrun := Array.all_eq_true_iff_forall_mem.1 ht run (mem_of_find? hrun)
      have hblank := List.all_eq_true.1 hrun _ (mem_of_isBlank_ofNat hb)
      simp only [CodeRun.contains, Bool.and_eq_true, Bool.or_eq_true, decide_eq_true_eq] at hc hblank
      omega
    · exact h
  · exact h

theorem exists_toUppercase (h : isAlphanumeric c = true) :
    ∃ d rest, toUppercase c = d :: rest ∧ isBlank d = false := by
  have hc := isBlank_of_isAlphanumeric h
  have hruns : avoidsBlanks toUpperRuns = true := by decide +kernel
  unfold toUppercase
  split_ifs with hascii
  · have ascii : (List.range 128).all (fun n =>
        isBlank (Char.ofNat n) || !isBlank (Char.ofNat n).toUpper) = true := by decide +kernel
    have hup := List.all_eq_true.1 ascii c.toNat (List.mem_range.2 hascii)
    rw [Char.ofNat_toNat, hc] at hup
    exact ⟨_, [], rfl, by simpa using hup⟩
  · split
    · next codes hcodes =>
      have expansions : toUpperExpansions.all (fun (_, codes) =>
          codes.head?.any fun code => !isBlank (Char.ofNat code)) = true := by decide +kernel
      obtain ⟨l₁, l₂, heq, -⟩ := List.lookup_eq_some_iff.1 hcodes
      have hhead := List.all_eq_true.1 expansions (c.toNat, codes) (by simp [heq])
      cases codes with
      | nil => exact absurd hhead Bool.false_ne_true
      | cons code codes => exact ⟨_, _, rfl, by simpa using hhead⟩
    · exact ⟨_, [], rfl, isBlank_image hruns hc⟩

end Case

theorem head_capitalizeWord {word : List Char} (h : ∀ c ∈ word, isAlphanumeric c = true) :
    ∀ d ∈ (capitalizeWord word).head?, isBlank d = false := by
  cases word with
  | nil => exact nofun
  | cons c rest =>
    obtain ⟨d, more, hup, hd⟩ := exists_toUppercase (h c List.mem_cons_self)
    rw [capitalizeWord, hup]
    rintro _ ⟨⟩
    exact hd

theorem head_flatMap {P : Char → Prop} {ws : List (List Char)}
    (h : ∀ w ∈ ws, ∀ d ∈ (capitalizeWord w).head?, P d) :
    ∀ d ∈ (ws.flatMap capitalizeWord).head?, P d := by
  induction ws with
  | nil => exact nofun
  | cons w ws ih =>
    obtain ⟨hw, hws⟩ := List.forall_mem_cons.1 h
    rw [List.flatMap_cons]
    cases hcap : capitalizeWord w with
    | nil => exact ih hws
    | cons d rest =>
      rw [hcap] at hw
      exact hw

theorem allBlank_pascalCase {ident : String} (h : allBlank (pascalCase ident) = true) :
    pascalCase ident = "" := by
  have hhead : ∀ d ∈ ((words ident.toList).flatMap capitalizeWord).head?, isBlank d = false :=
    head_flatMap fun w hw => head_capitalizeWord (isAlphanumeric_of_mem_words hw)
  unfold pascalCase at h ⊢
  dsimp only at h ⊢
  split
  · next c rest hjoined =>
    rw [hjoined] at h hhead
    have hc : isBlank c = false := hhead c rfl
    have hline : isBlank '_' = false := isBlank_eq_false_iff.2 (by decide)
    cases hd : c.isDigit <;> simp [hd, allBlank, hc, hline] at h
  · rfl

end TypedTables.Text
