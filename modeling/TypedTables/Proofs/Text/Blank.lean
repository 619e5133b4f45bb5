import Mathlib
import TypedTables.Text.Alphanumeric
import TypedTables.Text.Blank

/-!
Blanks one by one, and a text as the blanks around it and what is left when they are trimmed.
-/

namespace TypedTables.Text

def blanks : List Char :=
  [9, 10, 11, 12, 13, 0x20, 0x85, 0xA0, 0x1680, 0x2000, 0x2001, 0x2002, 0x2003, 0x2004, 0x2005,
   0x2006, 0x2007, 0x2008, 0x2009, 0x200A, 0x2028, 0x2029, 0x202F, 0x205F, 0x3000].map Char.ofNat

theorem isBlank_iff {c : Char} : isBlank c = true ↔ c ∈ blanks := by
  constructor
  · intro h
    rw [← Char.ofNat_toNat c]
    simp only [isBlank, Bool.or_eq_true, Bool.and_eq_true, decide_eq_true_eq, beq_iff_eq] at h
    apply List.mem_map_of_mem
    simp only [List.mem_cons, List.not_mem_nil, or_false]
    omega
  · have all : blanks.all isBlank = true := by
      unfold isBlank
      decide
    exact List.all_eq_true.1 all c

theorem isBlank_eq_false_iff {c : Char} : isBlank c = false ↔ c ∉ blanks := by
  rw [← isBlank_iff, Bool.not_eq_true]

theorem isBlank_of_isAlphanumeric {c : Char} (h : isAlphanumeric c = true) :
    isBlank c = false := by
  have all : blanks.all (fun c => !isAlphanumeric c) = true := by decide +kernel
  rw [isBlank_eq_false_iff]
  intro hb
  simpa [h] using List.all_eq_true.1 all c hb

/-- What is left of a text without the blanks around it. -/
def trim (cs : List Char) : List Char := trimEnd (cs.dropWhile isBlank)

theorem exists_trimEnd (cs : List Char) :
    ∃ tail, cs = trimEnd cs ++ tail ∧ ∀ c ∈ tail, isBlank c = true := by
  refine ⟨(cs.reverse.takeWhile isBlank).reverse, ?_, fun c hc => ?_⟩
  · rw [trimEnd, ← List.reverse_append, List.takeWhile_append_dropWhile, List.reverse_reverse]
  · exact List.mem_takeWhile_imp (List.mem_reverse.1 hc)

theorem trimEnd_append_of_blank {tail : List Char} (h : ∀ c ∈ tail, isBlank c = true)
    (cs : List Char) : trimEnd (cs ++ tail) = trimEnd cs := by
  have hr : ∀ c ∈ tail.reverse, isBlank c = true := fun c hc => h c (List.mem_reverse.1 hc)
  rw [trimEnd, List.reverse_append, List.dropWhile_append_of_pos hr, trimEnd]

theorem trimEnd_ne_nil {c : Char} (h : isBlank c = false) (cs : List Char) :
    trimEnd (c :: cs) ≠ [] := by
  intro hnil
  obtain ⟨tail, hcs, hb⟩ := exists_trimEnd (c :: cs)
  rw [hnil, List.nil_append] at hcs
  have hc := hb c (hcs ▸ List.mem_cons_self)
  rw [h] at hc
  contradiction

theorem trimEnd_trimEnd (cs : List Char) : trimEnd (trimEnd cs) = trimEnd cs := by
  obtain ⟨tail, hcs, hb⟩ := exists_trimEnd cs
  conv_rhs => rw [hcs, trimEnd_append_of_blank hb]

theorem exists_trim (cs : List Char) :
    ∃ tail, cs = cs.takeWhile isBlank ++ (trim cs ++ tail) ∧ ∀ c ∈ tail, isBlank c = true := by
  obtain ⟨tail, hd, hb⟩ := exists_trimEnd (cs.dropWhile isBlank)
  refine ⟨tail, ?_, hb⟩
  rw [trim, ← hd, List.takeWhile_append_dropWhile]

theorem trim_cons_of_blank {c : Char} (h : isBlank c = true) (cs : List Char) :
    trim (c :: cs) = trim cs := by
  rw [trim, List.dropWhile_cons_of_pos h, trim]

theorem trim_trim (cs : List Char) : trim (trim cs) = trim cs := by
  have hdrop : (trim cs).dropWhile isBlank = trim cs := by
    obtain ⟨tail, hd, -⟩ := exists_trimEnd (cs.dropWhile isBlank)
    cases ht : trim cs with
    | nil => rfl
    | cons c rest =>
      rw [← trim, ht] at hd
      have hc := List.head_dropWhile_not isBlank (l := cs) (by simp [hd])
      simp only [hd, List.cons_append, List.head_cons] at hc
      rw [List.dropWhile_cons_of_neg (by simp [hc])]
  rw [trim, hdrop]
  exact trimEnd_trimEnd _

theorem length_trimEnd_le (cs : List Char) : (trimEnd cs).length ≤ cs.length := by
  obtain ⟨tail, hcs, -⟩ := exists_trimEnd cs
  have h := congrArg List.length hcs
  rw [List.length_append] at h
  omega

theorem trimEnd_of_append {xs ys : List Char} (h : trimEnd (xs ++ ys) = xs ++ ys) :
    trimEnd ys = ys := by
  obtain ⟨tail, hys, hb⟩ := exists_trimEnd ys
  have hle : (xs ++ ys).length ≤ (xs ++ trimEnd ys).length := by
    calc (xs ++ ys).length = (trimEnd (xs ++ ys)).length := by rw [h]
      _ = (trimEnd (xs ++ trimEnd ys)).length := by
        conv_lhs => rw [hys, ← List.append_assoc, trimEnd_append_of_blank hb]
      _ ≤ (xs ++ trimEnd ys).length := length_trimEnd_le _
  have hlen : (trimEnd ys).length = (trimEnd ys ++ tail).length := by
    rw [← hys]
    simp only [List.length_append] at hle
    exact Nat.le_antisymm (length_trimEnd_le ys) (by omega)
  have hnil : tail = [] := by simpa using hlen
  rw [hnil, List.append_nil] at hys
  exact hys.symm

theorem drop_takeWhile (p : Char → Bool) (cs : List Char) :
    cs.drop (cs.takeWhile p).length = cs.dropWhile p := by
  have h := @List.drop_left _ (cs.takeWhile p) (cs.dropWhile p)
  rwa [List.takeWhile_append_dropWhile] at h

end TypedTables.Text
