import Mathlib

/-!
The bytes of a text. An ASCII character is one byte, and no byte of another character is ASCII.
-/

namespace TypedTables.Text

open String (utf8EncodeChar utf8Len)

variable {c q : Char}

def encode (cs : List Char) : List UInt8 := cs.flatMap utf8EncodeChar

theorem encode_cons (c : Char) (cs : List Char) : encode (c :: cs) = utf8EncodeChar c ++ encode cs :=
  List.flatMap_cons

theorem encode_append (xs ys : List Char) : encode (xs ++ ys) = encode xs ++ encode ys :=
  List.flatMap_append

theorem length_encode (cs : List Char) : (encode cs).length = utf8Len cs := by
  induction cs with
  | nil => rfl
  | cons c cs ih =>
    rw [encode_cons, List.length_append, String.length_utf8EncodeChar, ih, String.utf8Len_cons,
      Nat.add_comm]

theorem encode_toList (source : String) :
    encode source.toList = source.toByteArray.data.toList := by
  rw [← String.utf8Encode_toList, List.utf8Encode, List.data_toByteArray, encode]

theorem utf8EncodeChar_of_ascii (h : c.toNat < 128) : utf8EncodeChar c = [c.toUInt8] := by
  have hle : c.val ≤ 127 := UInt32.le_iff_toNat_le.2 (Nat.le_of_lt_succ h)
  exact String.utf8EncodeChar_eq_singleton (Char.utf8Size_eq_one_iff.2 hle)

theorem utf8Size_of_ascii (h : c.toNat < 128) : c.utf8Size = 1 := by
  rw [← String.length_utf8EncodeChar, utf8EncodeChar_of_ascii h, List.length_singleton]

theorem le_of_mem_utf8EncodeChar (h : 128 ≤ c.toNat) : ∀ b ∈ utf8EncodeChar c, 128 ≤ b.toNat := by
  fun_cases utf8EncodeChar c with
  | case1 v hv => exact absurd h (Nat.not_le.2 (Nat.lt_succ_of_le hv))
  | case2 | case3 | case4 =>
    simp only [List.forall_mem_cons, UInt8.toNat_ofNat']
    refine ⟨by omega, by omega, ?_⟩
    simp <;> omega

theorem toNat_toUInt8 (h : q.toNat < 128) : q.toUInt8.toNat = q.toNat :=
  (UInt32.toNat_toUInt8 q.val).trans (Nat.mod_eq_of_lt (by change q.toNat < _; omega))

theorem ne_toUInt8_of_le {b : UInt8} (hb : 128 ≤ b.toNat) (hq : q.toNat < 128) : b ≠ q.toUInt8 := by
  rintro rfl
  rw [toNat_toUInt8 hq] at hb
  omega

theorem toUInt8_inj (hc : c.toNat < 128) (hq : q.toNat < 128) : c.toUInt8 = q.toUInt8 ↔ c = q := by
  rw [← UInt8.toNat_inj, toNat_toUInt8 hc, toNat_toUInt8 hq, Char.toNat_inj]

/-- No byte of a character is that of another one that is ASCII. -/
theorem ne_toUInt8_of_mem (hq : q.toNat < 128) (h : c ≠ q) :
    ∀ b ∈ utf8EncodeChar c, b ≠ q.toUInt8 := by
  intro b hb
  by_cases hc : c.toNat < 128
  · rw [utf8EncodeChar_of_ascii hc, List.mem_singleton] at hb
    rwa [hb, ne_eq, toUInt8_inj hc hq]
  · exact ne_toUInt8_of_le (le_of_mem_utf8EncodeChar (Nat.not_lt.1 hc) b hb) hq

/-- The first byte tells a character from all others that are ASCII, and no further one is ASCII. -/
theorem exists_utf8EncodeChar (c : Char) : ∃ b bs, utf8EncodeChar c = b :: bs ∧
    (∀ q : Char, q.toNat < 128 → c ≠ q → b ≠ q.toUInt8) ∧ ∀ x ∈ bs, 128 ≤ x.toNat := by
  obtain ⟨b, bs, hbs⟩ := List.exists_cons_of_ne_nil (@String.utf8EncodeChar_ne_nil c)
  refine ⟨b, bs, hbs, fun q hq hc => ?_, fun x hx => ?_⟩
  · exact ne_toUInt8_of_mem hq hc b (by rw [hbs]; exact List.mem_cons_self)
  · by_cases h : c.toNat < 128
    · rw [utf8EncodeChar_of_ascii h, List.cons.injEq] at hbs
      rw [← hbs.2] at hx
      contradiction
    · apply le_of_mem_utf8EncodeChar (Nat.not_lt.1 h)
      rw [hbs]
      exact List.mem_cons_of_mem b hx

theorem drop_encode (n : Nat) (cs : List Char) :
    (encode cs).drop (utf8Len (cs.take n)) = encode (cs.drop n) := by
  conv_lhs => rw [← List.take_append_drop n cs, encode_append]
  rw [List.take_append_drop, ← length_encode, List.drop_left]

end TypedTables.Text
