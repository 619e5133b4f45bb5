import TypedTables.Proofs.Statement.Pieces
import TypedTables.Proofs.Text.Utf8

/-!
Cutting a text byte by byte and character by character. Quotes, backslashes, comment marks and
semicolons are ASCII, so that no byte of another character is taken for one of them.
-/

namespace TypedTables.Statement

open Lexeme Text
open String (utf8EncodeChar utf8Len)

section Quoted

variable {quote : UInt8}

theorem quotedBytes_go (n : Nat) (bytes : List UInt8) :
    quotedBytes.go quote n bytes = quotedBytes quote bytes + n := by
  have add (k : Nat) :
      quotedBytes.go quote (n + k) bytes = quotedBytes.go quote k bytes + n := by
    fun_induction quotedBytes.go quote k bytes with
    | case1 k => exact Nat.add_comm n k
    | case2 k b => simp only [quotedBytes.go]; omega
    | case3 k d rest ih => rw [quotedBytes.go, if_pos rfl, ← ih, Nat.add_assoc]
    | case4 k rest h ih => rw [quotedBytes.go, if_neg h, if_pos rfl, if_pos rfl, ← ih, Nat.add_assoc]
    | case5 k d rest h hd => rw [quotedBytes.go, if_neg h, if_pos rfl, if_neg hd]; omega
    | case6 k b d rest h hb ih => rw [quotedBytes.go, if_neg h, if_neg hb, ← ih, Nat.add_assoc]
  exact add 0

theorem quotedBytes_cons_cons (b d : UInt8) (rest : List UInt8) :
    quotedBytes quote (b :: d :: rest) =
      if b = '\\'.toUInt8 then quotedBytes quote rest + 2
      else if b = quote then
        if d = quote then quotedBytes quote rest + 2 else 1
      else quotedBytes quote (d :: rest) + 1 := by
  conv_lhs => rw [quotedBytes, quotedBytes.go]
  simp only [quotedBytes_go, Nat.zero_add]

theorem quotedBytes_cons {b : UInt8} (hb : b ≠ '\\'.toUInt8) (hq : b ≠ quote)
    (rest : List UInt8) : quotedBytes quote (b :: rest) = quotedBytes quote rest + 1 := by
  cases rest with
  | nil => rfl
  | cons d rest => rw [quotedBytes_cons_cons, if_neg hb, if_neg hq]

theorem quotedBytes_append {bytes : List UInt8}
    (h : ∀ b ∈ bytes, b ≠ '\\'.toUInt8 ∧ b ≠ quote) (rest : List UInt8) :
    quotedBytes quote (bytes ++ rest) = quotedBytes quote rest + bytes.length := by
  induction bytes with
  | nil => rfl
  | cons b bytes ih =>
    obtain ⟨⟨hb, hq⟩, hbytes⟩ := List.forall_mem_cons.1 h
    rw [List.cons_append, quotedBytes_cons hb hq, ih hbytes, List.length_cons, Nat.add_assoc]

section Encode

variable {quote : Char}

theorem quotedBytes_plain (hq : quote.toNat < 128) {c : Char} (hc : c ≠ '\\') (hc' : c ≠ quote)
    (rest : List UInt8) : quotedBytes quote.toUInt8 (utf8EncodeChar c ++ rest) =
      quotedBytes quote.toUInt8 rest + c.utf8Size := by
  rw [← String.length_utf8EncodeChar]
  exact quotedBytes_append (fun b hb =>
    ⟨ne_toUInt8_of_mem (by decide) hc b hb, ne_toUInt8_of_mem hq hc' b hb⟩) rest

/-- A backslash takes one byte with it, and those left of a longer character are passed singly. -/
theorem quotedBytes_escaped (hq : quote.toNat < 128) (d : Char) (rest : List UInt8) :
    quotedBytes quote.toUInt8 ('\\'.toUInt8 :: (utf8EncodeChar d ++ rest)) =
      quotedBytes quote.toUInt8 rest + d.utf8Size + 1 := by
  obtain ⟨b, bs, hd, -, hbs⟩ := exists_utf8EncodeChar d
  have hskip : quotedBytes quote.toUInt8 (bs ++ rest) = _ :=
    quotedBytes_append (fun x hx =>
      ⟨ne_toUInt8_of_le (hbs x hx) (by decide), ne_toUInt8_of_le (hbs x hx) hq⟩) _
  rw [← String.length_utf8EncodeChar, hd, List.cons_append, quotedBytes_cons_cons, if_pos rfl, hskip]
  rfl

theorem quotedBytes_close (hq : quote.toNat < 128) (hb : quote ≠ '\\') {d : Char} (hd : d ≠ quote)
    (rest : List UInt8) :
    quotedBytes quote.toUInt8 (quote.toUInt8 :: (utf8EncodeChar d ++ rest)) = 1 := by
  obtain ⟨b, bs, hbs, hfirst, -⟩ := exists_utf8EncodeChar d
  have hne : quote.toUInt8 ≠ '\\'.toUInt8 := fun h => hb ((toUInt8_inj hq (by decide)).1 h)
  rw [hbs, List.cons_append, quotedBytes_cons_cons, if_neg hne, if_pos rfl,
    if_neg (hfirst quote hq hd)]

theorem quotedBytes_encode (hq : quote.toNat < 128) (hb : quote ≠ '\\') (cs : List Char) :
    quotedBytes quote.toUInt8 (encode cs) = utf8Len (cs.take (quotedLength quote cs)) := by
  have hquote : utf8EncodeChar quote = [quote.toUInt8] := utf8EncodeChar_of_ascii hq
  have hback : utf8EncodeChar '\\' = ['\\'.toUInt8] := rfl
  have hsize : quote.utf8Size = 1 := utf8Size_of_ascii hq
  have hne : quote.toUInt8 ≠ '\\'.toUInt8 := fun h => hb ((toUInt8_inj hq (by decide)).1 h)
  induction cs using quoteCloses.induct quote with
  | case1 => rfl
  | case2 c =>
    change quotedBytes _ (encode [c]) = utf8Len [c]
    rw [encode_cons, String.utf8Len_cons]
    by_cases hc : c = '\\'
    · rw [hc, hback]
      rfl
    · by_cases hc' : c = quote
      · rw [hc', hquote, hsize]
        rfl
      · rw [quotedBytes_plain hq hc hc']
        rfl
  | case3 d rest ih =>
    rw [quotedLength_cons_cons, if_pos rfl, List.take_succ_cons, List.take_succ_cons,
      String.utf8Len_cons, String.utf8Len_cons, ← ih, encode_cons, encode_cons, hback]
    exact quotedBytes_escaped hq d (encode rest)
  | case4 rest h ih =>
    rw [quotedLength_cons_cons, if_neg h, if_pos rfl, if_pos rfl, List.take_succ_cons,
      List.take_succ_cons, String.utf8Len_cons, String.utf8Len_cons, ← ih, hsize, encode_cons,
      encode_cons, hquote]
    change quotedBytes _ (_ :: _ :: encode rest) = _
    rw [quotedBytes_cons_cons, if_neg hne, if_pos rfl, if_pos rfl]
  | case5 d rest hd h =>
    rw [quotedLength_cons_cons, if_neg h, if_pos rfl, if_neg hd, List.take_succ_cons,
      String.utf8Len_cons, hsize, encode_cons, encode_cons, hquote]
    exact quotedBytes_close hq hb hd (encode rest)
  | case6 c d rest h hc ih =>
    rw [quotedLength_cons_cons, if_neg h, if_neg hc, List.take_succ_cons, String.utf8Len_cons, ← ih,
      encode_cons, quotedBytes_plain hq h hc]

end Encode

end Quoted

section Block

theorem blockBytes_go (n : Nat) (bytes : List UInt8) :
    blockBytes.go n bytes = blockBytes bytes + n := by
  have add (k : Nat) : blockBytes.go (n + k) bytes = blockBytes.go k bytes + n := by
    fun_induction blockBytes.go k bytes with
    | case1 k => exact Nat.add_comm n k
    | case2 k b => simp only [blockBytes.go]; omega
    | case3 k b d rest h => rw [blockBytes.go, if_pos h]; omega
    | case4 k b d rest h ih => rw [blockBytes.go, if_neg h, ← ih, Nat.add_assoc]
  exact add 0

theorem blockBytes_cons_cons (b d : UInt8) (rest : List UInt8) :
    blockBytes (b :: d :: rest) =
      if b = '*'.toUInt8 && d = '/'.toUInt8 then 2 else blockBytes (d :: rest) + 1 := by
  conv_lhs => rw [blockBytes, blockBytes.go]
  simp only [blockBytes_go, Nat.zero_add]

theorem blockBytes_cons {b : UInt8} (h : b ≠ '*'.toUInt8) (rest : List UInt8) :
    blockBytes (b :: rest) = blockBytes rest + 1 := by
  cases rest with
  | nil => rfl
  | cons d rest => rw [blockBytes_cons_cons, if_neg (by simp [h])]

theorem blockBytes_append {bytes : List UInt8} (h : ∀ b ∈ bytes, b ≠ '*'.toUInt8)
    (rest : List UInt8) : blockBytes (bytes ++ rest) = blockBytes rest + bytes.length := by
  induction bytes with
  | nil => rfl
  | cons b bytes ih =>
    obtain ⟨hb, hbytes⟩ := List.forall_mem_cons.1 h
    rw [List.cons_append, blockBytes_cons hb, ih hbytes, List.length_cons, Nat.add_assoc]

theorem blockBytes_encode (cs : List Char) :
    blockBytes (encode cs) = utf8Len (cs.take (blockLength cs)) := by
  fun_induction blockCloses cs with
  | case1 rest => rfl
  | case2 c rest h ih =>
    rw [blockLength_cons h, List.take_succ_cons, String.utf8Len_cons, ← ih, encode_cons]
    by_cases hc : c = '*'
    · subst hc
      cases rest with
      | nil => rfl
      | cons d rest =>
        have hd : d ≠ '/' := fun hd => h rest rfl (by rw [hd])
        obtain ⟨b, bs, hb, hfirst, -⟩ := exists_utf8EncodeChar d
        have hslash : b ≠ '/'.toUInt8 := hfirst '/' (by decide) hd
        rw [encode_cons, hb]
        change blockBytes (_ :: b :: (bs ++ encode rest)) = _
        rw [blockBytes_cons_cons, if_neg (by simp [hslash])]
        rfl
    · rw [blockBytes_append (ne_toUInt8_of_mem (by decide) hc), String.length_utf8EncodeChar]
  | case3 => rfl

end Block

section Line

theorem takeWhile_encode (cs : List Char) :
    (encode cs).takeWhile (· != '\n'.toUInt8) = encode (cs.takeWhile (· != '\n')) := by
  induction cs with
  | nil => rfl
  | cons c cs ih =>
    by_cases hc : c = '\n'
    · subst hc
      rfl
    · have hne : ∀ b ∈ utf8EncodeChar c, (b != '\n'.toUInt8) = true := fun b hb =>
        bne_iff_ne.2 (ne_toUInt8_of_mem (by decide) hc b hb)
      have hc' : (c != '\n') = true := bne_iff_ne.2 hc
      rw [encode_cons, List.takeWhile_append_of_pos hne, ih, List.takeWhile_cons, if_pos hc',
        encode_cons]

theorem lineBytes_encode (cs : List Char) :
    lineBytes (encode cs) = utf8Len (cs.take (lineLength cs)) := by
  rw [lineBytes, takeWhile_encode, length_encode, lineLength, take_takeWhile]

end Line

section Run

variable {c : Char} {cs : List Char}

theorem runBytes_of_plain (hc : c.toNat < 128) (hq : isQuote c = false)
    (h : commentLength? c cs = none) : runBytes c.toUInt8 (encode cs) = 0 := by
  have hn : ¬ (c = singleQuote ∨ c = doubleQuote ∨ c = backQuote) := by
    rw [← isQuote_iff, hq]
    exact Bool.false_ne_true
  have hhash : c ≠ '#' := by
    rintro rfl
    contradiction
  unfold runBytes
  rw [if_neg, if_neg]
  · cases cs with
    | nil => rfl
    | cons d rest =>
      obtain ⟨b, bs, hd, hfirst, -⟩ := exists_utf8EncodeChar d
      rw [encode_cons, hd]
      change (if _ then _ else if _ then _ else 0) = 0
      rw [if_neg, if_neg]
      · rw [Bool.and_eq_true, decide_eq_true_iff, decide_eq_true_iff, toUInt8_inj hc (by decide)]
        rintro ⟨rfl, hb⟩
        obtain rfl : d = '*' := not_not.1 fun hne => hfirst '*' (by decide) hne hb
        contradiction
      · rw [Bool.and_eq_true, decide_eq_true_iff, decide_eq_true_iff, toUInt8_inj hc (by decide)]
        rintro ⟨rfl, hb⟩
        obtain rfl : d = '-' := not_not.1 fun hne => hfirst '-' (by decide) hne hb
        contradiction
  · rwa [toUInt8_inj hc (by decide)]
  · rwa [Bool.or_eq_true, Bool.or_eq_true, decide_eq_true_iff, decide_eq_true_iff,
      decide_eq_true_iff, or_assoc, toUInt8_inj hc (by decide), toUInt8_inj hc (by decide),
      toUInt8_inj hc (by decide)]

theorem runBytes_encode (hc : c.toNat < 128) :
    runBytes c.toUInt8 (encode cs) = utf8Len (cs.take (runLength c cs)) := by
  cases runStart c cs with
  | quote hq =>
    rw [runLength_of_quote hq, ← quotedBytes_encode hc (ne_backslash_of_isQuote hq)]
    obtain rfl | rfl | rfl := isQuote_iff.1 hq <;> rfl
  | hash => exact lineBytes_encode cs
  | @dashes cs => exact lineBytes_encode ('-' :: cs)
  | @block cs =>
    change blockBytes (encode cs) + 1 = utf8Len ('*' :: cs.take (blockLength cs))
    rw [blockBytes_encode]
    rfl
  | plain hq hn =>
    rw [runLength_of_plain hq hn, runBytes_of_plain hc hq hn]
    rfl

theorem runBytes_of_le {b : UInt8} (h : 128 ≤ b.toNat) (bytes : List UInt8) :
    runBytes b bytes = 0 := by
  have hne {q : Char} (hq : q.toNat < 128) : b ≠ q.toUInt8 := ne_toUInt8_of_le h hq
  unfold runBytes
  rw [if_neg, if_neg (hne (by decide))]
  · cases bytes with
    | nil => rfl
    | cons d rest =>
      change (if _ then _ else if _ then _ else 0) = 0
      rw [if_neg, if_neg]
      · exact fun hb => hne (by decide) (of_decide_eq_true (Bool.and_elim_left hb))
      · exact fun hb => hne (by decide) (of_decide_eq_true (Bool.and_elim_left hb))
  · simp only [Bool.or_eq_true, decide_eq_true_iff, not_or]
    exact ⟨⟨hne (by decide), hne (by decide)⟩, hne (by decide)⟩

end Run

section Cuts

variable {c : Char} {cs : List Char}

theorem cuts_of_ne {b : UInt8} (hb : b ≠ ';'.toUInt8) (offset : Nat) (done : List Nat)
    (rest : List UInt8) : cuts offset done (b :: rest) =
      cuts (offset + runBytes b rest + 1) done (rest.drop (runBytes b rest)) := by
  rw [cuts, if_neg hb]

theorem cuts_append {bytes : List UInt8} (h : ∀ b ∈ bytes, 128 ≤ b.toNat) (offset : Nat)
    (done : List Nat) (rest : List UInt8) :
    cuts offset done (bytes ++ rest) = cuts (offset + bytes.length) done rest := by
  induction bytes generalizing offset with
  | nil => rfl
  | cons b bytes ih =>
    obtain ⟨hb, hbytes⟩ := List.forall_mem_cons.1 h
    rw [List.cons_append, cuts_of_ne (ne_toUInt8_of_le hb (by decide)), runBytes_of_le hb,
      List.drop_zero, ih hbytes, List.length_cons, Nat.add_zero, Nat.add_assoc, Nat.add_comm 1]

theorem cuts_cons (hc : c ≠ ';') (offset : Nat) (done : List Nat) :
    cuts offset done (encode (c :: cs)) =
      cuts (offset + utf8Len (c :: cs.take (runLength c cs))) done
        (encode (cs.drop (runLength c cs))) := by
  rw [encode_cons]
  by_cases h : c.toNat < 128
  · have hne : c.toUInt8 ≠ ';'.toUInt8 := fun heq => hc ((toUInt8_inj h (by decide)).1 heq)
    rw [utf8EncodeChar_of_ascii h]
    change cuts offset done (c.toUInt8 :: encode cs) = _
    rw [cuts_of_ne hne, runBytes_encode h, drop_encode, String.utf8Len_cons, utf8Size_of_ascii h,
      Nat.add_assoc]
  · -- no byte of a character beyond ASCII starts a run
    cases runStart c cs with
    | quote hq => obtain rfl | rfl | rfl := isQuote_iff.1 hq <;> exact absurd (by decide) h
    | hash | dashes | block => exact absurd (by decide) h
    | plain hq hn =>
      rw [runLength_of_plain hq hn, cuts_append (le_of_mem_utf8EncodeChar (Nat.not_lt.1 h)),
        String.length_utf8EncodeChar, List.take_zero, String.utf8Len_cons, String.utf8Len_nil,
        Nat.zero_add, List.drop_zero]

/-- Offsets of the semicolons between pieces of which the first starts at `offset`. -/
def stops (offset : Nat) : List (List Char) → List Nat
  | [] | [_] => []
  | piece :: next :: rest =>
    (offset + utf8Len piece) :: stops (offset + utf8Len piece + 1) (next :: rest)

theorem stops_modifyHead (offset : Nat) (front : List Char) (ps : List (List Char)) :
    stops offset (ps.modifyHead (front ++ ·)) = stops (offset + utf8Len front) ps := by
  match ps with
  | [] | [_] => rfl
  | p :: q :: ps =>
    simp only [List.modifyHead_cons, stops, String.utf8Len_append, Nat.add_assoc]

theorem cuts_encode (offset : Nat) (done : List Nat) (cs : List Char) :
    cuts offset done (encode cs) = done.reverse ++ stops offset (pieces cs) := by
  induction cs using endsOpen.induct generalizing offset done with
  | case1 => rw [pieces_nil, stops, List.append_nil, encode, List.flatMap_nil, cuts]
  | case2 c cs ih =>
    by_cases hc : c = ';'
    · subst hc
      have hn : runLength ';' cs = 0 := rfl
      rw [hn, List.drop_zero] at ih
      obtain ⟨piece, rest, hp⟩ := List.exists_cons_of_ne_nil (pieces_ne_nil cs)
      change cuts offset done (';'.toUInt8 :: encode cs) = _
      rw [cuts, if_pos rfl, ih, pieces_semicolon, hp, stops]
      simp
    · rw [cuts_cons hc, ih, pieces_cons hc, stops_modifyHead]

end Cuts

section Between

variable {source : String}

theorem toList_slice {front middle rest : List Char}
    (h : source.toList = front ++ middle ++ rest) :
    (slice source (utf8Len front) (utf8Len front + utf8Len middle)).toList = middle := by
  rw [← String.ofList_toList (s := source), h, slice, String.extract_of_valid,
    String.toList_ofList]

theorem between_stops {ps : List (List Char)} (hne : ps ≠ []) (front : List Char)
    (h : source.toList = front ++ [';'].intercalate ps) :
    between source (utf8Len front) (stops (utf8Len front) ps) = ps := by
  induction ps generalizing front with
  | nil => contradiction
  | cons p ps ih =>
    cases ps with
    | nil =>
      have hs : source.toList = front ++ p ++ [] := by simpa using h
      have hend : source.utf8ByteSize = utf8Len front + utf8Len p := by
        rw [← String.utf8Len_toList, hs, List.append_nil, String.utf8Len_append]
      rw [stops, between, hend, toList_slice hs]
    | cons q ps =>
      have hs : source.toList = front ++ p ++ ([';'] ++ [';'].intercalate (q :: ps)) := by
        rw [h, List.intercalate_cons_cons]
        simp
      have hrest := ih (by simp) (front ++ p ++ [';']) (by rw [hs]; simp)
      have hlen : utf8Len (front ++ p ++ [';']) = utf8Len front + utf8Len p + 1 := by
        rw [String.utf8Len_append, String.utf8Len_append]
        rfl
      rw [hlen] at hrest
      rw [stops, between, toList_slice hs, hrest]

/-- Nothing depends on going byte by byte. -/
theorem split_eq (source : String) : split source = ofPieces .start [] (pieces source.toList) := by
  have hcuts := cuts_encode 0 [] source.toList
  rw [encode_toList] at hcuts
  have hpieces := between_stops (pieces_ne_nil source.toList) []
    (by rw [intercalate_pieces]; rfl)
  rw [split, hcuts]
  exact congrArg (ofPieces .start []) hpieces

end Between

end TypedTables.Statement
