import TypedTables.Proofs.Checked.Token
import TypedTables.Proofs.Statement.Tokens

/-!
Statements, byte by byte: each look at a byte is an indexed access, and each piece is a slice of the
text between two semicolons.
-/

namespace TypedTables.Checked

open Statement (quotedBytes lineBytes blockBytes runBytes cuts)
open String (utf8Len)

/-- The text of a statement and the byte offset at which it begins. -/
structure RawStatement where
  text : String
  offset : Nat
  deriving DecidableEq, Repr

section Definitions

variable (largest : Nat) (bytes : List UInt8)

/-- The byte at `i`, if the text reaches so far. -/
def byteAt (i : Nat) : Access (Option UInt8) := do
  if i < bytes.length then return some (← element bytes i) else return none

/-- The end of a quoted run that is open at `i`. An escape at the end of the text goes beyond it. -/
def quotedEnd (quote : UInt8) : (fuel : Nat) → (i : Nat) → Access Nat
  | 0, _ => .error .endless
  | fuel + 1, i => do
    match ← byteAt bytes i with
    | none => return i
    | some b =>
      if b = '\\'.toUInt8 then quotedEnd quote fuel (← add largest i 2)
      else
        let next ← add largest i 1
        if b = quote then
          if (← byteAt bytes next) = some quote then quotedEnd quote fuel (← add largest next 1)
          else return next
        else quotedEnd quote fuel next

/-- The end of the line at `i`. -/
def lineEnd : (fuel : Nat) → (i : Nat) → Access Nat
  | 0, _ => .error .endless
  | fuel + 1, i => do
    if (← byteAt bytes i).any (· != '\n'.toUInt8) then lineEnd fuel (← add largest i 1)
    else return i

/-- The end of a block comment that is open at `i`. -/
def blockEnd : (fuel : Nat) → (i : Nat) → Access Nat
  | 0, _ => .error .endless
  | fuel + 1, i => do
    match ← byteAt bytes i with
    | none => return i
    | some b =>
      let next ← add largest i 1
      if (← byteAt bytes next) = some '/'.toUInt8 ∧ b = '*'.toUInt8 then add largest next 1
      else blockEnd fuel next

/-- The end of the quoted run or comment that starts with the byte `b` at `i`, or of the byte. -/
def runEnd (b : UInt8) (fuel i : Nat) : Access Nat := do
  let next ← add largest i 1
  let second ← byteAt bytes next
  if b = singleQuote.toUInt8 ∨ b = doubleQuote.toUInt8 ∨ b = backQuote.toUInt8 then
    quotedEnd largest bytes b fuel next
  else if b = '#'.toUInt8 ∨ b = '-'.toUInt8 ∧ second = some '-'.toUInt8 then
    lineEnd largest bytes fuel i
  else if b = '/'.toUInt8 ∧ second = some '*'.toUInt8 then
    blockEnd largest bytes fuel (← add largest i 2)
  else return next

end Definitions

section Definitions

variable (largest : Nat) (source : String)

/-- The statement between two byte offsets, without the blanks around it. -/
def rawStatement? (start stop : Nat) : Access (Option RawStatement) := do
  let piece ← textSlice source start (min stop source.utf8ByteSize)
  let trimmed := String.ofList (piece.toList.dropWhile Text.isBlank)
  let offset ← add largest start (← sub piece.utf8ByteSize trimmed.utf8ByteSize)
  let text := String.ofList (Text.trimEnd trimmed.toList)
  return if text.isEmpty then none else some ⟨text, offset⟩

/-- The statements of a text, the next of which begins at `start`, from `i` on. -/
def rawStatements (bytes : List UInt8) :
    (fuel : Nat) → (start i : Nat) → (done : List RawStatement) → Access (List RawStatement)
  | 0, _, _, _ => .error .endless
  | fuel + 1, start, i, done => do
    match ← byteAt bytes i with
    | none =>
      let last? ← rawStatement? largest source start (max bytes.length start)
      return (last?.toList ++ done).reverse
    | some b =>
      if b = ';'.toUInt8 then
        let statement? ← rawStatement? largest source start i
        let next ← add largest i 1
        rawStatements bytes fuel next next (statement?.toList ++ done)
      else rawStatements bytes fuel start (← runEnd largest bytes b (bytes.length + 1) i) done

/-- All statements of a text. -/
def split : Access (List RawStatement) :=
  let bytes := source.toByteArray.data.toList
  rawStatements largest source bytes (bytes.length + 1) 0 0 []

/-- The texts of the statements that are kept. -/
def keptTexts : List RawStatement → Access (List String)
  | [] => return []
  | statement :: rest => do
    let tokens ← tokenize largest statement.text
    let texts ← keptTexts rest
    return if Statement.classify tokens == .keep then (statement.text ++ ";") :: texts else texts

def splitStatements : Access (List String) := do keptTexts largest (← split largest source)

end Definitions

section Bytes

variable {largest : Nat} {bytes bs : List UInt8} {b d : UInt8} {i fuel : Nat}

/-- The bytes from `i` on, where `i` may be one too far. -/
structure AtByte (bytes : List UInt8) (i : Nat) (bs : List UInt8) : Prop where
  drop : bytes.drop i = bs
  le : i ≤ bytes.length + 1

namespace AtByte

theorem length (h : AtByte bytes i (b :: bs)) : i + bs.length + 1 = bytes.length := by
  have hlength := congrArg List.length h.drop
  rw [List.length_drop, List.length_cons] at hlength
  omega

theorem tail (h : AtByte bytes i (b :: bs)) : AtByte bytes (i + 1) bs where
  drop := by rw [← List.drop_drop, h.drop, List.drop_one, List.tail_cons]
  le := by have := h.length; omega

/-- A byte that is not there may be passed, behind one that is. -/
theorem beyond (h : AtByte bytes i [b]) : AtByte bytes (i + 2) [] where
  drop := by rw [← List.drop_drop, h.drop]; rfl
  le := by have := h.length; simp only [List.length_nil] at this; omega

end AtByte

theorem byteAt_eq (h : AtByte bytes i bs) : byteAt bytes i = .ok bs.head? := by
  have hget : bytes[i]? = bs.head? := by rw [← h.drop, List.head?_drop]
  cases bs with
  | nil =>
    rw [byteAt, if_neg (Nat.not_lt.2 (List.drop_eq_nil_iff.1 h.drop))]
    rfl
  | cons b bs =>
    have hlt : i < bytes.length := by have := h.length; omega
    rw [byteAt, if_pos hlt, element, hget]
    rfl

variable (hlargest : bytes.length < largest)
include hlargest

theorem add_one_eq (h : AtByte bytes i (b :: bs)) : add largest i 1 = .ok (i + 1) :=
  add_eq (by have := h.length; omega)

theorem add_two_eq (h : AtByte bytes i (b :: bs)) : add largest i 2 = .ok (i + 2) :=
  add_eq (by have := h.length; omega)

omit hlargest in
theorem quotedEnd_nil (quote : UInt8) (h : AtByte bytes i []) :
    quotedEnd largest bytes quote (fuel + 1) i = .ok i := by
  rw [quotedEnd, Access.bind_eq (byteAt_eq h)]
  rfl

theorem quotedEnd_cons (quote : UInt8) (h : AtByte bytes i (b :: bs)) :
    quotedEnd largest bytes quote (fuel + 1) i =
      if b = '\\'.toUInt8 then quotedEnd largest bytes quote fuel (i + 2)
      else if b = quote then
        if bs.head? = some quote then quotedEnd largest bytes quote fuel (i + 2) else .ok (i + 1)
      else quotedEnd largest bytes quote fuel (i + 1) := by
  rw [quotedEnd, Access.bind_eq (byteAt_eq h)]
  dsimp only [List.head?_cons]
  rw [Access.bind_eq (add_one_eq hlargest h), Access.bind_eq (add_two_eq hlargest h),
    Access.bind_eq (byteAt_eq h.tail)]
  split_ifs with hescape hquote hdouble
  · rfl
  · obtain ⟨rest, rfl⟩ := List.head?_eq_some_iff.1 hdouble
    rw [Access.bind_eq (add_one_eq hlargest h.tail)]
  · rfl
  · rfl

theorem exists_quotedEnd (quote : UInt8) {i fuel : Nat} :
    (bs : List UInt8) → bs.length < fuel + 1 → AtByte bytes i bs →
    ∃ j, quotedEnd largest bytes quote (fuel + 1) i = .ok j ∧
      AtByte bytes j (bs.drop (quotedBytes quote bs))
  | [], _, h => ⟨i, quotedEnd_nil quote h, h⟩
  | [b], hfuel, h => by
    obtain ⟨fuel, rfl, -⟩ := exists_fuel hfuel
    rw [quotedEnd_cons hlargest quote h, quotedEnd_nil quote h.beyond, quotedEnd_nil quote h.tail]
    split_ifs with hescape hquote hdouble
    · exact ⟨i + 2, rfl, h.beyond⟩
    · contradiction
    · exact ⟨i + 1, rfl, h.tail⟩
    · exact ⟨i + 1, rfl, h.tail⟩
  | b :: d :: rest, hfuel, h => by
    obtain ⟨fuel, rfl, hrest⟩ := exists_fuel hfuel
    rw [quotedEnd_cons hlargest quote h, Statement.quotedBytes_cons_cons]
    simp only [List.head?_cons, Option.some_inj]
    split_ifs with hescape hquote hdouble
    · exact exists_quotedEnd quote rest (Nat.lt_of_succ_lt hrest) h.tail.tail
    · exact exists_quotedEnd quote rest (Nat.lt_of_succ_lt hrest) h.tail.tail
    · exact ⟨i + 1, rfl, h.tail⟩
    · exact exists_quotedEnd quote (d :: rest) hrest h.tail

theorem exists_lineEnd (h : AtByte bytes i bs) (hfuel : bs.length < fuel + 1) :
    ∃ j, lineEnd largest bytes (fuel + 1) i = .ok j ∧
      AtByte bytes j (bs.drop (lineBytes bs)) := by
  induction bs generalizing i fuel with
  | nil =>
    refine ⟨i, ?_, h⟩
    rw [lineEnd, Access.bind_eq (byteAt_eq h)]
    rfl
  | cons b bs ih =>
    obtain ⟨fuel, rfl, hrest⟩ := exists_fuel hfuel
    rw [lineEnd, Access.bind_eq (byteAt_eq h), Access.bind_eq (add_one_eq hlargest h), lineBytes,
      List.takeWhile_cons, List.head?_cons, Option.any_some]
    split_ifs with hend
    · exact ih h.tail hrest
    · exact ⟨i, rfl, h⟩

theorem blockEnd_cons (h : AtByte bytes i (b :: bs)) :
    blockEnd largest bytes (fuel + 1) i =
      if bs.head? = some '/'.toUInt8 ∧ b = '*'.toUInt8 then .ok (i + 2)
      else blockEnd largest bytes fuel (i + 1) := by
  rw [blockEnd, Access.bind_eq (byteAt_eq h)]
  dsimp only [List.head?_cons]
  rw [Access.bind_eq (add_one_eq hlargest h), Access.bind_eq (byteAt_eq h.tail)]
  split_ifs with hclose
  · obtain ⟨rest, rfl⟩ := List.head?_eq_some_iff.1 hclose.1
    exact add_one_eq hlargest h.tail
  · rfl

theorem exists_blockEnd {i fuel : Nat} : (bs : List UInt8) → bs.length < fuel + 1 →
    AtByte bytes i bs → ∃ j, blockEnd largest bytes (fuel + 1) i = .ok j ∧
      AtByte bytes j (bs.drop (blockBytes bs))
  | [], _, h => by
    refine ⟨i, ?_, h⟩
    rw [blockEnd, Access.bind_eq (byteAt_eq h)]
    rfl
  | b :: rest, hfuel, h => by
    obtain ⟨fuel, rfl, hrest⟩ := exists_fuel hfuel
    have ih := exists_blockEnd rest hrest h.tail
    rw [blockEnd_cons hlargest h]
    cases rest with
    | nil =>
      rw [if_neg (by simp)]
      exact ih
    | cons d rest =>
      rw [Statement.blockBytes_cons_cons]
      simp only [List.head?_cons, Option.some_inj, Bool.and_eq_true, decide_eq_true_eq, and_comm]
      split_ifs with hclose
      · exact ⟨i + 2, rfl, h.tail.tail⟩
      · exact ih

omit hlargest in
theorem runBytes_eq (b : UInt8) (bs : List UInt8) : runBytes b bs =
    if b = singleQuote.toUInt8 ∨ b = doubleQuote.toUInt8 ∨ b = backQuote.toUInt8 then
      quotedBytes b bs
    else if b = '#'.toUInt8 ∨ b = '-'.toUInt8 ∧ bs.head? = some '-'.toUInt8 then lineBytes bs
    else if b = '/'.toUInt8 ∧ bs.head? = some '*'.toUInt8 then blockBytes bs.tail + 1
    else 0 := by
  unfold runBytes
  simp only [Bool.or_eq_true, decide_eq_true_eq, or_assoc]
  refine if_congr Iff.rfl rfl ?_
  by_cases hhash : b = '#'.toUInt8
  · rw [if_pos hhash, if_pos (.inl hhash)]
  · cases bs <;> simp [hhash]

theorem exists_runEnd (h : AtByte bytes i (b :: bs)) (hfuel : bs.length < fuel) :
    ∃ j, runEnd largest bytes b (fuel + 1) i = .ok j ∧
      AtByte bytes j (bs.drop (runBytes b bs)) := by
  have hnext : bs.length < fuel + 1 := Nat.lt_succ_of_lt hfuel
  have hline (hb : (b != '\n'.toUInt8) = true) : ∃ j, lineEnd largest bytes (fuel + 1) i = .ok j ∧
      AtByte bytes j (bs.drop (lineBytes bs)) := by
    have hline := exists_lineEnd hlargest h (Nat.succ_lt_succ hfuel)
    rwa [lineBytes, List.takeWhile_cons_of_pos (p := (· != '\n'.toUInt8)) hb] at hline
  rw [runEnd, Access.bind_eq (add_one_eq hlargest h), Access.bind_eq (byteAt_eq h.tail),
    Access.bind_eq (add_two_eq hlargest h), runBytes_eq]
  split_ifs with hquote hcomment hblock
  · exact exists_quotedEnd hlargest b bs hnext h.tail
  · obtain rfl | ⟨rfl, -⟩ := hcomment <;> exact hline rfl
  · obtain ⟨rest, rfl⟩ := List.head?_eq_some_iff.1 hblock.2
    exact exists_blockEnd hlargest rest (Nat.lt_of_succ_lt hnext) h.tail.tail
  · exact ⟨i + 1, rfl, h.tail⟩

end Bytes

section Statements

open Statement (ofPiece? ofPieces pieces stops)

variable {largest : Nat} {source : String} {front piece back : List Char} {here : Location}

def RawStatement.of (s : Statement) : RawStatement := ⟨s.text, s.start.offset⟩

/-- A piece of a text is a slice of it, and the blanks before the statement in it are counted. -/
theorem rawStatement?_eq (hfits : Fits largest source)
    (hsource : source.toList = front ++ piece ++ back) (hhere : here.offset = utf8Len front) :
    rawStatement? largest source (utf8Len front) (utf8Len front + utf8Len piece) =
      .ok ((ofPiece? here piece).map RawStatement.of) := by
  have hsize : source.utf8ByteSize = utf8Len front + utf8Len piece + utf8Len back := by
    rw [← String.utf8Len_toList, hsource, String.utf8Len_append, String.utf8Len_append]
  have hparts : utf8Len piece = utf8Len (piece.takeWhile Text.isBlank) +
      utf8Len (piece.dropWhile Text.isBlank) := by
    rw [← String.utf8Len_append, List.takeWhile_append_dropWhile]
  have hsub : sub (utf8Len piece) (utf8Len (piece.dropWhile Text.isBlank)) =
      .ok (utf8Len (piece.takeWhile Text.isBlank)) := by
    rw [sub_eq (by omega), hparts, Nat.add_sub_cancel]
  unfold Fits at hfits
  rw [rawStatement?, Nat.min_eq_left (by omega), Access.bind_eq (textSlice_eq hsource)]
  dsimp only
  simp only [String.toList_ofList, ← String.utf8Len_toList]
  rw [Access.bind_eq hsub, Access.bind_eq (add_eq (by omega)), ofPiece?, Text.drop_takeWhile]
  cases hdrop : piece.dropWhile Text.isBlank with
  | nil => rfl
  | cons c rest =>
    have hblank : Text.isBlank c = false := by
      have hnot := List.head_dropWhile_not Text.isBlank (l := piece) (by simp [hdrop])
      simpa [hdrop] using hnot
    have htext : (String.ofList (Text.trimEnd (c :: rest))).isEmpty = false := by
      rw [String.isEmpty_eq_false_iff, ne_eq, String.ofList_eq_empty_iff]
      exact Text.trimEnd_ne_nil hblank rest
    simp only [htext, RawStatement.of, Option.map_some, Location.offset_advanceBytes, hhere]
    rfl

theorem cuts_done (offset : Nat) (done : List Nat) : (bytes : List UInt8) →
    cuts offset done bytes = done.reverse ++ cuts offset [] bytes
  | [] => by rw [cuts, cuts, List.reverse_nil, List.append_nil]
  | b :: rest => by
    rw [cuts, cuts]
    split_ifs
    · rw [cuts_done _ (offset :: done), cuts_done _ [offset], ← List.append_assoc,
        List.reverse_cons, List.reverse_singleton]
    · exact cuts_done _ _ _
  termination_by bytes => bytes.length
  decreasing_by all_goals simp only [List.length_drop, List.length_cons]; omega

/-- Where the end of a run lies beyond the text, nothing is cut behind it. -/
theorem cuts_of_atByte {bytes bs : List UInt8} {b : UInt8} {i j n : Nat}
    (h : AtByte bytes i (b :: bs)) (hj : AtByte bytes j (bs.drop n)) (done : List Nat) :
    cuts j done (bs.drop n) = cuts (i + n + 1) done (bs.drop n) := by
  cases hrest : bs.drop n with
  | nil => rw [cuts, cuts]
  | cons d rest =>
    rw [hrest] at hj
    have hlength : (bs.drop n).length = rest.length + 1 := congrArg List.length hrest
    have hi := h.length
    have hj := hj.length
    rw [List.length_drop] at hlength
    obtain rfl : j = i + n + 1 := by omega
    rfl

/-- The statements of a text from `start` on, given where it is cut. -/
def rawBetween (largest : Nat) (source : String) (start : Nat) :
    List Nat → Access (List RawStatement)
  | [] => Option.toList <$> rawStatement? largest source start source.utf8ByteSize
  | stop :: stops => do
    let statement? ← rawStatement? largest source start stop
    let rest ← rawBetween largest source (stop + 1) stops
    return statement?.toList ++ rest

theorem rawStatements_eq {bytes : List UInt8} (hsize : bytes.length = source.utf8ByteSize)
    (hlargest : bytes.length < largest) {fuel start i : Nat} (done : List RawStatement) :
    (bs : List UInt8) → bs.length < fuel + 1 → AtByte bytes i bs →
    rawStatements largest source bytes (fuel + 1) start i done =
      (done.reverse ++ ·) <$> rawBetween largest source start (cuts i [] bs)
  | [], _, h => by
    have hend : rawStatement? largest source start (max bytes.length start) =
        rawStatement? largest source start source.utf8ByteSize := by
      rw [rawStatement?, rawStatement?, hsize, Nat.min_eq_right (Nat.le_max_left _ _), Nat.min_self]
    rw [rawStatements, Access.bind_eq (byteAt_eq h), cuts, List.reverse_nil, rawBetween]
    dsimp only [List.head?_nil]
    rw [hend, Functor.map_map, ← bind_pure_comp]
    exact bind_congr fun last? => by cases last? <;> simp
  | b :: bs, hfuel, h => by
    obtain ⟨fuel, rfl, hrest⟩ := exists_fuel hfuel
    rw [rawStatements, Access.bind_eq (byteAt_eq h), cuts]
    dsimp only [List.head?_cons]
    split_ifs with hb
    · rw [cuts_done, List.reverse_singleton, List.singleton_append, rawBetween, ← bind_pure_comp]
      simp only [bind_assoc, pure_bind]
      refine bind_congr fun statement? => ?_
      rw [Access.bind_eq (add_one_eq hlargest h), rawStatements_eq hsize hlargest _ bs hrest h.tail,
        ← bind_pure_comp]
      cases statement? <;> simp
    · have hshort : bs.length < bytes.length := by have := h.length; omega
      obtain ⟨j, hj, hat⟩ := exists_runEnd hlargest h hshort
      rw [Access.bind_eq hj, rawStatements_eq hsize hlargest done (bs.drop _) (by simp; omega) hat,
        cuts_of_atByte h hat]
  termination_by bs => bs.length
  decreasing_by all_goals simp only [List.length_drop, List.length_cons]; omega

theorem rawBetween_stops (hfits : Fits largest source) {ps : List (List Char)} (hne : ps ≠ [])
    (hhere : here.offset = utf8Len front) (hsource : source.toList = front ++ [';'].intercalate ps) :
    rawBetween largest source (utf8Len front) (stops (utf8Len front) ps) =
      .ok ((ofPieces here [] ps).map RawStatement.of) := by
  induction ps generalizing front here with
  | nil => contradiction
  | cons p ps ih =>
    rw [ofPieces_cons, List.map_append]
    cases ps with
    | nil =>
      have hlast : source.toList = front ++ p ++ [] := by simpa using hsource
      have hend : source.utf8ByteSize = utf8Len front + utf8Len p := by
        rw [← String.utf8Len_toList, hlast, List.append_nil, String.utf8Len_append]
      rw [stops, rawBetween, hend, rawStatement?_eq hfits hlast hhere]
      cases ofPiece? here p <;> rfl
    | cons q ps =>
      have hpiece : source.toList = front ++ p ++ ([';'] ++ [';'].intercalate (q :: ps)) := by
        rw [hsource, List.intercalate_cons_cons]
        simp
      have hnext : utf8Len (front ++ p ++ [';']) = utf8Len front + utf8Len p + 1 := by
        rw [String.utf8Len_append, String.utf8Len_append]
        rfl
      have hplace : ((here.advanceBytes p).advanceBytes [';']).offset =
          utf8Len (front ++ p ++ [';']) := by
        rw [Location.offset_advanceBytes, Location.offset_advanceBytes, hhere, hnext]
        rfl
      have hrest := ih (List.cons_ne_nil q ps) hplace (by rw [hpiece]; simp)
      rw [hnext] at hrest
      rw [stops, rawBetween, Access.bind_eq (rawStatement?_eq hfits hpiece hhere),
        Access.bind_eq hrest]
      cases ofPiece? here p <;> rfl

/-- The statements of a text are found without an index, a slice or a count that fails. -/
theorem split_eq (hfits : Fits largest source) :
    split largest source = .ok ((Statement.split source).map RawStatement.of) := by
  have hsize : source.toByteArray.data.toList.length = source.utf8ByteSize := by
    rw [← Text.encode_toList, Text.length_encode, String.utf8Len_toList]
  have hcuts : cuts 0 [] source.toByteArray.data.toList = stops 0 (pieces source.toList) := by
    rw [← Text.encode_toList, Statement.cuts_encode]
    rfl
  have hstart : Location.start.offset = utf8Len [] := rfl
  have hpieces := rawBetween_stops hfits (Statement.pieces_ne_nil source.toList) hstart
    (by rw [Statement.intercalate_pieces]; rfl)
  rw [← Statement.split_eq] at hpieces
  unfold Fits at hfits
  have hfirst : AtByte source.toByteArray.data.toList 0 source.toByteArray.data.toList :=
    ⟨rfl, Nat.zero_le _⟩
  rw [split, rawStatements_eq hsize (by omega) [] _ (Nat.lt_succ_self _) hfirst, hcuts]
  exact congrArg (([].reverse ++ ·) <$> ·) hpieces

theorem fits_of_mem {s : Statement} (hfits : Fits largest source)
    (hs : s ∈ Statement.split source) : Fits largest s.text := by
  obtain ⟨lead, hlead⟩ := Statement.exists_standsIn_split hs
  obtain ⟨rest, hrest⟩ := hlead.text
  have hle : s.text.utf8ByteSize ≤ source.utf8ByteSize := by
    rw [← String.utf8Len_toList, ← String.utf8Len_toList, ← hrest, String.utf8Len_append,
      String.utf8Len_append]
    omega
  unfold Fits at *
  omega

theorem keptTexts_eq {statements : List Statement} (hfits : ∀ s ∈ statements, Fits largest s.text) :
    keptTexts largest (statements.map RawStatement.of) =
      .ok ((statements.filter fun s => Statement.classify (TypedTables.tokenize s.text) == .keep).map
        fun s => s.text ++ ";") := by
  induction statements with
  | nil => rfl
  | cons s statements ih =>
    obtain ⟨hs, hstatements⟩ := List.forall_mem_cons.1 hfits
    rw [List.map_cons, keptTexts]
    dsimp only [RawStatement.of]
    rw [Access.bind_eq (tokenize_eq hs), Access.bind_eq (ih hstatements), List.filter_cons]
    split_ifs <;> rfl

theorem splitStatements_eq (hfits : Fits largest source) :
    splitStatements largest source = .ok (TypedTables.splitStatements source) := by
  rw [splitStatements, Access.bind_eq (split_eq hfits)]
  exact keptTexts_eq fun s => fits_of_mem hfits

end Statements

end TypedTables.Checked
