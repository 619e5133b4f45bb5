import TypedTables.Proofs.Checked.Access
import TypedTables.Proofs.Script.Place
import TypedTables.Proofs.Token.Excerpt
import TypedTables.Proofs.Lockstep

/-!
Tokens, character by character: each look ahead slices the text, and each step counts bytes, lines
and columns.
-/

namespace TypedTables.Checked

open Lexeme
open String (utf8Len)

/-- Steps through a text, from a place in it. -/
abbrev Scan := EStateM Trap Location

instance : MonadLift Access Scan where
  monadLift x := fun here =>
    match x with
    | .ok a => .ok a here
    | .error trap => .error trap here

section Definitions

variable (largest : Nat) (source : String)

/-- More steps than any loop over the text takes. -/
def enough : Nat := source.utf8ByteSize + 1

/-- The characters ahead. -/
def ahead : Scan (List Char) := do return (← textFrom source (← get).offset).toList

def peek : Scan (Option Char) := List.head? <$> ahead source

def peekSecond : Scan (Option Char) := (·[1]?) <$> ahead source

/-- The place behind one more character. -/
def step (here : Location) (c : Char) : Access Location := do
  let offset ← add largest here.offset c.utf8Size
  if c = '\n' then return ⟨offset, ← add largest here.line 1, 1⟩
  else return ⟨offset, here.line, ← add largest here.column 1⟩

def advance : Scan (Option Char) := do
  match ← peek source with
  | none => return none
  | some c =>
    set (← step largest (← get) c)
    return some c

def advanceWhile (p : Char → Bool) : (fuel : Nat) → Scan Unit
  | 0 => throw .endless
  | fuel + 1 => do
    if (← peek source).any p then
      discard (advance largest source)
      advanceWhile p fuel

/-- The rest of a block comment behind its opening. -/
def blockRun : (fuel : Nat) → Scan Unit
  | 0 => throw .endless
  | fuel + 1 => do
    match ← advance largest source with
    | none => return ()
    | some c =>
      if (← peek source) = some '/' ∧ c = '*' then discard (advance largest source)
      else blockRun fuel

/-- The rest of a quoted run behind its opening quote. -/
def quotedRun (quote : Char) : (fuel : Nat) → (value : String) → Scan String
  | 0, _ => throw .endless
  | fuel + 1, value => do
    match ← advance largest source with
    | none => return value
    | some c =>
      if c = '\\' then
        match ← advance largest source with
        | none => quotedRun quote fuel value
        | some d => quotedRun quote fuel (value.push (unquote.escaped d))
      else if c = quote then
        if (← peek source) = some quote then
          discard (advance largest source)
          quotedRun quote fuel (value.push quote)
        else return value
      else quotedRun quote fuel (value.push c)

def fraction : Scan Unit := do
  if (← peek source) = some '.' ∧ (← peekSecond source).any Char.isDigit then
    discard (advance largest source)
    advanceWhile largest source Char.isDigit (enough source)

/-- Whether a sign or none, and a digit, are ahead. -/
def signedDigit : List Char → Bool
  | s :: rest => if s = '+' ∨ s = '-' then rest.head?.any Char.isDigit else s.isDigit
  | [] => false

/-- The characters behind the next byte. -/
def behindByte : Scan (List Char) := do
  return (← textFrom source (← add largest (← get).offset 1)).toList

def exponent : Scan Unit := do
  if (← peek source).any fun e => e = 'e' || e = 'E' then
    if signedDigit (← behindByte largest source) then
      discard (advance largest source)
      if (← peek source).any fun s => s = '+' || s = '-' then
        discard (advance largest source)
      advanceWhile largest source Char.isDigit (enough source)

def number : Scan Unit := do
  advanceWhile largest source Char.isDigit (enough source)
  fraction largest source
  exponent largest source

/-- The text from `first` to where the scan is. -/
def passed (first : Location) : Scan String := do
  textSlice source first.offset (← get).offset

/-- A token that begins at `first` and ends where the scan is. -/
def token (first : Location) (kind : TokenKind) (text : String) : Scan (Option Token) := do
  let length ← sub (← get).offset first.offset
  return some ⟨kind, text, first.offset, length, first.line, first.column⟩

/-- Passes what makes no token. -/
def gap (scan : Scan Unit) : Scan (Option Token) := do
  scan
  return none

/-- A token that shows what is passed. -/
def plainToken (scan : Scan Unit) (kind : String → TokenKind) : Scan (Option Token) := do
  let first ← get
  scan
  let text ← passed source first
  token first (kind text) text

/-- A token for a quoted run. -/
def quotedToken (kind : TokenKind) (quote : Char) : Scan (Option Token) := do
  let first ← get
  discard (advance largest source)
  token first kind (← quotedRun largest source quote (enough source) "")

/-- Passes the lexeme that starts with `c`, given what is behind `c`. -/
def lexemeGiven (c : Char) (second : Option Char) : Scan (Option Token) :=
  if Text.isBlank c then gap (discard (advance largest source))
  else if c = '#' ∨ c = '-' ∧ second = some '-' then
    gap (advanceWhile largest source (· != '\n') (enough source))
  else if c = '/' ∧ second = some '*' then
    gap do
      discard (advance largest source)
      discard (advance largest source)
      blockRun largest source (enough source)
  else if c = singleQuote then quotedToken largest source .string c
  else if c = backQuote ∨ c = doubleQuote then quotedToken largest source .quotedIdentifier c
  else if c.isDigit then plainToken source (number largest source) fun _ => .number
  else if isWordStart c then
    plainToken source (advanceWhile largest source isWordPart (enough source)) wordKind
  else match symbol? c with
    | some kind => plainToken source (discard (advance largest source)) fun _ => kind
    | none => gap (discard (advance largest source))

/-- Passes the lexeme that starts with `c`, which is ahead. -/
def lexeme (c : Char) : Scan (Option Token) := do
  lexemeGiven largest source c (← peekSecond source)

def tokens : (fuel : Nat) → (done : List Token) → Scan (List Token)
  | 0, _ => throw .endless
  | fuel + 1, done => do
    match ← peek source with
    | none => return done.reverse
    | some c => tokens fuel ((← lexeme largest source c).toList ++ done)

/-- The tokens of a text. -/
def tokenize : Access (List Token) :=
  match tokens largest source (enough source) [] .start with
  | .ok tokens _ => .ok tokens
  | .error trap _ => .error trap

end Definitions

theorem lift_of_ok {α : Type} {x : Access α} {a : α} (h : x = .ok a) (here : Location) :
    (liftM x : Scan α) here = .ok a here := by
  rw [h]
  rfl

section Scans

variable {α β : Type} {largest : Nat} {source : String} {front cs rest : List Char} {c : Char}

/-- Where `cs` is ahead, the scan passes the first `n` characters of it and gives `a`. -/
def Passes (source : String) (g : Scan α) (a : α) (cs : List Char) (n : Nat) : Prop :=
  ∀ front, source.toList = front ++ cs →
    g (Location.start.advance front) = .ok a (Location.start.advance (front ++ cs.take n))

namespace Passes

variable {g : Scan α} {f : α → Scan β} {a : α} {b : β} {n m : Nat}

theorem pure (a : α) (cs : List Char) : Passes source (Pure.pure a) a cs 0 := fun front _ => by
  rw [List.take_zero, List.append_nil]
  rfl

theorem bind (hg : Passes source g a cs n) (hf : Passes source (f a) b (cs.drop n) m) :
    Passes source (g >>= f) b cs (n + m) := by
  intro front h
  have hrest : source.toList = front ++ cs.take n ++ cs.drop n := by
    rw [h, List.append_assoc, List.take_append_drop]
  rw [bind_of_ok (hg front h), hf _ hrest, List.append_assoc, ← List.take_add]

/-- A step that only looks. -/
theorem look (hg : Passes source g a cs 0) (hf : Passes source (f a) b cs m) :
    Passes source (g >>= f) b cs m := by
  rw [← Nat.zero_add m]
  exact hg.bind hf

theorem stays (hg : Passes source g a cs 0) (h : source.toList = front ++ cs) :
    g (Location.start.advance front) = .ok a (Location.start.advance front) := by
  have hstays := hg front h
  rwa [List.take_zero, List.append_nil] at hstays

/-- A step that passes one character. -/
theorem next (hg : Passes source g a (c :: rest) 1) (hf : Passes source (f a) b rest m) :
    Passes source (g >>= f) b (c :: rest) (m + 1) := by
  rw [Nat.add_comm]
  exact hg.bind hf

theorem map (h : α → β) (hg : Passes source g a cs n) : Passes source (h <$> g) (h a) cs n := by
  rw [← bind_pure_comp]
  exact Passes.bind (m := 0) hg (.pure (h a) _)

theorem discard (hg : Passes source g a cs n) : Passes source (Functor.discard g) () cs n :=
  hg.map _

end Passes

theorem passes_ahead (cs : List Char) : Passes source (ahead source) cs cs 0 := by
  intro front h
  have htext : textFrom source (Location.start.advance front).offset = .ok (String.ofList cs) := by
    rw [offset_advance_start]
    exact textFrom_eq h
  rw [List.take_zero, List.append_nil, ahead, get_bind, bind_of_ok (lift_of_ok htext _),
    String.toList_ofList]
  rfl

theorem passes_peek (cs : List Char) : Passes source (peek source) cs.head? cs 0 :=
  (passes_ahead cs).map _

theorem passes_peekSecond (cs : List Char) : Passes source (peekSecond source) cs[1]? cs 0 :=
  (passes_ahead cs).map _

theorem count_le_utf8Len (c : Char) (cs : List Char) : cs.count c ≤ utf8Len cs :=
  List.count_le_length.trans (length_le_utf8Len cs)

theorem length_lastLine_le (cs : List Char) : (lastLine cs).length ≤ utf8Len cs := by
  refine le_trans ?_ (length_le_utf8Len cs)
  rw [lastLine, List.length_reverse]
  exact (List.takeWhile_sublist _).length_le.trans_eq List.length_reverse

theorem step_eq (hfits : Fits largest source) (h : source.toList = front ++ c :: rest) :
    step largest (Location.start.advance front) c = .ok (Location.start.advance (front ++ [c])) := by
  have hsize : source.utf8ByteSize = utf8Len front + (utf8Len rest + c.utf8Size) := by
    rw [← String.utf8Len_toList, h, String.utf8Len_append, String.utf8Len_cons]
  have hc : 0 < c.utf8Size := c.utf8Size_pos
  have hlines := count_le_utf8Len '\n' front
  have hcolumns := length_lastLine_le front
  have hnext : Location.start.advance (front ++ [c]) =
      (Location.start.advance front).step (fun _ => 1) c := Location.advance_append _ _ _
  unfold Fits at hfits
  rw [hnext, Location.advance_start, step, Location.step, add_eq (by dsimp only; omega)]
  change (if c = '\n' then _ else _) = _
  split_ifs
  · rw [add_eq (by dsimp only; omega)]
    rfl
  · rw [add_eq (by dsimp only; omega)]
    rfl

theorem passes_advance (hfits : Fits largest source) (c : Char) (rest : List Char) :
    Passes source (advance largest source) (some c) (c :: rest) 1 := by
  intro front h
  rw [advance, bind_of_ok ((passes_peek (c :: rest)).stays h)]
  dsimp only [List.head?_cons]
  rw [get_bind, bind_of_ok (lift_of_ok (step_eq hfits h) _)]
  rfl

theorem passes_advance_nil : Passes source (advance largest source) none [] 0 :=
  (passes_peek []).look (.pure none [])

theorem passes_advanceWhile (hfits : Fits largest source) (p : Char → Bool) {fuel : Nat}
    (cs : List Char) (hfuel : cs.length < fuel) :
    Passes source (advanceWhile largest source p fuel) () cs (cs.takeWhile p).length := by
  induction cs generalizing fuel with
  | nil =>
    obtain ⟨fuel, rfl⟩ := Nat.exists_eq_add_one_of_ne_zero hfuel.ne'
    exact (passes_peek []).look (.pure () [])
  | cons c cs ih =>
    obtain ⟨fuel, rfl⟩ := Nat.exists_eq_add_one_of_ne_zero (Nat.ne_zero_of_lt hfuel)
    refine (passes_peek (c :: cs)).look ?_
    rw [List.head?_cons, Option.any_some, List.takeWhile_cons]
    split_ifs with hp
    · exact (passes_advance hfits c cs).discard.next (ih (Nat.lt_of_succ_lt_succ hfuel))
    · exact .pure () _

theorem passes_blockRun (hfits : Fits largest source) {fuel : Nat} (cs : List Char)
    (hfuel : cs.length < fuel + 1) :
    Passes source (blockRun largest source (fuel + 1)) () cs (blockLength cs) := by
  fun_induction blockCloses cs generalizing fuel with
  | case1 rest =>
    refine (passes_advance hfits '*' ('/' :: rest)).next ((passes_peek _).look ?_)
    rw [if_pos ⟨rfl, rfl⟩]
    exact (passes_advance hfits '/' rest).discard
  | case2 c rest h ih =>
    obtain ⟨fuel, rfl, hrest⟩ := exists_fuel hfuel
    rw [blockLength_cons h]
    refine (passes_advance hfits c rest).next ((passes_peek _).look ?_)
    rw [if_neg]
    · exact ih hrest
    · rintro ⟨hslash, hstar⟩
      obtain ⟨tail, htail⟩ := List.head?_eq_some_iff.1 hslash
      exact h tail hstar htail
  | case3 => exact passes_advance_nil.look (.pure () [])

theorem passes_quotedRun (hfits : Fits largest source) (quote : Char) {fuel : Nat} (value : String)
    (cs : List Char) (hfuel : cs.length < fuel + 1) :
    Passes source (quotedRun largest source quote (fuel + 1) value) (unquote.go quote value cs) cs
      (quotedLength quote cs) := by
  have hnil (fuel : Nat) (value : String) :
      Passes source (quotedRun largest source quote (fuel + 1) value) value [] 0 :=
    passes_advance_nil.look (.pure value [])
  fun_induction unquote.go quote value cs generalizing fuel with
  | case1 value => exact hnil fuel value
  | case2 value c hends =>
    obtain ⟨fuel, rfl, -⟩ := exists_fuel hfuel
    refine (passes_advance hfits c []).next ?_
    dsimp only
    split_ifs with hescape hquote
    · exact passes_advance_nil.look (hnil fuel value)
    · exact (passes_peek []).look (.pure value [])
    · simp [hescape, hquote] at hends
  | case3 value c hends =>
    obtain ⟨fuel, rfl, -⟩ := exists_fuel hfuel
    have ⟨hescape, hquote⟩ : c ≠ '\\' ∧ c ≠ quote := by simpa using hends
    refine (passes_advance hfits c []).next ?_
    dsimp only
    rw [if_neg hescape, if_neg hquote]
    exact hnil fuel _
  | case4 value d rest ih =>
    obtain ⟨fuel, rfl, hrest⟩ := exists_fuel hfuel
    rw [quotedLength_cons_cons, if_pos rfl]
    refine (passes_advance hfits '\\' (d :: rest)).next ?_
    exact (passes_advance hfits d rest).next (ih (Nat.lt_of_succ_lt hrest))
  | case5 value rest hescape ih =>
    obtain ⟨fuel, rfl, hrest⟩ := exists_fuel hfuel
    rw [quotedLength_cons_cons, if_neg hescape, if_pos rfl, if_pos rfl]
    refine (passes_advance hfits quote (quote :: rest)).next ?_
    dsimp only
    rw [if_neg hescape, if_pos rfl]
    refine (passes_peek (quote :: rest)).look ?_
    rw [List.head?_cons, if_pos rfl]
    exact (passes_advance hfits quote rest).discard.next (ih (Nat.lt_of_succ_lt hrest))
  | case6 value d rest hclose hescape =>
    rw [quotedLength_cons_cons, if_neg hescape, if_pos rfl, if_neg hclose]
    refine (passes_advance hfits quote (d :: rest)).next ?_
    dsimp only
    rw [if_neg hescape, if_pos rfl]
    refine (passes_peek (d :: rest)).look ?_
    rw [List.head?_cons, if_neg (by simpa using hclose)]
    exact .pure value _
  | case7 value c d rest hescape hquote ih =>
    obtain ⟨fuel, rfl, hrest⟩ := exists_fuel hfuel
    rw [quotedLength_cons_cons, if_neg hescape, if_neg hquote]
    refine (passes_advance hfits c (d :: rest)).next ?_
    dsimp only
    rw [if_neg hescape, if_neg hquote]
    exact ih hrest

theorem digitsLength_cons_of_isDigit (h : c.isDigit = true) (cs : List Char) :
    digitsLength (c :: cs) = digitsLength cs + 1 := by
  rw [digitsLength, List.takeWhile_cons_of_pos h, List.length_cons, digitsLength]

theorem passes_digits (hfits : Fits largest source) (cs : List Char)
    (hcs : cs.length < enough source) :
    Passes source (advanceWhile largest source Char.isDigit (enough source)) () cs
      (digitsLength cs) := passes_advanceWhile hfits _ cs hcs

theorem passes_fraction (hfits : Fits largest source) (cs : List Char)
    (hcs : cs.length < enough source) :
    Passes source (fraction largest source) () cs (fractionLength cs) := by
  refine (passes_peek cs).look ((passes_peekSecond cs).look ?_)
  split_ifs with h
  · obtain ⟨hpoint, hdigit⟩ := h
    obtain ⟨rest, rfl⟩ := List.head?_eq_some_iff.1 hpoint
    cases rest with
    | nil => contradiction
    | cons d rest =>
      have hd : d.isDigit = true := hdigit
      rw [fractionLength, if_pos hd]
      refine (passes_advance hfits '.' (d :: rest)).discard.next ?_
      rw [← digitsLength_cons_of_isDigit hd]
      exact passes_digits hfits _ (Nat.lt_of_succ_lt hcs)
  · have hnone : fractionLength cs = 0 := by
      unfold fractionLength
      split
      · next d rest => simpa using h
      · rfl
    rw [hnone]
    exact .pure () cs

theorem passes_behindByte (hfits : Fits largest source) (hc : c.utf8Size = 1) (rest : List Char) :
    Passes source (behindByte largest source) rest (c :: rest) 0 := by
  intro front h
  have hnext : (Location.start.advance front).offset + 1 = utf8Len (front ++ [c]) := by
    rw [offset_advance_start, String.utf8Len_append, String.utf8Len_cons, hc]
    rfl
  have hadd : add largest (Location.start.advance front).offset 1 =
      .ok (utf8Len (front ++ [c])) := by
    rw [← hnext]
    refine add_eq ?_
    have hsize : source.utf8ByteSize = utf8Len (front ++ [c]) + utf8Len rest := by
      rw [← String.utf8Len_toList, h, ← List.singleton_append, ← List.append_assoc,
        String.utf8Len_append]
    unfold Fits at hfits
    omega
  have htext : textFrom source (utf8Len (front ++ [c])) = .ok (String.ofList rest) :=
    textFrom_eq (by rw [h, List.append_assoc, List.singleton_append])
  rw [List.take_zero, List.append_nil, behindByte, get_bind, bind_of_ok (lift_of_ok hadd _),
    bind_of_ok (lift_of_ok htext _), String.toList_ofList]
  rfl

theorem isDigit_of_sign (h : c = '+' ∨ c = '-') : c.isDigit = false := by
  obtain rfl | rfl := h <;> rfl

theorem exponentLength_eq (he : (c = 'e' || c = 'E') = true) (cs : List Char) :
    exponentLength (c :: cs) = if signedDigit cs then digitsLength cs.tail + 2 else 0 := by
  change (if c = 'e' || c = 'E' then _ else 0) = _
  rw [if_pos he]
  match cs with
  | [] => rfl
  | [s] =>
    dsimp only [signedDigit]
    by_cases hs : s = '+' ∨ s = '-'
    · simp [hs, isDigit_of_sign hs]
    · simp [hs, digitsLength]
  | s :: d :: rest =>
    dsimp only [signedDigit]
    by_cases hs : s = '+' ∨ s = '-'
    · by_cases hd : d.isDigit
      · simp [hs, isDigit_of_sign hs, hd, digitsLength_cons_of_isDigit hd]
      · simp [hs, isDigit_of_sign hs, hd]
    · simp [hs]

theorem passes_exponent (hfits : Fits largest source) (cs : List Char)
    (hcs : cs.length < enough source) :
    Passes source (exponent largest source) () cs (exponentLength cs) := by
  refine (passes_peek cs).look ?_
  cases cs with
  | nil => exact .pure () []
  | cons e rest =>
    rw [List.head?_cons, Option.any_some]
    by_cases he : (e = 'e' || e = 'E') = true
    · have hsize : e.utf8Size = 1 := by
        obtain rfl | rfl : e = 'e' ∨ e = 'E' := by simpa using he
        all_goals rfl
      rw [if_pos he, exponentLength_eq he]
      refine (passes_behindByte hfits hsize rest).look ?_
      split_ifs with hsigned
      · refine (passes_advance hfits e rest).discard.next ((passes_peek rest).look ?_)
        cases rest with
        | nil => contradiction
        | cons s rest =>
          rw [List.head?_cons, Option.any_some, List.tail_cons]
          split_ifs with hs
          · exact (passes_advance hfits s rest).discard.next
              (passes_digits hfits rest (Nat.lt_of_succ_lt (Nat.lt_of_succ_lt hcs)))
          · have hdigit : s.isDigit = true := by
              rw [signedDigit, if_neg (by simpa using hs)] at hsigned
              exact hsigned
            rw [← digitsLength_cons_of_isDigit hdigit]
            exact passes_digits hfits _ (Nat.lt_of_succ_lt hcs)
      · exact .pure () _
    · have hnone : exponentLength (e :: rest) = 0 := if_neg he
      rw [if_neg he, hnone]
      exact .pure () _

theorem passes_number (hfits : Fits largest source) (hc : c.isDigit = true) (cs : List Char)
    (hcs : (c :: cs).length < enough source) :
    Passes source (number largest source) () (c :: cs) (numberLength cs + 1) := by
  have hdrop {ds : List Char} (hds : ds.length < enough source) (n : Nat) :
      (ds.drop n).length < enough source :=
    lt_of_le_of_lt (by rw [List.length_drop]; exact Nat.sub_le _ _) hds
  have hrest : (cs.drop (digitsLength cs)).length < enough source := hdrop (Nat.lt_of_succ_lt hcs) _
  have hlength : numberLength cs + 1 = digitsLength (c :: cs) +
      (fractionLength (cs.drop (digitsLength cs)) +
        exponentLength (cs.drop (digitsLength cs + fractionLength (cs.drop (digitsLength cs))))) := by
    rw [numberLength, digitsLength_cons_of_isDigit hc]
    omega
  rw [hlength, ← List.drop_drop]
  refine (passes_digits hfits _ hcs).bind ?_
  rw [digitsLength_cons_of_isDigit hc, List.drop_succ_cons]
  exact (passes_fraction hfits _ hrest).bind (passes_exponent hfits _ (hdrop hrest _))

section Lexemes

variable {n : Nat} {kind : TokenKind} {text : String} {first : Location}

theorem passed_eq {run : List Char} (h : source.toList = front ++ (run ++ rest)) :
    passed source (Location.start.advance front) (Location.start.advance (front ++ run)) =
      .ok (String.ofList run) (Location.start.advance (front ++ run)) := by
  have hslice := textSlice_eq (h.trans (List.append_assoc _ _ _).symm)
  rw [passed, get_bind]
  refine lift_of_ok ?_ _
  rw [offset_advance_start, offset_advance_start, String.utf8Len_append, hslice]

theorem token_eq (front run : List Char) (kind : TokenKind) (text : String) :
    token (Location.start.advance front) kind text (Location.start.advance (front ++ run)) =
      .ok (some ⟨kind, text, (Location.start.advance front).spanTo
        (Location.start.advance (front ++ run))⟩) (Location.start.advance (front ++ run)) := by
  have hle : (Location.start.advance front).offset ≤
      (Location.start.advance (front ++ run)).offset := by
    rw [offset_advance_start, offset_advance_start, String.utf8Len_append]
    exact Nat.le_add_right _ _
  rw [token, get_bind, bind_of_ok (lift_of_ok (sub_eq hle) _)]
  rfl

/-- Where `c` and `cs` are ahead, the scan passes the lexeme that starts with `c`, and gives the
token that it makes. -/
def Finds (source : String) (c : Char) (cs : List Char) (g : Scan (Option Token)) : Prop :=
  ∀ front, source.toList = front ++ c :: cs → g (Location.start.advance front) =
    .ok (lexemeToken? (Location.start.advance front) c cs)
      (Location.start.advance (front ++ c :: cs.take (head c cs).2))

theorem finds_gap {scan : Scan Unit} (hhead : head c cs = (.gap, n))
    (hscan : Passes source scan () (c :: cs) (n + 1)) : Finds source c cs (gap scan) := by
  intro front h
  rw [gap, bind_of_ok (hscan front h), lexemeToken?, hhead]
  rfl

theorem finds_plainToken {scan : Scan Unit} {kind : String → TokenKind} {lexeme : Lexeme}
    (hhead : head c cs = (lexeme, n))
    (htoken : ∀ run, lexeme.token? c run =
      some (kind (String.ofList (c :: run)), String.ofList (c :: run)))
    (hscan : Passes source scan () (c :: cs) (n + 1)) :
    Finds source c cs (plainToken source scan kind) := by
  intro front h
  have hsource : source.toList = front ++ ((c :: cs).take (n + 1) ++ (c :: cs).drop (n + 1)) := by
    rw [h, List.take_append_drop]
  rw [plainToken, get_bind, bind_of_ok (hscan front h), bind_of_ok (passed_eq hsource), token_eq,
    lexemeToken?, hhead, List.take_succ_cons, htoken, ← Location.advance_append]
  rfl

/-- What a quoted run stands for does not depend on what is behind it. -/
theorem unquote_take (quote : Char) (value : String) (cs : List Char) :
    unquote.go quote value (cs.take (quotedLength quote cs)) = unquote.go quote value cs := by
  fun_induction unquote.go quote value cs with
  | case1 value => rfl
  | case2 value c hends => exact if_pos hends
  | case3 value c hends => exact if_neg hends
  | case4 value d rest ih =>
    rw [quotedLength_cons_cons, if_pos rfl, List.take_succ_cons, List.take_succ_cons, unquote.go,
      if_pos rfl, ih]
  | case5 value rest hescape ih =>
    rw [quotedLength_cons_cons, if_neg hescape, if_pos rfl, if_pos rfl, List.take_succ_cons,
      List.take_succ_cons, unquote.go, if_neg hescape, if_pos rfl, if_pos rfl, ih]
  | case6 value d rest hclose hescape =>
    rw [quotedLength_cons_cons, if_neg hescape, if_pos rfl, if_neg hclose]
    exact if_pos (by simp)
  | case7 value c d rest hescape hquote ih =>
    obtain ⟨n, hn⟩ := Nat.exists_eq_add_one_of_ne_zero (@quotedLength_pos quote d rest).ne'
    rw [quotedLength_cons_cons, if_neg hescape, if_neg hquote, List.take_succ_cons]
    rw [hn, List.take_succ_cons] at ih ⊢
    rw [unquote.go, if_neg hescape, if_neg hquote, ih]

theorem finds_quotedToken (hfits : Fits largest source)
    (hhead : head c cs = (.quoted kind c, quotedLength c cs))
    (hcs : (c :: cs).length < enough source) :
    Finds source c cs (quotedToken largest source kind c) := by
  intro front h
  have hrest : source.toList = front ++ (c :: cs).take 1 ++ cs := by
    rw [h, List.append_assoc]
    rfl
  have hopen := (passes_advance hfits c cs).discard front h
  have hrun := passes_quotedRun hfits c "" cs (Nat.lt_of_succ_lt hcs) _ hrest
  rw [quotedToken, get_bind, bind_of_ok hopen, enough, bind_of_ok hrun, List.append_assoc, token_eq,
    lexemeToken?, hhead, ← Location.advance_append, Lexeme.token?, unquote, unquote_take]
  rfl

theorem commentLength?_eq_none (hline : ¬(c = '#' ∨ c = '-' ∧ cs.head? = some '-'))
    (hblock : ¬(c = '/' ∧ cs.head? = some '*')) : commentLength? c cs = none := by
  unfold commentLength?
  split
  · exact absurd (.inl rfl) hline
  · exact absurd (.inr ⟨rfl, rfl⟩) hline
  · exact absurd ⟨rfl, rfl⟩ hblock
  · rfl

theorem finds_lexemeGiven (hfits : Fits largest source) (hcs : (c :: cs).length < enough source) :
    Finds source c cs (lexemeGiven largest source c cs.head?) := by
  have hone := (passes_advance hfits c cs).discard
  unfold lexemeGiven
  split_ifs with hblank hline hblock hsingle hquote hdigit hword
  · exact finds_gap (head_of_blank hblank) hone
  · have hcomment : commentLength? c cs = some (lineLength cs) ∧ (c != '\n') = true := by
      obtain rfl | ⟨rfl, hsecond⟩ := hline
      · exact ⟨rfl, rfl⟩
      · obtain ⟨rest, rfl⟩ := List.head?_eq_some_iff.1 hsecond
        exact ⟨rfl, rfl⟩
    refine finds_gap (head_of_comment hcomment.1) ?_
    have hscan := passes_advanceWhile hfits (· != '\n') (c :: cs) hcs
    rwa [List.takeWhile_cons_of_pos (p := (· != '\n')) hcomment.2] at hscan
  · obtain ⟨rfl, hsecond⟩ := hblock
    obtain ⟨rest, rfl⟩ := List.head?_eq_some_iff.1 hsecond
    refine finds_gap (head_of_comment rfl) (hone.next ?_)
    exact (passes_advance hfits '*' rest).discard.next
      (passes_blockRun hfits rest (Nat.lt_of_succ_lt (Nat.lt_of_succ_lt hcs)))
  all_goals have hnone : commentLength? c cs = none := commentLength?_eq_none hline hblock
  · subst hsingle
    exact finds_quotedToken hfits (head_of_quote rfl) hcs
  · have hkind : isQuote c = true ∧ quoteKind c = .quotedIdentifier := by
      obtain rfl | rfl := hquote <;> exact ⟨rfl, rfl⟩
    refine finds_quotedToken hfits ?_ hcs
    rw [head_of_quote hkind.1, hkind.2, Statement.runLength_of_quote hkind.1]
  all_goals
    have hplain : isQuote c = false := by
      rw [← Bool.not_eq_true, isQuote_iff]
      tauto
    have hhead := head_of_plain hplain hnone
    rw [if_neg hblank] at hhead
  · rw [if_pos hdigit] at hhead
    exact finds_plainToken hhead (fun _ => rfl) (passes_number hfits hdigit cs hcs)
  · rw [if_neg hdigit, if_pos hword] at hhead
    have hscan := passes_advanceWhile hfits isWordPart (c :: cs) hcs
    rw [List.takeWhile_cons_of_pos (isWordPart_of_isWordStart hword)] at hscan
    exact finds_plainToken hhead (fun _ => rfl) hscan
  · rw [if_neg hdigit, if_neg hword] at hhead
    cases hsymbol : symbol? c with
    | some kind =>
      rw [hsymbol] at hhead
      exact finds_plainToken hhead (fun _ => rfl) hone
    | none =>
      rw [hsymbol] at hhead
      exact finds_gap hhead hone

theorem finds_lexeme (hfits : Fits largest source) (hcs : (c :: cs).length < enough source) :
    Finds source c cs (lexeme largest source c) := by
  intro front h
  have hsecond := (passes_peekSecond (c :: cs)).stays h
  rw [List.getElem?_cons_succ, ← List.head?_eq_getElem?] at hsecond
  rw [lexeme, bind_of_ok hsecond]
  exact finds_lexemeGiven hfits hcs front h

end Lexemes

theorem tokens_eq (hfits : Fits largest source) (done : List Token) {fuel : Nat} :
    (cs : List Char) → cs.length < fuel + 1 → cs.length < enough source → (front : List Char) →
    source.toList = front ++ cs →
    tokens largest source (fuel + 1) done (Location.start.advance front) =
      .ok (lexFrom (Location.start.advance front) done cs) (Location.start.advance source.toList)
  | [], _, _, front, h => by
    rw [tokens, bind_of_ok ((passes_peek []).stays h), lexFrom, h, List.append_nil]
    rfl
  | c :: cs, hfuel, hcs, front, h => by
    obtain ⟨fuel, rfl, hrest⟩ := exists_fuel hfuel
    have hlength : (cs.drop (head c cs).2).length ≤ cs.length := by
      rw [List.length_drop]
      exact Nat.sub_le _ _
    have hsource : source.toList =
        (front ++ c :: cs.take (head c cs).2) ++ cs.drop (head c cs).2 := by
      rw [h, List.append_assoc, List.cons_append, List.take_append_drop]
    rw [tokens, bind_of_ok ((passes_peek (c :: cs)).stays h)]
    dsimp only [List.head?_cons]
    rw [bind_of_ok (finds_lexeme hfits hcs front h),
      tokens_eq hfits _ (cs.drop _) (hlength.trans_lt hrest)
        (hlength.trans_lt (Nat.lt_of_succ_lt hcs)) _ hsource, lexFrom_cons, lexemeToken?,
      Location.advance_append]
  termination_by cs => cs.length
  decreasing_by simp only [List.length_drop, List.length_cons]; omega

/-- The tokens of a text are found without a slice or a count that fails. -/
theorem tokenize_eq (hfits : Fits largest source) :
    tokenize largest source = .ok (TypedTables.tokenize source) := by
  have hlength : source.toList.length < enough source := by
    refine Nat.lt_succ_of_le ?_
    rw [← String.utf8Len_toList]
    exact length_le_utf8Len _
  have htokens : tokens largest source (enough source) [] .start =
      .ok (TypedTables.tokenize source) (Location.start.advance source.toList) :=
    tokens_eq hfits [] source.toList hlength hlength [] rfl
  rw [tokenize, htokens]

end Scans

end TypedTables.Checked
