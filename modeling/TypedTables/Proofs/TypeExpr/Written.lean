import TypedTables.Proofs.Grammar.Type
import TypedTables.Proofs.Token.Content

/-!
Types written out. What a type displays as is read as the tokens that its tree is made of, if its
names are words, its numbers are numbers, and it is followed by a comma or a parenthesis.
-/

namespace TypedTables

open Lexeme

/-- What stands behind an item of a list: a comma or the closing parenthesis. -/
def EndsItem (cs : List Char) : Prop := ∃ s rest, cs = s :: rest ∧ s ∈ [',', ')']

/-- What a piece of text is read as where an item of a list may end behind it. -/
def Written (cs : List Char) (content : List (TokenKind × String)) : Prop :=
  ∀ rest, EndsItem rest → contents (cs ++ rest) = content ++ contents rest

section Lists

/-- What stands behind the first item of a list. -/
def listTail (rest : List Char) : List (List Char) → List Char
  | [] => ')' :: rest
  | item :: items => ',' :: ' ' :: (item ++ listTail rest items)

/-- The contents of what stands behind the first item of a list. -/
def tailContents : List (List (TokenKind × String)) → List (TokenKind × String)
  | [] => [(.closeParen, ")")]
  | item :: items => (.comma, ",") :: (item ++ tailContents items)

theorem toList_intercalate (item : String) (items : List String) (rest : List Char) :
    (", ".intercalate (item :: items)).toList ++ ')' :: rest =
      item.toList ++ listTail rest (items.map String.toList) := by
  induction items generalizing item with
  | nil => rw [String.intercalate_singleton]; rfl
  | cons next items ih =>
    rw [String.intercalate_cons_cons, String.toList_append, String.toList_append, List.append_assoc,
      ih, List.append_assoc]
    rfl

theorem endsItem_listTail (rest : List Char) (items : List (List Char)) :
    EndsItem (listTail rest items) := by
  cases items with
  | nil => exact ⟨')', rest, rfl, by simp⟩
  | cons item items => exact ⟨',', _, rfl, by simp⟩

theorem contents_listTail (rest : List Char) {items : List (List Char)}
    {parts : List (List (TokenKind × String))} (h : List.Forall₂ Written items parts) :
    contents (listTail rest items) = tailContents parts ++ contents rest := by
  induction h with
  | nil => exact contents_symbol (by decide) rfl rest
  | cons hitem h ih =>
    have hblank : Text.isBlank ' ' = true := Text.isBlank_iff.2 (by decide)
    rw [listTail, contents_symbol (by decide) rfl, contents_blank hblank,
      hitem _ (endsItem_listTail rest _), ih, tailContents, List.cons_append, List.append_assoc]

end Lists

section Items

theorem EndsItem.head {cs : List Char} (h : EndsItem cs) {p : Char → Bool}
    (hp : [',', ')'].all p = true) : ∀ d ∈ cs.head?, p d = true := by
  obtain ⟨s, rest, rfl, hs⟩ := h
  rintro _ ⟨⟩
  exact List.all_eq_true.1 hp s hs

theorem written_word {w : String} (h : isWord w = true) (hkind : wordKind w = .identifier) :
    Written w.toList [(.identifier, w)] := by
  intro rest hrest
  have hpart := hrest.head (p := fun d => !isWordPart d) (by decide)
  rw [contents_word h fun d hd => by simpa using hpart d hd, hkind]
  rfl

/-- Whether a text is a number, perhaps with a minus before it. -/
def isSigned (text : String) : Bool :=
  match text.toList with
  | '-' :: cs => isNumber (String.ofList cs)
  | _ => isNumber text

/-- The contents of a number, perhaps with a minus before it. -/
def signedContents (text : String) : List (TokenKind × String) :=
  match text.toList with
  | '-' :: cs => [(.operator, "-"), (.number, String.ofList cs)]
  | _ => [(.number, text)]

theorem toList_minus (text : String) : ("-" ++ text).toList = '-' :: text.toList := by
  rw [String.toList_append]
  rfl

theorem signedContents_minus (text : String) :
    signedContents ("-" ++ text) = [(.operator, "-"), (.number, text)] := by
  rw [signedContents, toList_minus]
  simp

theorem isSigned_minus {text : String} (h : isNumber text = true) :
    isSigned ("-" ++ text) = true := by
  rw [isSigned, toList_minus]
  simpa using h

/-- No number begins with a minus. -/
theorem not_minus_of_isNumber {text : String} (h : isNumber text = true) (cs : List Char) :
    text.toList ≠ '-' :: cs := by
  intro heq
  obtain ⟨c, run, hcs, hc, -⟩ := exists_of_isNumber h
  rw [heq] at hcs
  cases hcs
  contradiction

theorem isSigned_of_isNumber {text : String} (h : isNumber text = true) : isSigned text = true := by
  unfold isSigned
  split
  · next cs heq => exact absurd heq (not_minus_of_isNumber h cs)
  · exact h

theorem signedContents_of_isNumber {text : String} (h : isNumber text = true) :
    signedContents text = [(.number, text)] := by
  unfold signedContents
  split
  · next cs heq => exact absurd heq (not_minus_of_isNumber h cs)
  · rfl

theorem signed_cases {text : String} (h : isSigned text = true) :
    isNumber text = true ∨ ∃ number, text = "-" ++ number ∧ isNumber number = true := by
  unfold isSigned at h
  split at h
  · next cs heq =>
    refine .inr ⟨String.ofList cs, ?_, h⟩
    apply String.toList_injective
    rw [heq, toList_minus, String.toList_ofList]
  · exact .inl h

theorem contents_signed {text : String} (h : isSigned text = true) {rest : List Char}
    (hrest : ∀ d ∈ rest.head?, endsNumber d = true) :
    contents (text.toList ++ rest) = signedContents text ++ contents rest := by
  obtain hn | ⟨number, rfl, hn⟩ := signed_cases h
  · rw [signedContents_of_isNumber hn, contents_number hn hrest]
    rfl
  · obtain ⟨c, run, hcs, hc, -⟩ := exists_of_isNumber hn
    have hnumber := contents_number hn hrest
    rw [signedContents_minus, toList_minus]
    rw [hcs, List.cons_append] at hnumber ⊢
    rw [List.cons_append, contents_minus hc, hnumber]
    rfl

theorem written_signed {text : String} (h : isSigned text = true) :
    Written text.toList (signedContents text) := fun _ hrest =>
  contents_signed h (hrest.head (by decide))

theorem written_quoted (value : String) : Written (quoted value).toList [(.string, value)] := by
  intro rest hrest
  have hquote := hrest.head (p := fun d => d != singleQuote) (by decide)
  exact contents_quoted value fun d hd => by simpa using hquote d hd

end Items

section Integers

theorem numberLength_of_digits {cs : List Char} (h : ∀ c ∈ cs, c.isDigit = true) :
    numberLength cs = cs.length := by
  have hdigits : digitsLength cs = cs.length := by
    rw [digitsLength, List.takeWhile_eq_self_iff.2 h]
  simp [numberLength, hdigits, fractionLength, exponentLength]

theorem isNumber_toString (n : Nat) : isNumber (toString n) = true := by
  have hdigits : ∀ c ∈ Nat.toDigits 10 n, c.isDigit = true := fun c hc =>
    Nat.isDigit_of_mem_toDigits (by decide) (Nat.le_refl 10) hc
  obtain ⟨c, cs, heq⟩ := List.exists_cons_of_ne_nil (Nat.toDigits_ne_nil (n := n) (b := 10))
  rw [heq] at hdigits
  obtain ⟨hc, hcs⟩ := List.forall_mem_cons.1 hdigits
  rw [isNumber, Nat.toString_eq_ofList_toDigits, String.toList_ofList, heq]
  simp [hc, numberLength_of_digits hcs]

/-- The text of an integer, and the contents that it is read as. -/
theorem isSigned_toString (value : Int) : isSigned (toString value) = true := by
  cases value with
  | ofNat n => exact isSigned_of_isNumber (isNumber_toString n)
  | negSucc n => exact isSigned_minus (isNumber_toString (n + 1))

theorem signedContents_toString (value : Int) : signedContents (toString value) =
    (if value < 0 then [(.operator, "-")] else []) ++ [(.number, toString value.natAbs)] := by
  cases value with
  | ofNat n => exact signedContents_of_isNumber (isNumber_toString n)
  | negSucc n =>
    rw [if_pos (Int.negSucc_lt_zero n)]
    exact signedContents_minus (toString (n + 1))

namespace Grammar

/-- The value of one more digit. -/
def decimalStep (value? : Option Nat) (c : Char) : Option Nat := do
  let value ← value?
  let next := 10 * value + (c.toNat - '0'.toNat)
  if c.isDigit && next ≤ maxEnumValue then some next else none

theorem decimal?_eq {digits : List Char} (h : digits ≠ []) :
    decimal? digits = digits.foldl decimalStep (some 0) := by
  rw [decimal?, if_neg (by simpa using h)]
  rfl

theorem le_ofDigitChars (digits : List Char) (value : Nat) :
    value ≤ Nat.ofDigitChars 10 digits value := by
  rw [Nat.ofDigitChars_eq_ofDigitChars_zero]
  exact (Nat.le_mul_of_pos_left value (Nat.pow_pos (by decide))).trans (Nat.le_add_right _ _)

theorem foldl_decimalStep {digits : List Char} (hd : ∀ c ∈ digits, c.isDigit = true) (value : Nat)
    (h : Nat.ofDigitChars 10 digits value ≤ maxEnumValue) :
    digits.foldl decimalStep (some value) = some (Nat.ofDigitChars 10 digits value) := by
  induction digits generalizing value with
  | nil => rfl
  | cons c digits ih =>
    obtain ⟨hc, hdigits⟩ := List.forall_mem_cons.1 hd
    rw [Nat.ofDigitChars_cons] at h ⊢
    have hnext := (le_ofDigitChars digits _).trans h
    have hstep : decimalStep (some value) c = some (10 * value + (c.toNat - '0'.toNat)) := by
      simp only [decimalStep, Option.bind_eq_bind, Option.bind_some, hc, hnext]
      rfl
    rw [List.foldl_cons, hstep, ih hdigits _ h]

theorem decimal?_toString {n : Nat} (h : n ≤ maxEnumValue) :
    decimal? (toString n).toList = some n := by
  have hdigits : ∀ c ∈ Nat.toDigits 10 n, c.isDigit = true := fun c hc =>
    Nat.isDigit_of_mem_toDigits (by decide) (Nat.le_refl 10) hc
  rw [Nat.toString_eq_ofList_toDigits, String.toList_ofList, decimal?_eq Nat.toDigits_ne_nil,
    foldl_decimalStep hdigits 0 (by rwa [Nat.ofDigitChars_ten_toDigits]),
    Nat.ofDigitChars_ten_toDigits]

theorem le_foldl_decimalStep (digits : List Char) {start : Option Nat}
    (hstart : ∀ value ∈ start, value ≤ maxEnumValue) :
    ∀ value ∈ digits.foldl decimalStep start, value ≤ maxEnumValue := by
  induction digits generalizing start with
  | nil => exact hstart
  | cons c digits ih =>
    refine ih fun value hvalue => ?_
    obtain ⟨before, -, hvalue⟩ := Option.bind_eq_some_iff.1 hvalue
    dsimp only at hvalue
    split_ifs at hvalue with hc
    cases hvalue
    exact of_decide_eq_true (Bool.and_elim_right hc)

theorem le_of_decimal? {digits : List Char} {n : Nat} (h : decimal? digits = some n) :
    n ≤ maxEnumValue := by
  unfold decimal? at h
  split_ifs at h
  exact le_foldl_decimalStep digits (by simp) n h

end Grammar

end Integers

section Types

/-- What an argument of a type may be so that it is read back. -/
def TypeArg.SpelledWith (inner : TypeExpr → Prop) : TypeArg → Prop
  | .type ty => inner ty
  | .number text => isSigned text = true
  | .string _ => True
  | .member _ value => value.natAbs ≤ Grammar.maxEnumValue

/-- An unquoted word that is no keyword and the canonical spelling of what it names. -/
structure IsTypeName (name : String) : Prop where
  word : isWord name = true
  kind : wordKind name = .identifier
  canonical : canonicalName name = name

instance (name : String) : Decidable (IsTypeName name) :=
  decidable_of_iff (isWord name = true ∧ wordKind name = .identifier ∧ canonicalName name = name)
    ⟨fun ⟨hword, hkind, hcanonical⟩ => ⟨hword, hkind, hcanonical⟩,
      fun h => ⟨h.word, h.kind, h.canonical⟩⟩

/-- What the node of a type may be so that it is read back. -/
structure TypeExpr.SpelledWith (inner : TypeExpr → Prop) (ty : TypeExpr) : Prop where
  name : IsTypeName ty.name
  budget : ty.args.length ≤ (Ceiling.steps .typeArguments).limit
  count : Grammar.Accepts ty.name ty.args.length
  args : ∀ arg ∈ ty.args, arg.SpelledWith inner

/-- A type that is read back where there is room for so many levels. -/
def TypeExpr.Spelled : (room : Nat) → TypeExpr → Prop
  | 0 => fun _ => False
  | room + 1 => TypeExpr.SpelledWith (TypeExpr.Spelled room)

section Decidable

variable {inner : TypeExpr → Prop} [DecidablePred inner]

instance : DecidablePred (TypeArg.SpelledWith inner)
  | .type ty => inferInstanceAs (Decidable (inner ty))
  | .number text => inferInstanceAs (Decidable (isSigned text = true))
  | .string _ => inferInstanceAs (Decidable True)
  | .member _ value => inferInstanceAs (Decidable (value.natAbs ≤ Grammar.maxEnumValue))

instance (name : String) (count : Nat) : Decidable (Grammar.Accepts name count) :=
  inferInstanceAs (Decidable (∀ ceiling ∈ Grammar.argumentCeiling? name, count ≤ ceiling.limit))

instance : DecidablePred (TypeExpr.SpelledWith inner) := fun ty =>
  decidable_of_iff (IsTypeName ty.name ∧ ty.args.length ≤ (Ceiling.steps .typeArguments).limit ∧
      Grammar.Accepts ty.name ty.args.length ∧ ∀ arg ∈ ty.args, arg.SpelledWith inner)
    ⟨fun ⟨hname, hbudget, hcount, hargs⟩ => ⟨hname, hbudget, hcount, hargs⟩,
      fun h => ⟨h.name, h.budget, h.count, h.args⟩⟩

instance decidableSpelled : (room : Nat) → DecidablePred (TypeExpr.Spelled room)
  | 0 => fun _ => inferInstanceAs (Decidable False)
  | room + 1 =>
    have := decidableSpelled room
    inferInstanceAs (DecidablePred (TypeExpr.SpelledWith (TypeExpr.Spelled room)))

end Decidable

theorem TypeExpr.spelled_plain {name : String} (h : IsTypeName name) (room : Nat) :
    (TypeExpr.plain name).Spelled (room + 1) :=
  ⟨h, Nat.zero_le _, fun _ _ => Nat.zero_le _, nofun⟩

mutual

/-- The contents that a type is read as where it is written out. -/
def TypeExpr.contents : TypeExpr → List (TokenKind × String)
  | .mk name [] => [(.identifier, name)]
  | .mk name (arg :: args) => (.identifier, name) :: (.openParen, "(") ::
      (arg.contents ++ tailContents (TypeArg.allContents args))

def TypeArg.contents : TypeArg → List (TokenKind × String)
  | .type ty => ty.contents
  | .number text => signedContents text
  | .string value => [(.string, value)]
  | .member key value => (.string, key) :: (.equals, "=") :: signedContents (toString value)

def TypeArg.allContents : List TypeArg → List (List (TokenKind × String))
  | [] => []
  | arg :: args => arg.contents :: TypeArg.allContents args

end

variable {inner : TypeExpr → Prop}

theorem written_arg {arg : TypeArg}
    (hinner : ∀ ty, inner ty → Written ty.display.toList ty.contents)
    (h : arg.SpelledWith inner) : Written arg.display.toList arg.contents := by
  cases arg with
  | type ty => exact hinner ty h
  | number text => exact written_signed h
  | string value => exact written_quoted value
  | member key value =>
    intro rest hrest
    have hblank : Text.isBlank ' ' = true := Text.isBlank_iff.2 (by decide)
    have htext : (TypeArg.member key value).display.toList ++ rest =
        (quoted key).toList ++ (' ' :: '=' :: ' ' :: ((toString value).toList ++ rest)) := by
      simp [TypeArg.display]
    rw [htext, contents_quoted key (by rintro _ ⟨⟩; decide), contents_blank hblank,
      contents_symbol (by decide) rfl, contents_blank hblank,
      written_signed (isSigned_toString value) rest hrest]
    rfl

theorem written_args {args : List TypeArg}
    (hinner : ∀ ty, inner ty → Written ty.display.toList ty.contents)
    (h : ∀ arg ∈ args, arg.SpelledWith inner) :
    List.Forall₂ Written ((TypeArg.displays args).map String.toList)
      (TypeArg.allContents args) := by
  induction args with
  | nil => exact .nil
  | cons arg args ih =>
    obtain ⟨harg, hargs⟩ := List.forall_mem_cons.1 h
    exact .cons (written_arg hinner harg) (ih hargs)

/-- A type that is read back is written out as what it is read from. -/
theorem written_type {room : Nat} {ty : TypeExpr} (h : ty.Spelled room) :
    Written ty.display.toList ty.contents := by
  induction room generalizing ty with
  | zero => exact h.elim
  | succ room ih =>
    obtain ⟨hname, -, -, hargs⟩ := h
    match ty with
    | .mk name [] => exact written_word hname.word hname.kind
    | .mk name (arg :: args) =>
      intro rest hrest
      have hname : IsTypeName name := hname
      obtain ⟨harg, hargs⟩ := List.forall_mem_cons.1 hargs
      have htext : (TypeExpr.mk name (arg :: args)).display.toList ++ rest =
          name.toList ++ '(' :: (arg.display.toList ++
            listTail rest ((TypeArg.displays args).map String.toList)) := by
        rw [← toList_intercalate arg.display (TypeArg.displays args) rest]
        simp [TypeExpr.display]
      have hparen : ∀ d ∈ ('(' :: (arg.display.toList ++
          listTail rest ((TypeArg.displays args).map String.toList))).head?, isWordPart d = false := by
        rintro _ ⟨⟩
        rfl
      rw [htext, contents_word hname.word hparen, hname.kind, contents_symbol (by decide) rfl,
        written_arg (fun _ => ih) harg _ (endsItem_listTail _ _),
        contents_listTail rest (written_args (fun _ => ih) hargs), TypeExpr.contents]
      simp

end Types

end TypedTables
