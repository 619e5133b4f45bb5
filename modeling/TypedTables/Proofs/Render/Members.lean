import TypedTables.Proofs.Render.Docs
import TypedTables.Proofs.Render.References
import TypedTables.Proofs.Text.Blank

/-!
Reading the members of an interface. A reader of TypeScript text that leaves out comments and ends a
member at each semicolon outside brackets and literals finds one member for each column.
-/

namespace TypedTables

/-- Where a reader of TypeScript text stands: in how many brackets, and whether in a comment, behind
a slash that may begin one, or in a literal. -/
inductive Spot
  | code (depth : Nat)
  | slash (depth : Nat)
  | comment (depth : Nat)
  /-- Behind an asterisk in a comment. -/
  | star (depth : Nat)
  | literal (quote : Char) (depth : Nat)
  /-- Behind a backslash in a literal. -/
  | escape (quote : Char) (depth : Nat)
  deriving DecidableEq

structure MemberReader where
  spot : Spot
  /-- What has been read of a member, last character first. -/
  member : List Char
  /-- The members that have ended, last one first. -/
  members : List (List Char)

namespace MemberReader

open CodeToken (opensLiteral)
open Text (isBlank)

def opening : List Char := ['(', '[', '\x7b', '<']

def closing : List Char := [')', ']', '\x7d', '>']

def keep (r : MemberReader) (spot : Spot) (c : Char) : MemberReader :=
  { r with spot, member := c :: r.member }

/-- Blanks before a member are left out, and so are comments. -/
def step (r : MemberReader) (c : Char) : MemberReader :=
  match r.spot with
  | .code depth =>
    if opensLiteral c then r.keep (.literal c depth) c
    else if c = '/' then { r with spot := .slash depth }
    else if c ∈ opening then r.keep (.code (depth + 1)) c
    else if c ∈ closing then r.keep (.code (depth - 1)) c
    else if c = ';' ∧ depth = 0 then ⟨.code 0, [], r.member.reverse :: r.members⟩
    else if r.member = [] ∧ isBlank c then r
    else r.keep (.code depth) c
  | .slash depth =>
    if c = '*' then { r with spot := .comment depth }
    else { r with spot := .code depth, member := c :: '/' :: r.member }
  | .comment depth => { r with spot := if c = '*' then .star depth else .comment depth }
  | .star depth =>
    { r with
      spot := if c = '/' then .code depth else if c = '*' then .star depth else .comment depth }
  | .literal quote depth =>
    r.keep (if c = '\\' then .escape quote depth else if c = quote then .code depth
      else .literal quote depth) c
  | .escape quote depth => r.keep (.literal quote depth) c

def read (r : MemberReader) (cs : List Char) : MemberReader := cs.foldl step r

end MemberReader

/-- The members of a text, if the last of them has ended. -/
def members? (text : String) : Option (List String) :=
  let r := MemberReader.read ⟨.code 0, [], []⟩ text.toList
  if r.spot = .code 0 ∧ r.member = [] then some (r.members.reverse.map String.ofList) else none

example : members? "/* a; */ b: \x7b _0: 'c;'; _1: number \x7d; d: string;" =
    some ["b: \x7b _0: 'c;'; _1: number \x7d", "d: string"] := by decide +kernel

namespace MemberReader

open CodeToken (opensLiteral)
open Text (isBlank)

variable {cs ds : List Char} {member : List Char} {members : List (List Char)} {depth : Nat}

theorem read_append (r : MemberReader) (cs ds : List Char) :
    r.read (cs ++ ds) = (r.read cs).read ds := List.foldl_append

theorem read_cons (r : MemberReader) (c : Char) (cs : List Char) :
    r.read (c :: cs) = (r.step c).read cs := rfl

section Whole

/-- Text that adds itself to any member, also as its beginning. -/
def Solid (cs : List Char) : Prop := ∀ depth member members,
  read ⟨.code depth, member, members⟩ cs = ⟨.code depth, cs.reverse ++ member, members⟩

/-- Text that adds itself to a member, in at least so many brackets. -/
def Whole (least : Nat) (cs : List Char) : Prop := ∀ depth ≥ least, ∀ member members, member ≠ [] →
  read ⟨.code depth, member, members⟩ cs = ⟨.code depth, cs.reverse ++ member, members⟩

/-- Characters that the reader goes by. -/
def special : List Char := ['\x27', '\x22', '\x60', '/', ';'] ++ opening ++ closing

def isPlain (c : Char) : Bool := !special.contains c

theorem Solid.whole (h : Solid cs) (least : Nat) : Whole least cs :=
  fun depth _ member members _ => h depth member members

theorem Whole.append {least : Nat} (h : Whole least cs) (h' : Whole least ds) :
    Whole least (cs ++ ds) := fun depth hdepth member members hmember => by
  rw [read_append, h depth hdepth _ _ hmember, h' depth hdepth, List.reverse_append,
    List.append_assoc]
  simp [hmember]

theorem Whole.mono {least least' : Nat} (h : Whole least cs) (hle : least ≤ least') :
    Whole least' cs := fun depth hdepth => h depth (hle.trans hdepth)

theorem Whole.nil (least : Nat) : Whole least [] := fun _ _ _ _ _ => rfl

theorem step_plain {c : Char} (hc : isPlain c = true) :
    step ⟨.code depth, member, members⟩ c =
      if member = [] ∧ isBlank c = true then ⟨.code depth, member, members⟩
      else ⟨.code depth, c :: member, members⟩ := by
  have hspecial : c ∉ special := by simpa [isPlain] using hc
  simp only [special, List.mem_append, List.mem_cons, List.not_mem_nil, or_false, not_or]
    at hspecial
  obtain ⟨⟨⟨h₁, h₂, h₃, hslash, hsemicolon⟩, hopening⟩, hclosing⟩ := hspecial
  simp [step, keep, opensLiteral, h₁, h₂, h₃, hslash, hsemicolon, hopening, hclosing]

theorem solid_of_plain (h : ∀ c ∈ cs, isPlain c = true ∧ isBlank c = false) : Solid cs := by
  induction cs with
  | nil => exact fun _ _ _ => rfl
  | cons c cs ih =>
    obtain ⟨hc, hcs⟩ := List.forall_mem_cons.1 h
    intro depth member members
    have hblank : ¬(member = [] ∧ isBlank c = true) := fun h =>
      Bool.false_ne_true (hc.2.symm.trans h.2)
    rw [read_cons, step_plain hc.1, if_neg hblank, ih hcs, List.reverse_cons, List.append_assoc]
    rfl

theorem whole_of_plain (least : Nat) (h : ∀ c ∈ cs, isPlain c = true) : Whole least cs := by
  induction cs with
  | nil => exact .nil least
  | cons c cs ih =>
    obtain ⟨hc, hcs⟩ := List.forall_mem_cons.1 h
    intro depth hdepth member members hmember
    rw [read_cons, step_plain hc, if_neg fun h => hmember h.1,
      ih hcs depth hdepth _ _ (List.cons_ne_nil _ _), List.reverse_cons, List.append_assoc]
    rfl

theorem whole_semicolon : Whole 1 [';'] := fun depth hdepth member members hmember => by
  have hne : depth ≠ 0 := Nat.one_le_iff_ne_zero.1 hdepth
  simp [read, step, keep, opensLiteral, opening, closing, hmember, hne]

theorem step_opening {c : Char} (hc : c ∈ opening) :
    step ⟨.code depth, member, members⟩ c = ⟨.code (depth + 1), c :: member, members⟩ := by
  have hall : opening.all (fun c => !opensLiteral c && c != '/') = true := by decide
  have hother := List.all_eq_true.1 hall c hc
  simp only [Bool.and_eq_true, Bool.not_eq_true', bne_iff_ne] at hother
  simp [step, keep, hother, hc]

theorem step_closing {c : Char} (hc : c ∈ closing) :
    step ⟨.code depth, member, members⟩ c = ⟨.code (depth - 1), c :: member, members⟩ := by
  have hall : closing.all (fun c => !opensLiteral c && c != '/' && c ∉ opening) = true := by decide
  have hother := List.all_eq_true.1 hall c hc
  simp only [Bool.and_eq_true, Bool.not_eq_true', bne_iff_ne, decide_eq_true_eq] at hother
  simp [step, keep, hother, hc]

/-- Between brackets text may hold what would end a member outside. -/
theorem Whole.bracket (h : Whole 1 cs) {c d : Char} (hc : c ∈ opening) (hd : d ∈ closing) :
    Whole 0 (c :: cs ++ [d]) := fun depth _ member members _ => by
  rw [List.cons_append, read_cons, step_opening hc, read_append,
    h (depth + 1) (Nat.le_add_left 1 depth) _ _ (List.cons_ne_nil c member), read_cons,
    step_closing hd, Nat.add_sub_cancel]
  simp [read]

theorem Whole.intercalate {least : Nat} {separator : List Char} (hseparator : Whole least separator)
    {xs : List (List Char)} (h : ∀ x ∈ xs, Whole least x) :
    Whole least (separator.intercalate xs) := by
  induction xs with
  | nil => exact .nil least
  | cons x xs ih =>
    obtain ⟨hx, hxs⟩ := List.forall_mem_cons.1 h
    cases xs with
    | nil => rwa [List.intercalate_singleton]
    | cons y ys =>
      rw [List.intercalate_cons_cons]
      exact (hx.append hseparator).append (ih hxs)

theorem read_escape (c : Char) : read ⟨.literal '\x27' depth, member, members⟩ (quoted.escape c) =
    ⟨.literal '\x27' depth, (quoted.escape c).reverse ++ member, members⟩ := by
  unfold quoted.escape
  split
  · rfl
  · rfl
  · next hslash hquote => simp [read, step, keep, if_neg hslash, if_neg hquote]

theorem solid_quoted (value : String) : Solid (quoted value).toList := by
  intro depth member members
  have hvalue (cs member : List Char) :
      read ⟨.literal '\x27' depth, member, members⟩ (cs.flatMap quoted.escape) =
        ⟨.literal '\x27' depth, (cs.flatMap quoted.escape).reverse ++ member, members⟩ := by
    induction cs generalizing member with
    | nil => rfl
    | cons c cs ih =>
      rw [List.flatMap_cons, read_append, read_escape, ih, List.reverse_append, List.append_assoc]
  rw [quoted, String.toList_ofList, List.cons_append, read_cons, read_append]
  change read (read ⟨.literal '\x27' depth, _, _⟩ _) _ = _
  rw [hvalue]
  simp [read, step, keep]

/-- Bare keys hold nothing that the reader goes by, and no blanks. -/
theorem plain_of_isKeyPart {c : Char} (h : isKeyPart c = true) :
    isPlain c = true ∧ isBlank c = false := by
  have hother : c ∉ special ++ Text.blanks := fun hmem => by
    have hall : (special ++ Text.blanks).all (fun d => !isKeyPart d) = true := by decide +kernel
    simpa [h] using List.all_eq_true.1 hall c hmem
  rw [List.mem_append, not_or] at hother
  exact ⟨by simpa [isPlain] using hother.1, Text.isBlank_eq_false_iff.2 hother.2⟩

theorem isKeyPart_of_isKeyStart {c : Char} (h : isKeyStart c = true) : isKeyPart c = true := by
  simp only [isKeyStart, isKeyPart, Char.isAlphanum, Bool.or_eq_true] at h ⊢
  tauto

theorem solid_propertyKey (name : String) : Solid (propertyKey name).toList := by
  unfold propertyKey
  split
  · next c rest hname =>
    split_ifs with hkey
    · rw [Bool.and_eq_true, List.all_eq_true] at hkey
      rw [hname]
      refine solid_of_plain (List.forall_mem_cons.2 ⟨?_, fun d hd => ?_⟩)
      · exact plain_of_isKeyPart (isKeyPart_of_isKeyStart hkey.1)
      · exact plain_of_isKeyPart (hkey.2 d hd)
    · exact solid_quoted name
  · exact solid_quoted name

theorem propertyKey_ne_empty (name : String) : (propertyKey name).toList ≠ [] := by
  unfold propertyKey
  split
  · next c rest hname =>
    split_ifs
    · rw [hname]
      exact List.cons_ne_nil c rest
    · rw [quoted, String.toList_ofList]
      exact List.cons_ne_nil _ _
  · rw [quoted, String.toList_ofList]
    exact List.cons_ne_nil _ _

end Whole

section Types

variable (options : MappingOptions)

theorem whole_text {text : String} (least : Nat) (h : text.toList.all isPlain = true) :
    Whole least text.toList := whole_of_plain least (List.all_eq_true.1 h)

theorem whole_nullable {inner : TsType} (h : Whole 0 inner.text.toList) :
    Whole 0 (TsType.nullable inner).text.toList := by
  rw [TsType.nullable, String.toList_append]
  exact h.append (whole_text 0 (by decide))

theorem whole_array {item : TsType} (h : Whole 0 item.text.toList) :
    Whole 0 (TsType.array item).text.toList := by
  have hbrackets : Whole 0 "[]".toList := (Whole.nil 1).bracket (by decide) (by decide)
  unfold TsType.array
  split_ifs
  · have hparens : Whole 0 ('(' :: item.text.toList ++ [')']) :=
      (h.mono (Nat.zero_le 1)).bracket (by decide) (by decide)
    rw [TsType.single, String.toList_append, String.toList_append]
    simpa using hparens.append hbrackets
  · rw [TsType.single, String.toList_append]
    exact h.append hbrackets

theorem whole_tuple {items : List TsType} (h : ∀ item ∈ items, Whole 0 item.text.toList) :
    Whole 0 (TsType.tuple items).text.toList := by
  cases items with
  | nil => exact (Whole.nil 1).bracket (by decide) (by decide)
  | cons item rest =>
    have hfield (entry : TsType × Nat) (hentry : entry ∈ (item :: rest).zipIdx) :
        Whole 1 (TsType.fieldName entry.2 ++ ": " ++ entry.1.text).toList := by
      have hname := (solid_propertyKey (TsType.fieldName entry.2)).whole 1
      rw [propertyKey_fieldName] at hname
      have htext := (h entry.1 (List.fst_mem_of_mem_zipIdx hentry)).mono (Nat.zero_le 1)
      rw [String.toList_append, String.toList_append]
      exact (hname.append (whole_text 1 (by decide))).append htext
    let fields := (item :: rest).zipIdx.map fun entry =>
      TsType.fieldName entry.2 ++ ": " ++ entry.1.text
    have hblank : Whole 1 " ".toList := whole_text 1 (by decide)
    have hfields : Whole 1 ("; ".toList.intercalate (fields.map String.toList)) := by
      refine Whole.intercalate (whole_semicolon.append hblank) fun text htext => ?_
      rw [List.map_map] at htext
      obtain ⟨entry, hentry, rfl⟩ := List.mem_map.1 htext
      exact hfield entry hentry
    have hall := ((hblank.append hfields).append hblank).bracket (c := '\x7b') (d := '\x7d')
      (by decide) (by decide)
    change Whole 0 ("\x7b " ++ "; ".intercalate fields ++ " \x7d").toList
    rw [String.toList_append, String.toList_append, String.toList_intercalate]
    simpa using hall

theorem whole_map {value : TsType} (h : Whole 0 value.text.toList) :
    Whole 0 (TsType.map value).text.toList := by
  have hvalue : Whole 1 ("string, ".toList ++ value.text.toList) :=
    (whole_text 1 (by decide)).append (h.mono (Nat.zero_le 1))
  have hrecord : Whole 0 "Record".toList := whole_text 0 (by decide)
  have hall := hrecord.append (hvalue.bracket (c := '<') (d := '>') (by decide) (by decide))
  rw [TsType.map, TsType.single, String.toList_append, String.toList_append]
  simpa using hall

theorem whole_enumeration (keys : List String) :
    Whole 0 (TsType.enumeration keys).text.toList := by
  rw [TsType.enumeration, String.toList_intercalate]
  refine Whole.intercalate (whole_text 0 (by decide)) fun text htext => ?_
  simp only [List.mem_map] at htext
  obtain ⟨_, ⟨key, -, rfl⟩, rfl⟩ := htext
  exact (solid_quoted key).whole 0

theorem keeps_whole :
    (TsType.plainFold options).Keeps fun mapped => Whole 0 mapped.text.toList where
  nullable _ h := whole_nullable h
  array _ h := whole_array h
  tuple _ h := whole_tuple h
  map _ h := whole_map h
  enumeration keys _ := whole_enumeration keys
  leaf kind := by
    have hall : ∀ text ∈ TsType.leafTexts, text.toList.all isPlain = true := by decide
    exact whole_text 0 (hall _ (TsType.leaf_mem options kind))
  unknown name mapped h := by
    simp only [TsType.plainFold, TsType.fold, TsType.unknown] at h
    split_ifs at h
    cases h
    exact whole_text 0 (by decide)

end Types

section Comments

/-- Text that is passed over in a comment, and that neither ends nor may begin to end it. -/
def Calm (cs : List Char) : Prop :=
  ∀ depth member members, ∀ spot ∈ [Spot.comment depth, .star depth],
    read ⟨spot, member, members⟩ cs = ⟨.comment depth, member, members⟩

theorem Calm.append (h : Calm cs) (h' : Calm ds) : Calm (cs ++ ds) :=
  fun depth member members spot hspot => by
    rw [read_append, h depth _ _ spot hspot, h' depth _ _ _ List.mem_cons_self]

theorem Calm.flatten (h : Calm cs) {xs : List (List Char)} (hxs : ∀ x ∈ xs, Calm x) :
    Calm (cs ++ xs.flatten) := by
  induction xs generalizing cs with
  | nil => simpa using h
  | cons x xs ih =>
    obtain ⟨hx, hxs⟩ := List.forall_mem_cons.1 hxs
    rw [List.flatten_cons, ← List.append_assoc]
    exact ih (h.append hx) hxs

/-- Text that is passed over in a comment, if it does not end it together with what is before. -/
def Remark (cs : List Char) : Prop :=
  ∀ depth member members, ∃ spot ∈ [Spot.comment depth, .star depth],
    read ⟨.comment depth, member, members⟩ cs = ⟨spot, member, members⟩

theorem Calm.around (h : Calm cs) {text : List Char} (htext : Remark text) (h' : Calm ds) :
    Calm (cs ++ text ++ ds) := fun depth member members spot hspot => by
  obtain ⟨spot', hspot', hread⟩ := htext depth member members
  rw [read_append, read_append, h depth _ _ spot hspot, hread, h' depth _ _ spot' hspot']

/-- In a text without `*/` no `*` has a `/` behind it. -/
theorem exists_spot_of_closings {spot : Spot} (h : Text.closings cs = 0)
    (hspot : spot = .comment depth ∨ spot = .star depth ∧ cs.head? ≠ some '/') :
    ∃ spot' ∈ [Spot.comment depth, .star depth],
      read ⟨spot, member, members⟩ cs = ⟨spot', member, members⟩ := by
  induction cs generalizing spot with
  | nil =>
    refine ⟨spot, ?_, rfl⟩
    obtain rfl | ⟨rfl, -⟩ := hspot <;> simp
  | cons c cs ih =>
    rw [Text.closings_cons, Nat.add_eq_zero_iff] at h
    have hstep : step ⟨spot, member, members⟩ c =
        ⟨if c = '*' then .star depth else .comment depth, member, members⟩ := by
      obtain rfl | ⟨rfl, hhead⟩ := hspot
      · rfl
      · have hslash : c ≠ '/' := fun hc => hhead (by rw [hc]; rfl)
        simp [step, hslash]
    rw [read_cons, hstep]
    refine ih h.1 ?_
    split_ifs with hc
    · exact .inr ⟨rfl, fun hhead => by simp [hc, hhead] at h⟩
    · exact .inl rfl

theorem remark_docText (text : List Char) : Remark (Interface.docText text).toList :=
  fun _ _ _ => exists_spot_of_closings (Interface.closings_docText text) (.inl rfl)

theorem calm_of_read (h : ∀ depth member members,
    read ⟨.comment depth, member, members⟩ cs = ⟨.comment depth, member, members⟩ ∧
      read ⟨.star depth, member, members⟩ cs = ⟨.comment depth, member, members⟩) : Calm cs :=
  fun depth member members spot hspot => by
    obtain rfl | rfl : spot = .comment depth ∨ spot = .star depth := by simpa using hspot
    · exact (h depth member members).1
    · exact (h depth member members).2

theorem calm_docLine (line : List Char) : Calm (Interface.docLine "  " line).toList := by
  unfold Interface.docLine
  split
  · exact calm_of_read fun _ _ _ => ⟨rfl, rfl⟩
  · have hstart : Calm "   * ".toList := calm_of_read fun _ _ _ => ⟨rfl, rfl⟩
    have hend : Calm "\n".toList := calm_of_read fun _ _ _ => ⟨rfl, rfl⟩
    have hline := hstart.around (remark_docText line) hend
    rw [← String.toList_append, ← String.toList_append] at hline
    exact hline

/-- Blanks before a member are passed over. -/
theorem read_blanks (h : cs.all (fun c => isPlain c && isBlank c) = true) :
    read ⟨.code depth, [], members⟩ cs = ⟨.code depth, [], members⟩ := by
  induction cs with
  | nil => rfl
  | cons c cs ih =>
    rw [List.all_cons, Bool.and_eq_true, Bool.and_eq_true] at h
    rw [read_cons, step_plain h.1.1, if_pos ⟨rfl, h.1.2⟩, ih h.2]

theorem read_comment (h : Calm cs) (depth : Nat) (members : List (List Char)) :
    read ⟨.code depth, [], members⟩ ("  /*".toList ++ cs ++ "*/\n".toList) =
      ⟨.code depth, [], members⟩ := by
  have hindent : read ⟨.code depth, [], members⟩ [' ', ' '] = ⟨.code depth, [], members⟩ :=
    read_blanks (by decide +kernel)
  have hbreak : read ⟨.code depth, [], members⟩ ['\n'] = ⟨.code depth, [], members⟩ :=
    read_blanks (by decide +kernel)
  have hopen : read ⟨.code depth, [], members⟩ "  /*".toList = ⟨.comment depth, [], members⟩ := by
    change read (read ⟨.code depth, [], members⟩ [' ', ' ']) ['/', '*'] = _
    rw [hindent]
    rfl
  rw [read_append, read_append, hopen, h depth _ _ _ List.mem_cons_self]
  exact hbreak

/-- A doc comment leaves the reader where it is. -/
theorem read_doc (paragraphs : List String) (depth : Nat) (members : List (List Char)) :
    read ⟨.code depth, [], members⟩ (Interface.doc "  " paragraphs).toList =
      ⟨.code depth, [], members⟩ := by
  unfold Interface.doc
  split
  · next paragraph =>
    have hstart : Calm "* ".toList := calm_of_read fun _ _ _ => ⟨rfl, rfl⟩
    have hend : Calm " ".toList := calm_of_read fun _ _ _ => ⟨rfl, rfl⟩
    have hbody := hstart.around (remark_docText paragraph.toList) hend
    simpa using read_comment hbody depth members
  · next _ _ =>
    have hstart : Calm "*\n".toList := calm_of_read fun _ _ _ => ⟨rfl, rfl⟩
    have hend : Calm "   ".toList := calm_of_read fun _ _ _ => ⟨rfl, rfl⟩
    have hlines : ∀ line ∈ (paragraphs.flatMap Interface.docLines).map fun line =>
        (Interface.docLine "  " line).toList, Calm line := by
      rintro _ hmem
      obtain ⟨line, -, rfl⟩ := List.mem_map.1 hmem
      exact calm_docLine line
    have hbody := (hstart.flatten hlines).append hend
    simpa [← List.flatMap_def, List.flatMap_map] using read_comment hbody depth members

end Comments

section Fields

variable {columns : List ResolvedColumn}

/-- A semicolon outside brackets ends a member, and the line break behind it is passed over. -/
theorem read_semicolon (member : List Char) (members : List (List Char)) :
    read ⟨.code 0, member, members⟩ ";\n".toList = ⟨.code 0, [], member.reverse :: members⟩ := by
  have hbreak : read ⟨.code 0, [], member.reverse :: members⟩ ['\n'] =
      ⟨.code 0, [], member.reverse :: members⟩ := read_blanks (by decide +kernel)
  exact hbreak

theorem read_field {column : ResolvedColumn} (h : Whole 0 column.mappedType.toList)
    (members : List (List Char)) :
    read ⟨.code 0, [], members⟩ (Interface.field column).toList =
      ⟨.code 0, [],
        (propertyKey column.name ++ ": " ++ column.mappedType).toList :: members⟩ := by
  have hindent : read ⟨.code 0, [], members⟩ "  ".toList = ⟨.code 0, [], members⟩ :=
    read_blanks (by decide +kernel)
  have hkey := solid_propertyKey column.name 0 [] members
  have hvalue : Whole 0 (": ".toList ++ column.mappedType.toList) :=
    (whole_text 0 (by decide)).append h
  have hne : (propertyKey column.name).toList.reverse ++ [] ≠ [] := by
    simpa using propertyKey_ne_empty column.name
  have hshape : (Interface.field column).toList =
      (Interface.doc "  " (Interface.columnDoc column)).toList ++ ("  ".toList ++
        ((propertyKey column.name).toList ++ ((": ".toList ++ column.mappedType.toList) ++
          ";\n".toList))) := by
    simp [Interface.field]
  rw [hshape, read_append, read_doc, read_append, hindent, read_append, hkey, read_append,
    hvalue 0 (Nat.le_refl 0) _ _ hne, read_semicolon]
  simp

theorem read_fields (h : ∀ column ∈ columns, Whole 0 column.mappedType.toList)
    (members : List (List Char)) :
    read ⟨.code 0, [], members⟩ (String.join (columns.map Interface.field)).toList =
      ⟨.code 0, [], (columns.map fun column =>
        (propertyKey column.name ++ ": " ++ column.mappedType).toList).reverse ++ members⟩ := by
  induction columns generalizing members with
  | nil => rfl
  | cons column columns ih =>
    obtain ⟨hcolumn, hcolumns⟩ := List.forall_mem_cons.1 h
    rw [List.map_cons, String.join_cons, String.toList_append, read_append, read_field hcolumn,
      ih hcolumns, List.map_cons, List.reverse_cons, List.append_assoc]
    rfl

end Fields

end MemberReader

/-- The text of a type that stays a part of the member it stands in: its brackets and literals are
closed, and it has no comment and, outside its brackets, no semicolon. -/
def WholeType (text : String) : Prop := MemberReader.Whole 0 text.toList

/-- One member for each column is read from the fields of an interface. -/
theorem members?_fields {columns : List ResolvedColumn}
    (h : ∀ column ∈ columns, WholeType column.mappedType) :
    members? (String.join (columns.map Interface.field)) =
      some (columns.map fun column => propertyKey column.name ++ ": " ++ column.mappedType) := by
  unfold members?
  dsimp only
  rw [MemberReader.read_fields h, if_pos ⟨rfl, rfl⟩, List.append_nil, List.reverse_reverse,
    List.map_map]
  exact congrArg some (List.map_congr_left fun _ _ => String.ofList_toList)

/-- What resolution makes of types by itself is whole. -/
theorem MappedTable.Mapped.wholeType {table : MappedTable} (h : table.Mapped) :
    ∀ column ∈ table.columns, WholeType column.mappedType := by
  intro column hc
  obtain ⟨mapped, hrun, htext⟩ := h column hc
  have hwhole := (MemberReader.keeps_whole _).of_runWithin (TsType.plainFold_plain _) hrun
  rwa [htext] at hwhole

end TypedTables
