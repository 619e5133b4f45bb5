import TypedTables.Proofs.Render.Skeleton
import TypedTables.Proofs.Render.Tokens

/-!
Reading mapped types. A reader of TypeScript types, in which `[]` binds tighter than `|`, reads from
the text of a mapped type the type that it was written for. So types with the same text are the
same.
-/

namespace TypedTables

/-- TypeScript types, as far as columns have them. -/
inductive TsTree
  | name (text : String)
  | literal (value : String)
  | union (members : List TsTree)
  | array (item : TsTree)
  /-- Records with texts as keys. -/
  | record (value : TsTree)
  | object (fields : List (String × TsTree))

namespace TsTree

/-- A union of one member is that member. -/
def ofMembers : List TsTree → TsTree
  | [tree] => tree
  | trees => .union trees

/-- The type with as many arrays around it as there are pairs of brackets behind it. -/
def readBrackets (tree : TsTree) : List TsToken → TsTree × List TsToken
  | .sign '[' :: .sign ']' :: rest => readBrackets (.array tree) rest
  | rest => (tree, rest)

/-- What is behind a token that has to be there. -/
def expect (token : TsToken) : List TsToken → Option (List TsToken)
  | [] => none
  | first :: rest => if first = token then some rest else none

mutual

/-- A member of a union and what is behind it. -/
def readItem? : (fuel : Nat) → List TsToken → Option (TsTree × List TsToken)
  | fuel + 1, .sign '(' :: rest => do
    let (members, rest) ← readMembers? fuel rest
    return readBrackets (.ofMembers members) (← expect (.sign ')') rest)
  | fuel + 1, .sign '\x7b' :: rest => do
    let (fields, rest) ← readFields? fuel rest
    return readBrackets (.object fields) rest
  | _ + 1, .literal _ content :: rest => do
    return readBrackets (.literal (.ofList (← unescape? content))) rest
  | fuel + 1, .word text :: rest =>
    if text = "Record".toList then do
      let rest ← expect (.sign '<') rest
      let rest ← expect (.word "string".toList) rest
      let (members, rest) ← readMembers? fuel (← expect (.sign ',') rest)
      return readBrackets (.record (.ofMembers members)) (← expect (.sign '>') rest)
    else return readBrackets (.name (.ofList text)) rest
  | _, _ => none

/-- The members of a union and what is behind them. -/
def readMembers? : (fuel : Nat) → List TsToken → Option (List TsTree × List TsToken)
  | 0, _ => none
  | fuel + 1, tokens => do
    let (first, rest) ← readItem? fuel tokens
    match rest with
    | .sign '|' :: rest => do
      let (members, rest) ← readMembers? fuel rest
      return (first :: members, rest)
    | rest => return ([first], rest)

/-- The fields of an object and what is behind its closing brace. -/
def readFields? : (fuel : Nat) → List TsToken → Option (List (String × TsTree) × List TsToken)
  | _ + 1, .sign '\x7d' :: rest => some ([], rest)
  | fuel + 1, .word key :: .sign ':' :: rest => do
    let (members, rest) ← readMembers? fuel rest
    let field := (String.ofList key, TsTree.ofMembers members)
    match rest with
    | .sign ';' :: rest => do
      let (fields, rest) ← readFields? fuel rest
      return (field :: fields, rest)
    | .sign '\x7d' :: rest => return ([field], rest)
    | _ => none
  | _, _ => none

end

/-- The type that a text is read as. -/
def read? (text : String) : Option TsTree :=
  let tokens := tsTokens text.toList
  match readMembers? (tokens.length + 1) tokens with
  | some (members, []) => some (.ofMembers members)
  | _ => none

section Read

variable {tokens ts : List TsToken} {tree : TsTree} {trees : List TsTree}

/-- Tokens that are read as a member of a union, with the brackets behind them. -/
def Item (tokens : List TsToken) (tree : TsTree) : Prop := ∀ fuel ≥ tokens.length, ∀ rest,
  readItem? fuel (tokens ++ rest) = some (readBrackets tree rest)

/-- Tokens that are read as the members of a union, up to what may end one. -/
def Members (tokens : List TsToken) (trees : List TsTree) : Prop := ∀ fuel > tokens.length, ∀ rest,
  (∀ token ∈ rest.head?, token ≠ .sign '|' ∧ token ≠ .sign '[') →
    readMembers? fuel (tokens ++ rest) = some (trees, rest)

theorem readBrackets_of_head {rest : List TsToken} (h : ∀ token ∈ rest.head?, token ≠ .sign '[') :
    readBrackets tree rest = (tree, rest) := by
  rw [readBrackets]
  rintro rest rfl
  exact h _ rfl rfl

@[simp] theorem expect_self (token : TsToken) (rest : List TsToken) :
    expect token (token :: rest) = some rest := if_pos rfl

theorem Item.members (h : Item tokens tree) : Members tokens [tree] := by
  intro fuel hfuel rest hrest
  obtain ⟨fuel, rfl⟩ := Nat.exists_eq_add_one_of_ne_zero (Nat.ne_of_gt (Nat.zero_lt_of_lt hfuel))
  rw [readMembers?, h fuel (Nat.le_of_lt_succ hfuel),
    readBrackets_of_head fun token htoken => (hrest token htoken).2]
  change (match rest with
    | .sign '|' :: rest => _
    | rest => some ([tree], rest)) = _
  split
  · exact absurd rfl (hrest (.sign '|') rfl).1
  · rfl

theorem Item.cons_members (h : Item tokens tree) (hmore : Members ts trees) :
    Members (tokens ++ .sign '|' :: ts) (tree :: trees) := by
  intro fuel hfuel rest hrest
  obtain ⟨fuel, rfl⟩ := Nat.exists_eq_add_one_of_ne_zero (Nat.ne_of_gt (Nat.zero_lt_of_lt hfuel))
  rw [List.length_append, List.length_cons] at hfuel
  rw [readMembers?, List.append_assoc, h fuel (by omega), List.cons_append,
    readBrackets_of_head (by simp)]
  simp [hmore fuel (by omega) rest hrest]

theorem Members.intercalate {parts : List (List TsToken)} (h : List.Forall₂ Item parts trees)
    (hne : parts ≠ []) : Members ([.sign '|'].intercalate parts) trees := by
  induction h with
  | nil => contradiction
  | @cons part tree parts trees hpart hrest ih =>
    cases hrest with
    | nil => simpa using hpart.members
    | cons hnext hrest =>
      rw [List.intercalate_cons_cons, List.append_assoc]
      exact hpart.cons_members (ih (List.cons_ne_nil _ _))

theorem Item.array (h : Item tokens tree) :
    Item (tokens ++ [.sign '[', .sign ']']) (.array tree) := by
  intro fuel hfuel rest
  rw [List.length_append] at hfuel
  rw [List.append_assoc, h fuel (by omega)]
  rfl

theorem Item.group (h : Members tokens trees) :
    Item (.sign '(' :: tokens ++ [.sign ')']) (.ofMembers trees) := by
  intro fuel hfuel rest
  rw [List.length_append, List.length_cons, List.length_singleton] at hfuel
  obtain ⟨fuel, rfl⟩ := Nat.exists_eq_add_one_of_ne_zero (by omega : fuel ≠ 0)
  rw [List.cons_append, List.cons_append, List.append_assoc, readItem?,
    h fuel (by omega) _ (by simp)]
  simp

theorem Item.record (h : Members tokens trees) :
    Item (.word "Record".toList :: .sign '<' :: .word "string".toList :: .sign ',' :: tokens ++
      [.sign '>']) (.record (.ofMembers trees)) := by
  intro fuel hfuel rest
  simp only [List.length_append, List.length_cons] at hfuel
  obtain ⟨fuel, rfl⟩ := Nat.exists_eq_add_one_of_ne_zero (by omega : fuel ≠ 0)
  have hvalue := h fuel (by omega) (.sign '>' :: rest) (by simp)
  simp [readItem?, hvalue]

theorem Item.name {text : List Char} (h : text ≠ "Record".toList) :
    Item [.word text] (.name (.ofList text)) := by
  intro fuel hfuel rest
  obtain ⟨fuel, rfl⟩ := Nat.exists_eq_add_one_of_ne_zero (Nat.ne_of_gt hfuel)
  rw [List.singleton_append, readItem?, if_neg h]
  rfl

theorem Item.literal (value : String) :
    Item [.literal '\x27' (literalContent value)] (.literal value) := by
  intro fuel hfuel rest
  obtain ⟨fuel, rfl⟩ := Nat.exists_eq_add_one_of_ne_zero (Nat.ne_of_gt hfuel)
  rw [List.singleton_append, readItem?, unescape?_literalContent]
  simp

/-- A field as it is written. -/
def field (key : String) (tokens : List TsToken) : List TsToken :=
  .word key.toList :: .sign ':' :: tokens

/-- Fields with their types, up to the closing brace. -/
theorem readFields?_fields {fields : List (List TsToken)} {read : List (String × TsTree)}
    (h : List.Forall₂ (fun tokens (key, tree) => ∃ ts trees, tokens = field key ts ∧
      tree = .ofMembers trees ∧ Members ts trees) fields read)
    {fuel : Nat} (hfuel : fuel > ([.sign ';'].intercalate fields).length) (rest : List TsToken) :
    readFields? fuel ([.sign ';'].intercalate fields ++ .sign '\x7d' :: rest) =
      some (read, rest) := by
  induction h generalizing fuel with
  | nil =>
    obtain ⟨fuel, rfl⟩ := Nat.exists_eq_add_one_of_ne_zero (Nat.ne_of_gt (Nat.zero_lt_of_lt hfuel))
    rfl
  | @cons tokens entry fields read hfield hrest ih =>
    obtain ⟨key, _⟩ := entry
    obtain ⟨ts, trees, rfl, rfl, hmembers⟩ := hfield
    obtain ⟨fuel, rfl⟩ := Nat.exists_eq_add_one_of_ne_zero (Nat.ne_of_gt (Nat.zero_lt_of_lt hfuel))
    cases hrest with
    | nil =>
      simp only [List.intercalate_singleton, field, List.length_cons] at hfuel ⊢
      rw [List.cons_append, List.cons_append, readFields?, hmembers fuel (by omega) _ (by simp)]
      simp
    | @cons next _ fields _ hnext hrest =>
      rw [List.intercalate_cons_cons] at hfuel ⊢
      simp only [field, List.length_append, List.length_cons, List.length_nil] at hfuel
      simp only [field, List.append_assoc, List.cons_append, readFields?, List.nil_append]
      rw [hmembers fuel (by omega) _ (by simp)]
      simp [@ih fuel (by omega)]

theorem Item.object {fields : List (List TsToken)} {read : List (String × TsTree)}
    (h : List.Forall₂ (fun tokens (key, tree) => ∃ ts trees, tokens = field key ts ∧
      tree = .ofMembers trees ∧ Members ts trees) fields read) :
    Item (.sign '\x7b' :: [.sign ';'].intercalate fields ++ [.sign '\x7d']) (.object read) := by
  intro fuel hfuel rest
  rw [List.length_append, List.length_cons, List.length_singleton] at hfuel
  obtain ⟨fuel, rfl⟩ := Nat.exists_eq_add_one_of_ne_zero (by omega : fuel ≠ 0)
  rw [List.cons_append, List.cons_append, List.append_assoc, readItem?, List.singleton_append,
    readFields?_fields h (by omega)]
  rfl

end Read

end TsTree

section Lexes

open CodeToken (isWordPart)

/-- Text that is read as some tokens whatever follows. -/
def LexesApart (cs : List Char) (tokens : List TsToken) : Prop := ∀ rest,
  tsTokens (cs ++ rest) = tokens ++ tsTokens rest

/-- Text that is read as some tokens unless a word goes on behind it. -/
def Lexes (cs : List Char) (tokens : List TsToken) : Prop := ∀ rest,
  (∀ c ∈ rest.head?, isWordPart c = false) → tsTokens (cs ++ rest) = tokens ++ tsTokens rest

variable {cs ds : List Char} {ts us : List TsToken}

theorem LexesApart.lexes (h : LexesApart cs ts) : Lexes cs ts := fun rest _ => h rest

theorem LexesApart.append_lexes (h : LexesApart cs ts) (h' : Lexes ds us) :
    Lexes (cs ++ ds) (ts ++ us) := fun rest hrest => by
  rw [List.append_assoc, h, h' rest hrest, List.append_assoc]

theorem Lexes.append_apart (h : Lexes cs ts)
    (hstart : ∀ rest, ∀ c ∈ (ds ++ rest).head?, isWordPart c = false) (h' : LexesApart ds us) :
    LexesApart (cs ++ ds) (ts ++ us) := fun rest => by
  rw [List.append_assoc, h _ (hstart rest), h', List.append_assoc]

theorem lexes_word {word : List Char} (h : word.all isWordPart = true) (hne : word ≠ []) :
    Lexes word [.word word] := fun _ => tsTokens_word h hne

theorem Lexes.intercalate {separator : List Char} {sign : TsToken}
    (hseparator : LexesApart separator [sign])
    (hstart : ∀ rest, ∀ c ∈ (separator ++ rest).head?, isWordPart c = false)
    {texts : List (List Char)} {tokens : List (List TsToken)}
    (h : List.Forall₂ Lexes texts tokens) :
    Lexes (separator.intercalate texts) ([sign].intercalate tokens) := by
  induction h with
  | nil => exact fun _ _ => rfl
  | @cons text token texts tokens htext hrest ih =>
    cases hrest with
    | nil => simpa using htext
    | cons hnext hrest =>
      rw [List.intercalate_cons_cons, List.intercalate_cons_cons]
      exact (htext.append_apart hstart hseparator).append_lexes ih

theorem intercalate_concat {α : Type} (separator : List α) {xs : List (List α)} (hne : xs ≠ [])
    (x : List α) :
    separator.intercalate (xs ++ [x]) = separator.intercalate xs ++ separator ++ x := by
  induction xs with
  | nil => contradiction
  | cons y ys ih =>
    cases ys with
    | nil => simp [List.intercalate_cons_cons]
    | cons z zs =>
      rw [List.cons_append, List.cons_append, List.intercalate_cons_cons, ← List.cons_append,
        ih (List.cons_ne_nil z zs), List.intercalate_cons_cons]
      simp only [List.append_assoc]

theorem lexes_field {text : String} (h : Lexes text.toList ts) (i : Nat) :
    Lexes (TsType.fieldName i ++ ": " ++ text).toList (TsTree.field (TsType.fieldName i) ts) := by
  have hword : (TsType.fieldName i).toList.all isWordPart = true := by
    refine List.all_eq_true.2 fun c hc => ?_
    obtain rfl | hdigit := isDigit_of_mem_fieldName hc
    · rfl
    · simp [isWordPart, isKeyPart, Char.isAlphanum, hdigit]
  have hne : (TsType.fieldName i).toList ≠ [] := by simp [TsType.fieldName]
  have hcolon : LexesApart ": ".toList [.sign ':'] := fun _ => rfl
  have hall := ((lexes_word hword hne).append_apart (by rintro _ _ ⟨⟩; rfl) hcolon).append_lexes h
  simpa [TsTree.field] using hall

end Lexes

namespace Skeleton

open TsTree (Item Members)

variable (options : MappingOptions)

/-- The members of the TypeScript type, in the order of the keys and then of the nullables. -/
def members : Skeleton → List TsTree
  | .nullable inner => inner.members ++ [.name "null"]
  | .array item => [.array (.ofMembers item.members)]
  | .tuple items => [.object ((items.map members).zipIdx.map fun (members, i) =>
      (TsType.fieldName i, .ofMembers members))]
  | .map value => [.record (.ofMembers value.members)]
  | .enumeration keys => keys.map .literal
  | .leaf kind => [.name (TsType.leaf options kind).text]
  | .unknown => [.name "unknown"]

/-- Tokens that belong together beside brackets. -/
def group (union : Bool) (tokens : List TsToken) : List TsToken :=
  if union then .sign '(' :: tokens ++ [.sign ')'] else tokens

/-- The tokens of each member. -/
def parts : Skeleton → List (List TsToken)
  | .nullable inner => inner.parts ++ [[.word "null".toList]]
  | .array item =>
    [group item.isUnion ([.sign '|'].intercalate item.parts) ++ [.sign '[', .sign ']']]
  | .tuple items => [.sign '\x7b' :: [.sign ';'].intercalate ((items.map parts).zipIdx.map
      fun (parts, i) => TsTree.field (TsType.fieldName i) ([.sign '|'].intercalate parts)) ++
      [.sign '\x7d']]
  | .map value =>
    [.word "Record".toList :: .sign '<' :: .word "string".toList :: .sign ',' ::
      [.sign '|'].intercalate value.parts ++ [.sign '>']]
  | .enumeration keys => keys.map fun key => [.literal '\x27' (literalContent key)]
  | .leaf kind => [[.word (TsType.leaf options kind).text.toList]]
  | .unknown => [[.word "unknown".toList]]

def tokens (s : Skeleton) : List TsToken := [.sign '|'].intercalate (s.parts options)

/-- The text of a type is read as its tokens, and the tokens as its members. -/
structure Reads (s : Skeleton) : Prop where
  nonempty : s.parts options ≠ []
  single : s.isUnion = false → ∃ part, s.parts options = [part]
  items : List.Forall₂ TsTree.Item (s.parts options) (s.members options)
  lexes : Lexes (s.typeScript options).toList (s.tokens options)

variable {options}

theorem Reads.readMembers {s : Skeleton} (h : s.Reads options) :
    Members (s.tokens options) (s.members options) := .intercalate h.items h.nonempty

theorem reads_of_item {s : Skeleton} {part : List TsToken} {tree : TsTree}
    (hparts : s.parts options = [part]) (hmembers : s.members options = [tree])
    (hitem : Item part tree) (hlexes : Lexes (s.typeScript options).toList part) :
    s.Reads options where
  nonempty := by simp [hparts]
  single _ := ⟨part, hparts⟩
  items := by
    rw [hparts, hmembers]
    exact .cons hitem .nil
  lexes := by rwa [tokens, hparts, List.intercalate_singleton]

theorem Reads.item {s : Skeleton} (h : s.Reads options) :
    Item (group s.isUnion (s.tokens options)) (.ofMembers (s.members options)) := by
  cases hunion : s.isUnion with
  | true => exact Item.group h.readMembers
  | false =>
    obtain ⟨part, hpart⟩ := h.single hunion
    have hitems := h.items
    rw [hpart, List.forall₂_cons_left_iff] at hitems
    obtain ⟨tree, _, hitem, ⟨⟩, hmembers⟩ := hitems
    rw [tokens, hpart, List.intercalate_singleton, hmembers]
    exact hitem

theorem Reads.array {s : Skeleton} (h : s.Reads options) : (Skeleton.array s).Reads options := by
  refine reads_of_item (by rw [parts, tokens]) (by rw [Skeleton.members]) h.item.array ?_
  have hbrackets : LexesApart "[]".toList [.sign '[', .sign ']'] := fun _ => rfl
  rw [typeScript]
  cases hunion : s.isUnion with
  | true =>
    have hopen : LexesApart "(".toList [.sign '('] := fun _ => rfl
    have hclose : LexesApart ")[]".toList [.sign ')', .sign '[', .sign ']'] := fun _ => rfl
    have hall := (hopen.append_lexes h.lexes).append_apart (by rintro _ _ ⟨⟩; rfl) hclose
    simpa [group] using hall.lexes
  | false =>
    have hall := h.lexes.append_apart (by rintro _ _ ⟨⟩; rfl) hbrackets
    simpa [group] using hall.lexes

theorem Reads.map {s : Skeleton} (h : s.Reads options) : (Skeleton.map s).Reads options := by
  have hitem := Item.record h.readMembers
  refine reads_of_item (by rw [parts, tokens]) (by rw [Skeleton.members]) hitem ?_
  have hopen : LexesApart "Record<string, ".toList
      [.word "Record".toList, .sign '<', .word "string".toList, .sign ','] := fun _ => rfl
  have hclose : LexesApart ">".toList [.sign '>'] := fun _ => rfl
  have hall := (hopen.append_lexes h.lexes).append_apart (by rintro _ _ ⟨⟩; rfl) hclose
  rw [typeScript]
  simpa using hall.lexes

theorem reads_of_word {s : Skeleton} {word : String} (htext : s.typeScript options = word)
    (hparts : s.parts options = [[.word word.toList]]) (hmembers : s.members options = [.name word])
    (h : word.toList.all CodeToken.isWordPart = true ∧ word.toList ∉ [[], "Record".toList]) :
    s.Reads options := by
  obtain ⟨hword, hother⟩ := h
  simp only [List.mem_cons, List.not_mem_nil, or_false, not_or] at hother
  have hitem := Item.name hother.2
  rw [String.ofList_toList] at hitem
  refine reads_of_item hparts hmembers hitem ?_
  rw [htext]
  exact lexes_word hword hother.1

theorem Reads.nullable {s : Skeleton} (h : s.Reads options) :
    (Skeleton.nullable s).Reads options where
  nonempty := by simp [parts]
  single hunion := by simp [isUnion] at hunion
  items := by
    rw [parts, Skeleton.members]
    exact List.rel_append h.items (.cons (Item.name (by decide)) .nil)
  lexes := by
    have hbar : LexesApart " | ".toList [.sign '|'] := fun _ => rfl
    have hnull : Lexes "null".toList [.word "null".toList] := lexes_word (by decide) (by decide)
    have hall := (h.lexes.append_apart (by rintro _ _ ⟨⟩; rfl) hbar).append_lexes hnull
    rw [typeScript, tokens, parts, intercalate_concat _ h.nonempty, ← tokens]
    simpa using hall

theorem Reads.tuple {items : List Skeleton} (h : ∀ s ∈ items, s.Reads options) :
    (Skeleton.tuple items).Reads options := by
  refine reads_of_item (by rw [parts]) (by rw [Skeleton.members]) (Item.object ?_) ?_
  · rw [List.zipIdx_map, List.zipIdx_map, List.map_map, List.map_map, List.forall₂_map_left_iff,
      List.forall₂_map_right_iff, List.forall₂_same]
    rintro ⟨s, i⟩ hentry
    exact ⟨_, _, rfl, rfl, (h s (List.fst_mem_of_mem_zipIdx hentry)).readMembers⟩
  · rw [List.zipIdx_map, List.map_map]
    cases items with
    | nil =>
      rw [typeScript]
      exact fun _ _ => rfl
    | cons s items =>
      have hopen : LexesApart "\x7b ".toList [.sign '\x7b'] := fun _ => rfl
      have hclose : LexesApart " \x7d".toList [.sign '\x7d'] := fun _ => rfl
      have hsemicolon : LexesApart "; ".toList [.sign ';'] := fun _ => rfl
      have hfields := Lexes.intercalate hsemicolon (by rintro _ _ ⟨⟩; rfl) <|
        show List.Forall₂ Lexes
            ((s :: items).zipIdx.map fun entry =>
              (TsType.fieldName entry.2 ++ ": " ++ entry.1.typeScript options).toList)
            ((s :: items).zipIdx.map fun entry =>
              TsTree.field (TsType.fieldName entry.2) (entry.1.tokens options)) by
          rw [List.forall₂_map_left_iff, List.forall₂_map_right_iff, List.forall₂_same]
          rintro ⟨s, i⟩ hentry
          exact lexes_field (h s (List.fst_mem_of_mem_zipIdx hentry)).lexes i
      have hall := (hopen.append_lexes hfields).append_apart (by rintro _ _ ⟨⟩; rfl) hclose
      rw [typeScript, List.zipIdx_map, List.map_map, String.toList_append, String.toList_append,
        String.toList_intercalate, List.map_map]
      · exact hall.lexes
      · exact List.cons_ne_nil s items

theorem reads_enumeration {keys : List String} (h : keys ≠ []) :
    (Skeleton.enumeration keys).Reads options where
  nonempty := by simpa [parts] using h
  single hunion := by
    obtain ⟨key, keys, rfl⟩ := List.exists_cons_of_ne_nil h
    obtain rfl : keys = [] := by simpa [isUnion] using hunion
    exact ⟨_, by rw [parts]; rfl⟩
  items := by
    rw [parts, Skeleton.members, List.forall₂_map_left_iff, List.forall₂_map_right_iff,
      List.forall₂_same]
    exact fun key _ => Item.literal key
  lexes := by
    have hbar : LexesApart " | ".toList [.sign '|'] := fun _ => rfl
    rw [typeScript, tokens, parts, String.toList_intercalate, List.map_map]
    refine Lexes.intercalate hbar (by rintro _ _ ⟨⟩; rfl) ?_
    rw [List.forall₂_map_left_iff, List.forall₂_map_right_iff, List.forall₂_same]
    exact fun key _ rest _ => tsTokens_quoted key rest

theorem reads_leaf (kind : Leaf) : (Skeleton.leaf kind).Reads options := by
  have hall : TsType.leafTexts.all (fun text =>
      text.toList.all CodeToken.isWordPart && text.toList ∉ [[], "Record".toList]) = true := by
    decide
  have hleaf := List.all_eq_true.1 hall _ (TsType.leaf_mem options kind)
  rw [Bool.and_eq_true, decide_eq_true_eq] at hleaf
  exact reads_of_word (by rw [typeScript]) (by rw [parts]) (by rw [Skeleton.members]) hleaf

variable (options)

theorem keeps_reads : fold.Keeps (Reads options) where
  nullable _ h := h.nullable
  array _ h := h.array
  tuple _ h := .tuple h
  map _ h := h.map
  enumeration _ h := reads_enumeration h
  leaf := reads_leaf
  unknown name s h := by
    obtain rfl : Skeleton.unknown = s := Except.ok.inj h
    exact reads_of_word (by rw [typeScript]) (by rw [parts]) (by rw [Skeleton.members]) (by decide)

variable {options}

theorem Reads.read? {s : Skeleton} (h : s.Reads options) :
    TsTree.read? (s.typeScript options) = some (.ofMembers (s.members options)) := by
  have htokens : tsTokens (s.typeScript options).toList = s.tokens options := by
    have hlexes := h.lexes [] nofun
    rwa [List.append_nil, show tsTokens [] = [] from rfl, List.append_nil] at hlexes
  have hmembers := h.readMembers ((s.tokens options).length + 1) (Nat.lt_succ_self _) [] nofun
  rw [List.append_nil] at hmembers
  simp only [TsTree.read?, htokens, hmembers]

end Skeleton

/-- The TypeScript type that a type tree stands for. -/
def TsTree.ofType (options : MappingOptions) (ty : TypeExpr) : Except Error TsTree :=
  (fun s => .ofMembers (s.members options)) <$> Skeleton.ofType ty

section Mapped

variable {options : ResolveOptions} {table table' column column' text : String} {ty ty' : TypeExpr}

theorem read?_mapped (hp : options.plugins = []) (h : mapType options table column ty = .ok text) :
    ∃ tree, TsTree.ofType options.toMappingOptions ty = .ok tree ∧
      TsTree.read? text = some tree := by
  rw [mapType_eq hp] at h
  obtain ⟨mapped, hmapped, rfl⟩ := map_eq_ok.1 h
  obtain ⟨s, hs⟩ := TypeFold.exists_run_of_run (TsType.plainFold_plain _) Skeleton.plain_fold
    Skeleton.total_fold hmapped
  obtain rfl := (Skeleton.respects_typeScript options.toMappingOptions).of_runWithin
    Skeleton.plain_fold (TsType.plainFold_plain _) hs hmapped
  have hreads := (Skeleton.keeps_reads options.toMappingOptions).of_runWithin Skeleton.plain_fold hs
  exact ⟨_, by rw [TsTree.ofType, Skeleton.ofType, hs]; rfl, hreads.read?⟩

/-- Types that are mapped to the same text are the same TypeScript type, the one that the text is
read as. -/
theorem mapType_readable (hp : options.plugins = [])
    (h : mapType options table column ty = .ok text)
    (h' : mapType options table' column' ty' = .ok text) :
    ∃ tree, TsTree.read? text = some tree ∧
      TsTree.ofType options.toMappingOptions ty = .ok tree ∧
      TsTree.ofType options.toMappingOptions ty' = .ok tree := by
  obtain ⟨tree, htree, hread⟩ := read?_mapped hp h
  obtain ⟨tree', htree', hread'⟩ := read?_mapped hp h'
  cases hread.symm.trans hread'
  exact ⟨tree, hread, htree, htree'⟩

/-- An array whose items may be null, or else have one key with signs that types are written
with. -/
def barredKeys : TypeExpr := .mk "Array" [.type (.nullable (.mk "Enum8" [.member "|' | 'b" 1]))]

/-- The same array, its keys written in a dictionary and with another number. -/
def storedKeys : TypeExpr :=
  .mk "Array"
    [.type (.mk "LowCardinality" [.type (.nullable (.mk "Enum16" [.member "|' | 'b" 300]))])]

theorem mapType_readable_barredKeys :
    mapType {} "t" "c" barredKeys = .ok "('|\\' | \\'b' | null)[]" ∧
    mapType {} "t" "d" storedKeys = .ok "('|\\' | \\'b' | null)[]" ∧
    TsTree.read? "('|\\' | \\'b' | null)[]" =
      some (.array (.union [.literal "|' | 'b", .name "null"])) := by
  have hbarred : mapType {} "t" "c" barredKeys = .ok "('|\\' | \\'b' | null)[]" := by decide +kernel
  have hstored : mapType {} "t" "d" storedKeys = .ok "('|\\' | \\'b' | null)[]" := by decide +kernel
  obtain ⟨tree, hread, htree, -⟩ := mapType_readable rfl hbarred hstored
  have hskeleton : Skeleton.ofType barredKeys =
      .ok (.array (.nullable (.enumeration ["|' | 'b"]))) := rfl
  rw [TsTree.ofType, hskeleton] at htree
  obtain rfl := Except.ok.inj htree
  refine ⟨hbarred, hstored, ?_⟩
  simpa [Skeleton.members, TsTree.ofMembers] using hread

end Mapped

end TypedTables
