import Mathlib.Data.List.Perm.Subperm
import Mathlib.Data.List.TakeWhile
import TypedTables.Proofs.Grammar.RawType

/-!
Options of a column in any order. They are read as they are written, except that an expression goes
on over those behind it that do not end it. What they say of the column depends on their order only
if an expression loses its end that way, or takes away a `NULL`.
-/

namespace TypedTables

section Slots

variable {σ τ κ : Type} {apply : σ → τ → σ} {slot : τ → κ} {ss ss' : List τ}

/-- Things that are set apart from one another can be set in any order. -/
theorem foldl_perm_of_slots
    (hcomm : ∀ s a b, slot a ≠ slot b → apply (apply s a) b = apply (apply s b) a)
    (h : (ss.map slot).Nodup) (hperm : ss.Perm ss') (s : σ) :
    ss.foldl apply s = ss'.foldl apply s := by
  refine hperm.foldl_eq' (fun a ha b hb s => ?_) s
  by_cases hslot : slot a = slot b
  · rw [List.inj_on_of_nodup_map h ha hb hslot]
  · exact hcomm s a b hslot

theorem foldl_of_mem_of_slots [DecidableEq τ] {t : τ}
    (hcomm : ∀ s a b, slot a ≠ slot b → apply (apply s a) b = apply (apply s b) a)
    (h : (ss.map slot).Nodup) (ht : t ∈ ss) (s : σ) :
    ss.foldl apply s = apply ((ss.erase t).foldl apply s) t := by
  have hperm : ss.Perm (ss.erase t ++ [t]) :=
    (List.perm_cons_erase ht).trans (List.perm_append_singleton t _).symm
  rw [foldl_perm_of_slots hcomm h hperm, List.foldl_append]
  rfl

theorem length_le_of_slots {all : List κ} (hall : ∀ k, k ∈ all) (h : (ss.map slot).Nodup) :
    ss.length ≤ all.length := by
  have hsub := h.subperm fun k _ => hall k
  simpa using hsub.length_le

end Slots

/-- What a column has at most one of. -/
inductive ColumnSlot
  | null
  | primaryKey
  | comment
  | codec
  | ttl
  | default
  deriving DecidableEq

def ColumnSlot.all : List ColumnSlot := [.null, .primaryKey, .comment, .codec, .ttl, .default]

theorem ColumnSlot.mem_all (slot : ColumnSlot) : slot ∈ all := by cases slot <;> decide

/-- What an option says of the column. -/
inductive ColumnTrait
  | nullable
  | primaryKey
  | comment (text : String)
  | codec
  | ttl
  | default (kind : DefaultKind) (expr : String)
  deriving DecidableEq

def ColumnTrait.slot : ColumnTrait → ColumnSlot
  | .nullable => .null
  | .primaryKey => .primaryKey
  | .comment _ => .comment
  | .codec => .codec
  | .ttl => .ttl
  | .default _ _ => .default

def TypeExpr.admitNull (ty : TypeExpr) : TypeExpr :=
  if ty.name == nullableName then ty else .nullable ty

theorem TypeExpr.admitNull_of_nullable {ty : TypeExpr} (h : ty.name = nullableName) :
    ty.admitNull = ty := by
  unfold admitNull
  rw [if_pos (by simpa using h)]

theorem TypeExpr.name_admitNull (ty : TypeExpr) : ty.admitNull.name = nullableName := by
  unfold admitNull
  split_ifs with h
  · simpa using h
  · rfl

attribute [ext] ColumnDecl

namespace ColumnDecl

variable {column : ColumnDecl} {t : ColumnTrait} {traits traits' : List ColumnTrait}

theorem admitNull_eq (column : ColumnDecl) :
    column.admitNull = { column with type := column.type.admitNull } := by
  unfold admitNull TypeExpr.admitNull
  split_ifs <;> rfl

def withTrait (column : ColumnDecl) : ColumnTrait → ColumnDecl
  | .nullable => { column with type := column.type.admitNull }
  | .comment text => { column with comment := some text }
  | .default kind expr => { column with defaultKind := some kind, defaultExpr := some expr }
  | .primaryKey | .codec | .ttl => column

def withTraits (column : ColumnDecl) (traits : List ColumnTrait) : ColumnDecl :=
  traits.foldl withTrait column

theorem withTrait_comm (column : ColumnDecl) (s t : ColumnTrait) (h : s.slot ≠ t.slot) :
    (column.withTrait s).withTrait t = (column.withTrait t).withTrait s := by
  cases s <;> cases t <;> first | rfl | exact absurd rfl h

/-- The order in which a column is given its traits does not matter. -/
theorem withTraits_perm (h : (traits.map ColumnTrait.slot).Nodup) (hperm : traits.Perm traits')
    (column : ColumnDecl) : column.withTraits traits = column.withTraits traits' :=
  foldl_perm_of_slots withTrait_comm h hperm column

theorem withTraits_of_mem (h : (traits.map ColumnTrait.slot).Nodup) (ht : t ∈ traits) :
    column.withTraits traits = (column.withTraits (traits.erase t)).withTrait t :=
  foldl_of_mem_of_slots withTrait_comm h ht column

/-- What no trait changes stays. -/
theorem withTraits_frame {γ : Type} (f : ColumnDecl → γ)
    (h : ∀ t ∈ traits, ∀ column, f (column.withTrait t) = f column) (column : ColumnDecl) :
    f (column.withTraits traits) = f column := by
  induction traits generalizing column with
  | nil => rfl
  | cons t traits ih =>
    obtain ⟨ht, h⟩ := List.forall_mem_cons.1 h
    exact (ih h (column.withTrait t)).trans (ht column)

theorem name_withTraits (column : ColumnDecl) (traits : List ColumnTrait) :
    (column.withTraits traits).name = column.name :=
  withTraits_frame name (fun t _ _ => by cases t <;> rfl) column

theorem rawType_withTraits (column : ColumnDecl) (traits : List ColumnTrait) :
    (column.withTraits traits).rawType = column.rawType :=
  withTraits_frame rawType (fun t _ _ => by cases t <;> rfl) column

theorem type_withTraits (column : ColumnDecl) (traits : List ColumnTrait) :
    (column.withTraits traits).type =
      if .nullable ∈ traits then column.type.admitNull else column.type := by
  induction traits generalizing column with
  | nil => rfl
  | cons t traits ih =>
    have hcons : column.withTraits (t :: traits) = (column.withTrait t).withTraits traits := rfl
    rw [hcons, ih]
    cases t with
    | nullable => simp [withTrait, TypeExpr.admitNull_of_nullable column.type.name_admitNull]
    | _ => simp [withTrait]

theorem comment_withTraits (h : (traits.map ColumnTrait.slot).Nodup) {text : String}
    (ht : .comment text ∈ traits) : (column.withTraits traits).comment = some text := by
  rw [withTraits_of_mem h ht]
  rfl

theorem comment_withTraits_of_forall (h : ∀ text, .comment text ∉ traits) (column : ColumnDecl) :
    (column.withTraits traits).comment = column.comment := by
  refine withTraits_frame comment (fun t ht column => ?_) column
  cases t with
  | comment text => exact absurd ht (h text)
  | _ => rfl

/-- What stands in for a value of the column, and how. -/
def fallback (column : ColumnDecl) : Option DefaultKind × Option String :=
  (column.defaultKind, column.defaultExpr)

theorem fallback_withTraits (h : (traits.map ColumnTrait.slot).Nodup) {kind : DefaultKind}
    {expr : String} (ht : .default kind expr ∈ traits) :
    (column.withTraits traits).fallback = (some kind, some expr) := by
  rw [withTraits_of_mem h ht]
  rfl

theorem fallback_withTraits_of_forall (h : ∀ kind expr, .default kind expr ∉ traits)
    (column : ColumnDecl) : (column.withTraits traits).fallback = column.fallback := by
  refine withTraits_frame fallback (fun t ht column => ?_) column
  cases t with
  | default kind expr => exact absurd ht (h kind expr)
  | _ => rfl

theorem withTraits_congr (h : (traits.map ColumnTrait.slot).Nodup)
    (h' : (traits'.map ColumnTrait.slot).Nodup)
    (htype : (column.withTraits traits).type = (column.withTraits traits').type)
    (hcomment : ∀ text, .comment text ∈ traits ↔ .comment text ∈ traits')
    (hdefault : ∀ kind expr, .default kind expr ∈ traits ↔ .default kind expr ∈ traits') :
    column.withTraits traits = column.withTraits traits' := by
  have hsaid : (column.withTraits traits).comment = (column.withTraits traits').comment := by
    by_cases hnone : ∀ text, .comment text ∉ traits
    · rw [comment_withTraits_of_forall hnone,
        comment_withTraits_of_forall fun text => mt (hcomment text).2 (hnone text)]
    · obtain ⟨text, ht⟩ := not_forall_not.1 hnone
      rw [comment_withTraits h ht, comment_withTraits h' ((hcomment text).1 ht)]
  have hfallback : (column.withTraits traits).fallback = (column.withTraits traits').fallback := by
    by_cases hnone : ∀ kind expr, .default kind expr ∉ traits
    · rw [fallback_withTraits_of_forall hnone, fallback_withTraits_of_forall
        fun kind expr => mt (hdefault kind expr).2 (hnone kind expr)]
    · push Not at hnone
      obtain ⟨kind, expr, ht⟩ := hnone
      rw [fallback_withTraits h ht, fallback_withTraits h' ((hdefault kind expr).1 ht)]
  obtain ⟨hkind, hexpr⟩ := Prod.mk.inj hfallback
  ext1
  · rw [name_withTraits, name_withTraits]
  · exact htype
  · rw [rawType_withTraits, rawType_withTraits]
  · exact hsaid
  · exact hexpr
  · exact hkind

end ColumnDecl

def DefaultKind.keyword : DefaultKind → Keyword
  | .default => .default
  | .materialized => .materialized
  | .alias => .alias
  | .ephemeral => .ephemeral

namespace Grammar

/-- An option of a column, as it is written. -/
inductive ColumnOption
  | null (word : Token)
  | primaryKey (primary key : Token)
  | comment (word text : Token)
  | codec (word : Token) (group : List Token)
  | ttl (word : Token) (expr : List Token)
  | default (kind : DefaultKind) (word : Token) (expr : List Token)
  deriving DecidableEq

/-- An expression that goes on to the end of the definition, or to an option that ends it. -/
structure IsOptionExpr (expr : List Token) : Prop where
  nonempty : expr ≠ []
  clear : Clear (endsRun endsColumnOption) expr

namespace ColumnOption

def tokens : ColumnOption → List Token
  | .null word => [word]
  | .primaryKey primary key => [primary, key]
  | .comment word text => [word, text]
  | .codec word group => word :: group
  | .ttl word expr | .default _ word expr => word :: expr

def IsWritten : ColumnOption → Prop
  | .null word => word.kind = .keyword .null
  | .primaryKey primary key => primary.kind = .keyword .primary ∧ key.kind = .keyword .key
  | .comment word text => word.kind = .keyword .comment ∧ text.kind = .string
  | .codec word group => word.kind = .keyword .codec ∧ Group group
  | .ttl word expr => word.kind = .keyword .ttl ∧ IsOptionExpr expr
  | .default kind word expr => word.kind = .keyword kind.keyword ∧ IsOptionExpr expr

def trait (source : String) : ColumnOption → ColumnTrait
  | .null _ => .nullable
  | .primaryKey _ _ => .primaryKey
  | .comment _ text => .comment text.text
  | .codec _ _ => .codec
  | .ttl _ _ => .ttl
  | .default kind _ expr => .default kind (sourceText source expr)

def slot : ColumnOption → ColumnSlot
  | .null _ => .null
  | .primaryKey _ _ => .primaryKey
  | .comment _ _ => .comment
  | .codec _ _ => .codec
  | .ttl _ _ => .ttl
  | .default _ _ _ => .default

/-- Whether it ends with an expression, which goes on as long as nothing ends it. -/
def isOpen : ColumnOption → Bool
  | .ttl _ _ | .default _ _ _ => true
  | _ => false

/-- Whether it does not end the expression of an option in front of it. -/
def isTakenIn : ColumnOption → Bool
  | .null _ | .primaryKey _ _ | .default _ _ _ => true
  | _ => false

/-- The option with more tokens in its expression. -/
def extend (more : List Token) : ColumnOption → ColumnOption
  | .ttl word expr => .ttl word (expr ++ more)
  | .default kind word expr => .default kind word (expr ++ more)
  | option => option

/-- Whether the steps suffice to read it. -/
def Fits : ColumnOption → Prop
  | .codec _ group => group.length ≤ (Ceiling.steps .balancedParentheses).limit + 1
  | .ttl _ expr | .default _ _ expr => expr.length < (Ceiling.steps .expression).limit
  | _ => True

variable {o : ColumnOption} {more : List Token}

theorem slot_trait (source : String) (o : ColumnOption) : (o.trait source).slot = o.slot := by
  cases o <;> rfl

theorem map_slot_trait (source : String) (options : List ColumnOption) :
    (options.map (trait source)).map ColumnTrait.slot = options.map slot := by
  rw [List.map_map]
  exact List.map_congr_left fun o _ => o.slot_trait source

theorem slot_extend (more : List Token) (o : ColumnOption) : (o.extend more).slot = o.slot := by
  cases o <;> rfl

theorem extend_nil (o : ColumnOption) : o.extend [] = o := by
  cases o <;> simp [extend]

theorem tokens_extend (h : o.isOpen = true) : (o.extend more).tokens = o.tokens ++ more := by
  cases o <;> first | rfl | contradiction

theorem clear_tokens (h : o.IsWritten) (htaken : o.isTakenIn = true) :
    Clear (endsRun endsColumnOption) o.tokens := by
  have single {t : Token} {k : Keyword} (ht : t.kind = .keyword k)
      (hends : endsColumnOption t = false) : Clear (endsRun endsColumnOption) [t] :=
    .single (by simp [ht]) (by simp [ht]) (by simp [endsRun, ht, hends])
  cases o with
  | null word =>
    have hword : word.kind = .keyword .null := h
    exact single hword (by simp [endsColumnOption, hword])
  | primaryKey primary key =>
    obtain ⟨hprimary, hkey⟩ := h
    exact (single hprimary (by simp [endsColumnOption, hprimary])).append
      (single hkey (by simp [endsColumnOption, hkey]))
  | default kind word expr =>
    obtain ⟨hword, hexpr⟩ := h
    refine (single hword ?_).append hexpr.clear
    cases kind <;> simp [endsColumnOption, hword, DefaultKind.keyword]
  | _ => contradiction

theorem clear_flatMap {options : List ColumnOption}
    (h : ∀ o ∈ options, o.IsWritten ∧ o.isTakenIn = true) :
    Clear (endsRun endsColumnOption) (options.flatMap tokens) := by
  induction options with
  | nil => exact .nil
  | cons o options ih =>
    obtain ⟨⟨ho, htaken⟩, h⟩ := List.forall_mem_cons.1 h
    exact (clear_tokens ho htaken).append (ih h)

theorem isWritten_extend (h : o.IsWritten) (hmore : Clear (endsRun endsColumnOption) more) :
    (o.extend more).IsWritten := by
  cases o with
  | ttl word expr => exact ⟨h.1, by simp [h.2.nonempty], h.2.clear.append hmore⟩
  | default kind word expr => exact ⟨h.1, by simp [h.2.nonempty], h.2.clear.append hmore⟩
  | _ => exact h

/-- The word that an option begins with. -/
theorem exists_word (h : o.IsWritten) :
    ∃ word ts k, o.tokens = word :: ts ∧ word.kind = .keyword k ∧
      (o.isTakenIn = false → endsColumnOption word = true) := by
  cases o with
  | null word => exact ⟨word, [], _, rfl, h, nofun⟩
  | primaryKey primary key => exact ⟨primary, [key], _, rfl, h.1, nofun⟩
  | comment word text => exact ⟨word, [text], _, rfl, h.1, fun _ => by simp [endsColumnOption, h.1]⟩
  | codec word group => exact ⟨word, group, _, rfl, h.1, fun _ => by simp [endsColumnOption, h.1]⟩
  | ttl word expr => exact ⟨word, expr, _, rfl, h.1, fun _ => by simp [endsColumnOption, h.1]⟩
  | default kind word expr => exact ⟨word, expr, _, rfl, h.1, nofun⟩

end ColumnOption

open ColumnOption

section Absorb

variable {options : List ColumnOption} {o : ColumnOption}

/-- What is read of options: an expression takes in those behind it up to one that ends it. -/
def absorb : List ColumnOption → List ColumnOption
  | [] => []
  | o :: options =>
    if o.isOpen then
      o.extend (((absorb options).takeWhile isTakenIn).flatMap tokens) ::
        (absorb options).dropWhile isTakenIn
    else o :: absorb options

/-- Behind every expression there is an option that ends it, or none. -/
def Separate (options : List ColumnOption) : Prop :=
  options.IsChain fun o next => o.isOpen = true → next.isTakenIn = false

/-- Nothing is lost of the text. -/
theorem flatMap_absorb (options : List ColumnOption) :
    (absorb options).flatMap tokens = options.flatMap tokens := by
  induction options with
  | nil => rfl
  | cons o options ih =>
    rw [absorb, List.flatMap_cons, ← ih]
    split_ifs with hopen
    · rw [List.flatMap_cons, tokens_extend hopen, List.append_assoc, ← List.flatMap_append,
        List.takeWhile_append_dropWhile]
    · rw [List.flatMap_cons]

theorem separate_absorb (options : List ColumnOption) : Separate (absorb options) := by
  induction options with
  | nil => exact .nil
  | cons o options ih =>
    rw [absorb]
    split_ifs with hopen
    · refine List.isChain_cons.2 ⟨fun next hnext _ => ?_, ih.suffix (List.dropWhile_suffix _)⟩
      have hhead := List.head?_dropWhile_not isTakenIn (absorb options)
      rwa [Option.mem_def.1 hnext] at hhead
    · exact List.isChain_cons.2 ⟨fun next _ h => absurd h hopen, ih⟩

theorem isWritten_absorb (h : ∀ o ∈ options, o.IsWritten) : ∀ o ∈ absorb options, o.IsWritten := by
  induction options with
  | nil => simp [absorb]
  | cons o options ih =>
    obtain ⟨ho, h⟩ := List.forall_mem_cons.1 h
    have hmem : ∀ o ∈ absorb options, o.IsWritten := ih h
    rw [absorb]
    split_ifs
    · refine List.forall_mem_cons.2 ⟨isWritten_extend ho (clear_flatMap fun o ho => ⟨?_, ?_⟩),
        fun o ho => hmem o ((List.dropWhile_suffix _).subset ho)⟩
      · exact hmem o ((List.takeWhile_prefix _).subset ho)
      · exact List.mem_takeWhile_imp ho
    · exact List.forall_mem_cons.2 ⟨ho, hmem⟩

theorem slots_absorb (options : List ColumnOption) :
    ((absorb options).map slot).Sublist (options.map slot) := by
  induction options with
  | nil => exact .slnil
  | cons o options ih =>
    rw [absorb]
    split_ifs
    · rw [List.map_cons, List.map_cons, slot_extend]
      exact (((List.dropWhile_suffix _).sublist.map slot).trans ih).cons_cons o.slot
    · exact ih.cons_cons o.slot

/-- What is read is an option that is written, perhaps with more in its expression. -/
theorem exists_of_mem_absorb (h : o ∈ absorb options) :
    ∃ o' ∈ options, ∃ more, o = o'.extend more := by
  induction options with
  | nil => contradiction
  | cons o' options ih =>
    have hbehind (h : o ∈ absorb options) : ∃ o'' ∈ o' :: options, ∃ more, o = o''.extend more := by
      obtain ⟨o'', hmem, hmore⟩ := ih h
      exact ⟨o'', List.mem_cons_of_mem _ hmem, hmore⟩
    rw [absorb] at h
    split_ifs at h
    · obtain rfl | h := List.mem_cons.1 h
      · exact ⟨o', List.mem_cons_self, _, rfl⟩
      · exact hbehind ((List.dropWhile_suffix _).subset h)
    · obtain rfl | h := List.mem_cons.1 h
      · exact ⟨o, List.mem_cons_self, [], (extend_nil o).symm⟩
      · exact hbehind h

/-- Where every expression ends in front of the next option, all are read as they are written. -/
theorem absorb_of_separate (h : Separate options) : absorb options = options := by
  induction options with
  | nil => rfl
  | cons o options ih =>
    obtain ⟨hnext, h⟩ := List.isChain_cons.1 h
    rw [absorb, ih h]
    split_ifs with hopen
    · cases options with
      | nil => simp [extend_nil]
      | cons next options => simp [extend_nil, hnext next rfl hopen]
    · rfl

/-- Only an option that an expression can take in, or take something in, is read as another. -/
theorem mem_absorb (h : o ∈ options) (hopen : o.isOpen = false) (htaken : o.isTakenIn = false) :
    o ∈ absorb options := by
  induction options with
  | nil => contradiction
  | cons o' options ih =>
    rw [absorb]
    obtain rfl | h := List.mem_cons.1 h
    · rw [hopen]
      exact List.mem_cons_self
    · split_ifs
      · refine List.mem_cons_of_mem _ ?_
        have hmem := ih h
        rw [← List.takeWhile_append_dropWhile (p := isTakenIn) (l := absorb options)] at hmem
        refine (List.mem_append.1 hmem).resolve_left fun hin => ?_
        rw [List.mem_takeWhile_imp hin] at htaken
        contradiction
      · exact List.mem_cons_of_mem _ (ih h)

end Absorb

section Reading

variable {source : String} {options : List ColumnOption} {o : ColumnOption} {rest : List Token}

theorem ends_of_atItemEnd (h : AtItemEnd rest) :
    ∀ t ∈ rest.head?, endsRun endsColumnOption t = true := by
  intro t ht
  have hkind : t.kind = .comma ∨ t.kind = .closeParen := by
    simpa [AtItemEnd, Option.mem_def.1 ht, Token.endsItem] using h
  obtain hkind | hkind := hkind <;> simp [endsRun, endsColumnOption, hkind]

/-- What stands behind an expression of separate options ends it. -/
theorem ends_next (h : ∀ o ∈ options.head?, o.IsWritten ∧ o.isTakenIn = false)
    (hrest : AtItemEnd rest) :
    ∀ t ∈ (options.flatMap tokens ++ rest).head?, endsRun endsColumnOption t = true := by
  cases options with
  | nil => exact ends_of_atItemEnd hrest
  | cons o options =>
    obtain ⟨ho, htaken⟩ := h o rfl
    obtain ⟨word, ts, k, htokens, -, hends⟩ := exists_word ho
    rw [List.flatMap_cons, htokens]
    rintro _ ⟨⟩
    simp [endsRun, hends htaken]

/-- An option is read as what it says, if the steps suffice. -/
theorem reads_columnOption? (h : o.IsWritten)
    (hnext : o.isOpen = true → ∀ t ∈ rest.head?, endsRun endsColumnOption t = true)
    (hne : rest ≠ []) (column : ColumnDecl) :
    Reads (¬o.Fits) (columnOption? source column) o.tokens rest fun read =>
      o.Fits ∧ read = some (column.withTrait (o.trait source)) := by
  have hsteps {expr : List Token} {limit : Nat} :
      (limit < runSteps expr rest → ¬expr.length < limit) ∧
        (runSteps expr rest ≤ limit → expr.length < limit) := by
    rw [runSteps_of_ne_nil hne]
    omega
  cases o with
  | null word =>
    have hword : word.kind = .keyword .null := h
    refine .peek? ?_
    simp only [ColumnOption.tokens, List.cons_append, List.head?_cons, Option.map_some, hword]
    exact Reads.advance.last fun _ _ => .pure ⟨trivial, by rw [column.admitNull_eq]; rfl⟩
  | primaryKey primary key =>
    refine .peek? ?_
    simp only [ColumnOption.tokens, List.cons_append, List.head?_cons, Option.map_some, h.1]
    refine Reads.advance.next fun _ _ => ?_
    exact (Reads.expectKeyword h.2).last fun _ _ => .pure ⟨trivial, rfl⟩
  | comment word text =>
    refine .peek? ?_
    simp only [ColumnOption.tokens, List.cons_append, List.head?_cons, Option.map_some, h.1]
    have htext : Reads (¬(comment word text).Fits) (expectString .columnComment) [text] rest
        (· = text.text) := ((Reads.expect h.2).mono fun _ ht => by rw [ht]).map
    refine Reads.advance.next fun _ _ => ?_
    exact htext.last_eq (.pure ⟨trivial, rfl⟩)
  | codec word group =>
    refine .peek? ?_
    simp only [ColumnOption.tokens, List.cons_append, List.head?_cons, Option.map_some, h.1]
    refine Reads.advance.next fun _ _ => ?_
    exact ((reads_skipBalanced h.2).weaken Nat.not_le.2).last fun _ hfits => .pure ⟨hfits, rfl⟩
  | ttl word expr =>
    refine .peek? ?_
    simp only [ColumnOption.tokens, List.cons_append, List.head?_cons, Option.map_some, h.1]
    have hrun := ((reads_run h.2.clear (hnext rfl)).weaken hsteps.1).mono fun _ hle => hsteps.2 hle.1
    refine Reads.advance.next fun _ _ => ?_
    exact hrun.discard.last fun _ hfits => .pure ⟨hfits, rfl⟩
  | default kind word expr =>
    refine .peek? ?_
    simp only [ColumnOption.tokens, List.cons_append, List.head?_cons, Option.map_some, h.1]
    have hexpr := ((reads_captureExpression source h.2.nonempty h.2.clear (hnext rfl)).weaken
      hsteps.1).mono fun _ h => And.imp_left hsteps.2 h
    cases kind <;>
    · refine Reads.advance.next fun _ _ => ?_
      refine hexpr.last fun _ h => ?_
      obtain ⟨hfits, rfl⟩ := h
      exact .pure ⟨hfits, rfl⟩

/-- Options that are separate are read as what they say, if the steps suffice for all of them. -/
theorem reads_separate (h : ∀ o ∈ options, o.IsWritten) (hseparate : Separate options)
    (hrest : AtItemEnd rest) {budget : Nat} (hbudget : options.length < budget)
    (column : ColumnDecl) :
    Reads (¬∀ o ∈ options, o.Fits) (columnOptions source budget column) (options.flatMap tokens)
      rest fun read => (∀ o ∈ options, o.Fits) ∧
        read = column.withTraits (options.map (ColumnOption.trait source)) := by
  obtain ⟨budget, rfl⟩ := Nat.exists_eq_add_one_of_ne_zero (Nat.ne_zero_of_lt hbudget)
  induction options generalizing budget column with
  | nil => exact (reads_columnOptions hrest budget column).mono fun _ h => ⟨by simp, h⟩
  | cons o options ih =>
    obtain ⟨ho, h⟩ := List.forall_mem_cons.1 h
    obtain ⟨hnext, hseparate⟩ := List.isChain_cons.1 hseparate
    have hends (hopen : o.isOpen = true) := ends_next
      (fun next hmem => ⟨h next (List.mem_of_mem_head? hmem), hnext next hmem hopen⟩) hrest
    have hne : options.flatMap tokens ++ rest ≠ [] := by
      intro hnil
      rw [AtItemEnd, (List.append_eq_nil_iff.1 hnil).2] at hrest
      contradiction
    have hfirst : Reads (¬(o.Fits ∧ ∀ o ∈ options, o.Fits)) (columnOption? source column) o.tokens
        (options.flatMap tokens ++ rest) _ :=
      (reads_columnOption? ho hends hne column).weaken (mt And.left)
    simp only [List.forall_mem_cons]
    refine hfirst.bind fun read hread => ?_
    obtain ⟨hfits, rfl⟩ := hread
    have hbudget : options.length < budget := Nat.lt_of_succ_lt_succ hbudget
    obtain ⟨budget, rfl⟩ := Nat.exists_eq_add_one_of_ne_zero (Nat.ne_zero_of_lt hbudget)
    refine ((ih h hseparate (column.withTrait (o.trait source)) budget hbudget).weaken
      (mt And.right)).mono fun read hread => ?_
    exact ⟨⟨hfits, hread.1⟩, hread.2⟩

end Reading

/-- The definition of a column, as it is written. -/
structure WrittenColumn where
  name : Token
  type : List Token
  options : List ColumnOption

namespace WrittenColumn

def tokens (d : WrittenColumn) : List Token :=
  d.name :: (d.type ++ d.options.flatMap ColumnOption.tokens)

def traits (source : String) (d : WrittenColumn) : List ColumnTrait :=
  d.options.map (ColumnOption.trait source)

/-- The name and the type are those of the column, and each option is written once at most. -/
structure Defines (source : String) (d : WrittenColumn) (column : ColumnDecl) : Prop where
  name : (d.name.isName || d.name.kind matches .keyword _) = true
  type : columnType (.ofTokens d.type) = .ok column.type ⟨d.type.length, []⟩
  column : column = ⟨d.name.text, column.type, sourceText source d.type, none, none, none⟩
  options : ∀ o ∈ d.options, o.IsWritten
  slots : (d.options.map slot).Nodup

/-- Nothing that tells in the column is lost to an expression: what stands in for a value is read as
it is written, and so is a `NULL`, unless the type is nullable without it. -/
structure Keeps (d : WrittenColumn) (column : ColumnDecl) : Prop where
  fits : ∀ o ∈ absorb d.options, o.Fits
  default : ∀ o ∈ d.options, o.slot = .default → o ∈ absorb d.options
  null : column.type.name ≠ TypeExpr.nullableName →
    ∀ o ∈ d.options, o.slot = .null → o ∈ absorb d.options

/-- What the options say as they are read. -/
def traitsRead (source : String) (d : WrittenColumn) : List ColumnTrait :=
  (absorb d.options).map (ColumnOption.trait source)

variable {source : String} {d : WrittenColumn} {column : ColumnDecl} {o : ColumnOption}
  {before rest : List Token}

namespace Defines

theorem nodup_absorb (h : d.Defines source column) : ((absorb d.options).map slot).Nodup :=
  (slots_absorb d.options).nodup h.slots

theorem nodup_traits (h : d.Defines source column) :
    ((d.traits source).map ColumnTrait.slot).Nodup := by
  rw [traits, map_slot_trait]
  exact h.slots

theorem nodup_traitsRead (h : d.Defines source column) :
    ((d.traitsRead source).map ColumnTrait.slot).Nodup := by
  rw [traitsRead, map_slot_trait]
  exact h.nodup_absorb

/-- Of a slot there is one option, so that what is read for it comes from that one. -/
theorem exists_extend (h : d.Defines source column) (ho : o ∈ d.options) {t : ColumnTrait}
    (ht : t ∈ d.traitsRead source) (hslot : t.slot = o.slot) :
    ∃ more, o.extend more ∈ absorb d.options ∧ (o.extend more).trait source = t := by
  obtain ⟨o', ho', rfl⟩ := List.mem_map.1 ht
  obtain ⟨o'', hmem, more, rfl⟩ := exists_of_mem_absorb ho'
  rw [slot_trait, slot_extend] at hslot
  obtain rfl := List.inj_on_of_nodup_map h.slots hmem ho hslot
  exact ⟨more, ho', rfl⟩

/-- An option that is read as it is written says what it says. -/
theorem mem_traitsRead (h : d.Defines source column) {t : ColumnTrait}
    (hkept : ∀ o ∈ d.options, o.slot = t.slot → o ∈ absorb d.options) :
    t ∈ d.traitsRead source ↔ t ∈ d.traits source := by
  constructor
  · intro ht
    obtain ⟨o', ho', rfl⟩ := List.mem_map.1 ht
    obtain ⟨o, ho, more, rfl⟩ := exists_of_mem_absorb ho'
    have hslot : o.slot = (o.extend more).slot := (slot_extend more o).symm
    have hin : o ∈ absorb d.options := hkept o ho (hslot.trans (slot_trait source _).symm)
    rw [← List.inj_on_of_nodup_map h.nodup_absorb hin ho' hslot]
    exact List.mem_map.2 ⟨o, ho, rfl⟩
  · intro ht
    obtain ⟨o, ho, rfl⟩ := List.mem_map.1 ht
    exact List.mem_map.2 ⟨o, hkept o ho (slot_trait source o).symm, rfl⟩

/-- If nothing that tells is lost, the options say what they are written to say. -/
theorem withTraits_of_keeps (h : d.Defines source column) (hkeeps : d.Keeps column) :
    column.withTraits (d.traitsRead source) = column.withTraits (d.traits source) := by
  refine ColumnDecl.withTraits_congr h.nodup_traitsRead h.nodup_traits ?_ (fun text => ?_)
    fun kind expr => h.mem_traitsRead hkeeps.default
  · rw [ColumnDecl.type_withTraits, ColumnDecl.type_withTraits]
    by_cases hname : column.type.name = TypeExpr.nullableName
    · rw [TypeExpr.admitNull_of_nullable hname, ite_self, ite_self]
    · simp only [h.mem_traitsRead (t := .nullable) (hkeeps.null hname)]
  · refine h.mem_traitsRead fun o ho hslot => ?_
    cases o with
    | comment word text => exact mem_absorb ho rfl rfl
    | _ => contradiction

theorem default_of_withTraits (h : d.Defines source column)
    (htokens : tokenize source = before ++ (d.tokens ++ rest))
    (heq : column.withTraits (d.traitsRead source) = column.withTraits (d.traits source))
    (ho : o ∈ d.options) (hslot : o.slot = .default) : o ∈ absorb d.options := by
  cases o with
  | default kind word expr =>
    have htrait : .default kind (sourceText source expr) ∈ d.traits source :=
      List.mem_map.2 ⟨_, ho, rfl⟩
    have hread := congrArg ColumnDecl.fallback heq
    rw [ColumnDecl.fallback_withTraits h.nodup_traits htrait] at hread
    obtain ⟨kind', expr', ht⟩ : ∃ kind' expr', .default kind' expr' ∈ d.traitsRead source := by
      by_contra hnone
      push Not at hnone
      rw [ColumnDecl.fallback_withTraits_of_forall hnone, h.column] at hread
      cases hread
    rw [ColumnDecl.fallback_withTraits h.nodup_traitsRead ht] at hread
    obtain ⟨more, hin, htext⟩ := h.exists_extend ho ht rfl
    -- the text of the expression is that of its own tokens, so that there are no others in it
    have hsame : sourceText source (expr ++ more) = sourceText source expr := by
      have htext' : sourceText source (expr ++ more) = expr' := (ColumnTrait.default.inj htext).2
      rw [htext']
      exact Option.some.inj (Prod.mk.inj hread).2
    have hmore : more = [] := by
      by_contra hne
      obtain ⟨front, back, hsplit⟩ := List.append_of_mem hin
      have hplace : tokenize source =
          (before ++ d.name :: d.type ++ front.flatMap ColumnOption.tokens ++ [word]) ++
            (expr ++ more ++ (back.flatMap ColumnOption.tokens ++ rest)) := by
        rw [htokens, WrittenColumn.tokens, ← flatMap_absorb, hsplit]
        simp [extend, ColumnOption.tokens]
      exact sourceText_append_ne hplace (h.options _ ho).2.nonempty hne hsame
    rw [hmore, extend_nil] at hin
    exact hin
  | _ => contradiction

theorem null_of_withTraits (h : d.Defines source column)
    (heq : column.withTraits (d.traitsRead source) = column.withTraits (d.traits source))
    (hname : column.type.name ≠ TypeExpr.nullableName) (ho : o ∈ d.options)
    (hslot : o.slot = .null) : o ∈ absorb d.options := by
  cases o with
  | null word =>
    have htrait : .nullable ∈ d.traits source := List.mem_map.2 ⟨_, ho, rfl⟩
    have htype := congrArg ColumnDecl.type heq
    rw [ColumnDecl.type_withTraits, ColumnDecl.type_withTraits, if_pos htrait] at htype
    by_cases ht : .nullable ∈ d.traitsRead source
    · obtain ⟨more, hin, -⟩ := h.exists_extend ho ht rfl
      exact hin
    · rw [if_neg ht] at htype
      rw [htype, TypeExpr.name_admitNull] at hname
      contradiction
  | _ => contradiction

end Defines

/-- A definition is read as the column with what its options say as they are read. -/
theorem Defines.reads (h : d.Defines source column) (hrest : AtItemEnd rest) :
    Reads (¬∀ o ∈ absorb d.options, o.Fits) (columnDef source) d.tokens rest fun read =>
      (∀ o ∈ absorb d.options, o.Fits) ∧ read = column.withTraits (d.traitsRead source) := by
  have hname : Reads (¬∀ o ∈ absorb d.options, o.Fits) expectColumnName [d.name]
      (d.type ++ d.options.flatMap ColumnOption.tokens ++ rest) (· = d.name.text) :=
    ((Reads.require h.name).mono fun _ ht => by rw [ht]).map
  obtain ⟨taken, hmoved, -, htype⟩ := reads_typeExpr_of_ok h.type
  obtain rfl : d.type = taken := by simpa [Cursor.ofTokens] using hmoved.rest
  have hparen : (d.options.flatMap ColumnOption.tokens ++ rest).head?.any (·.kind == .openParen) =
      false := by
    cases hoptions : d.options with
    | nil => exact hrest.not_kind (by decide)
    | cons o options =>
      obtain ⟨word, ts, k, htokens, hword, -⟩ := exists_word (h.options o (by simp [hoptions]))
      simp [htokens, hword]
  have hcount : (absorb d.options).length < (Ceiling.steps .columnOptions).limit :=
    Nat.lt_of_le_of_lt (length_le_of_slots ColumnSlot.mem_all h.nodup_absorb) (by decide)
  refine hname.next_eq ?_
  refine reads_since (f := fun ty ts => columnOptions source (Ceiling.steps .columnOptions).limit
      ⟨d.name.text, ty, sourceText source ts, none, none, none⟩)
    ((htype d.type _ rfl hparen).weaken False.elim) (takes_typeExpr maxTypeDepth) fun ty hty => ?_
  obtain rfl := hty
  rw [← h.column, ← flatMap_absorb]
  exact reads_separate (isWritten_absorb h.options) (separate_absorb d.options) hrest hcount column

end WrittenColumn

open WrittenColumn

/-- A definition is read as the column with all that its options say, in whatever order they say it,
exactly if nothing that tells is lost to an expression. -/
theorem columnDef_eq_ok_iff {source : String} {d : WrittenColumn} {column : ColumnDecl}
    {traits : List ColumnTrait} {before rest : List Token} (h : d.Defines source column)
    (htraits : (d.traits source).Perm traits)
    (htokens : tokenize source = before ++ (d.tokens ++ rest)) (hrest : AtItemEnd rest) (p : Nat) :
    columnDef source ⟨p, d.tokens ++ rest⟩ =
        .ok (column.withTraits traits) ⟨p + d.tokens.length, rest⟩ ↔ d.Keeps column := by
  rw [← ColumnDecl.withTraits_perm h.nodup_traits htraits column]
  constructor
  · intro hok
    obtain ⟨-, hfits, hread⟩ := (h.reads hrest).of_ok hok
    exact ⟨hfits, fun o ho hslot => h.default_of_withTraits htokens hread.symm ho hslot,
      fun hname o ho hslot => h.null_of_withTraits hread.symm hname ho hslot⟩
  · intro hkeeps
    have hreads := (h.reads hrest).weaken fun hfits => hfits hkeeps.fits
    obtain ⟨read, c, hok, hbehind, -, rfl⟩ := hreads.exists_ok p
    obtain ⟨hmoved, -⟩ := hreads.moved (takes_columnDef _) hok
    rw [hok, h.withTraits_of_keeps hkeeps]
    obtain ⟨position, behind⟩ := c
    obtain rfl : behind = rest := hbehind
    obtain rfl : position = p + d.tokens.length := hmoved.position
    rfl

theorem WrittenColumn.keeps_of_separate {d : WrittenColumn} (h : Separate d.options)
    (hfits : ∀ o ∈ d.options, o.Fits) (column : ColumnDecl) : d.Keeps column := by
  have hread : ∀ o ∈ d.options, o ∈ absorb d.options := by
    rw [absorb_of_separate h]
    exact fun o ho => ho
  refine ⟨?_, fun o ho _ => hread o ho, fun _ o ho _ => hread o ho⟩
  rwa [absorb_of_separate h]

/-- Two definitions of a column whose options say the same, in whatever order, declare the same
column, and each of them is read as this column exactly if nothing that tells is lost in it to an
expression. -/
theorem columnDef_rearranged {source source' : String} {d d' : WrittenColumn} {column : ColumnDecl}
    {before before' rest rest' : List Token} (h : d.Defines source column)
    (h' : d'.Defines source' column) (hsame : (d.traits source).Perm (d'.traits source'))
    (htokens : tokenize source = before ++ (d.tokens ++ rest))
    (htokens' : tokenize source' = before' ++ (d'.tokens ++ rest'))
    (hrest : AtItemEnd rest) (hrest' : AtItemEnd rest') (p p' : Nat) :
    column.withTraits (d.traits source) = column.withTraits (d'.traits source') ∧
    (columnDef source ⟨p, d.tokens ++ rest⟩ =
        .ok (column.withTraits (d.traits source)) ⟨p + d.tokens.length, rest⟩ ↔ d.Keeps column) ∧
    (columnDef source' ⟨p', d'.tokens ++ rest'⟩ =
        .ok (column.withTraits (d'.traits source')) ⟨p' + d'.tokens.length, rest'⟩ ↔
      d'.Keeps column) :=
  ⟨ColumnDecl.withTraits_perm h.nodup_traits hsame column,
    columnDef_eq_ok_iff h (.refl _) htokens hrest p,
    columnDef_eq_ok_iff h' (.refl _) htokens' hrest' p'⟩

section NullAndDefault

def nullThenDefault : String := "CREATE TABLE t (a UInt8 NULL DEFAULT 1)"

def defaultThenNull : String := "CREATE TABLE t (a UInt8 DEFAULT 1 NULL)"

/-- A token of ASCII characters on the first line of a text. -/
def firstLineToken (kind : TokenKind) (text : String) (offset : Nat) : Token :=
  ⟨kind, text, ⟨offset, text.utf8ByteSize, 1, offset + 1⟩⟩

/-- The column without its options. -/
def bareColumn : ColumnDecl := ⟨"a", .plain "UInt8", "UInt8", none, none, none⟩

def nullFirst : WrittenColumn where
  name := firstLineToken .identifier "a" 16
  type := [firstLineToken .identifier "UInt8" 18]
  options := [.null (firstLineToken (.keyword .null) "NULL" 24),
    .default .default (firstLineToken (.keyword .default) "DEFAULT" 29)
      [firstLineToken .number "1" 37]]

def nullLast : WrittenColumn where
  name := nullFirst.name
  type := nullFirst.type
  options := [.default .default (firstLineToken (.keyword .default) "DEFAULT" 24)
      [firstLineToken .number "1" 32],
    .null (firstLineToken (.keyword .null) "NULL" 34)]

def listEnd : Token := firstLineToken .closeParen ")" 38

theorem isOptionExpr_number {t : Token} (h : t.kind = .number) : IsOptionExpr [t] :=
  ⟨nofun, .single (by simp [h]) (by simp [h]) (by simp [endsRun, endsColumnOption, h])⟩

theorem defines_nullFirst : nullFirst.Defines nullThenDefault bareColumn where
  name := rfl
  type := rfl
  column := by
    have htext : sourceText nullThenDefault nullFirst.type = "UInt8" := by decide +kernel
    rw [htext]
    rfl
  options := List.forall_mem_cons.2
    ⟨rfl, List.forall_mem_singleton.2 ⟨rfl, isOptionExpr_number rfl⟩⟩
  slots := by decide

theorem defines_nullLast : nullLast.Defines defaultThenNull bareColumn where
  name := rfl
  type := rfl
  column := by
    have htext : sourceText defaultThenNull nullLast.type = "UInt8" := by decide +kernel
    rw [htext]
    rfl
  options := List.forall_mem_cons.2
    ⟨⟨rfl, isOptionExpr_number rfl⟩, List.forall_mem_singleton.2 rfl⟩
  slots := by decide

/-- In front of a default `NULL` makes the type nullable, behind it it does not. -/
theorem columnDef_rearranged_null :
    (columnDef nullThenDefault ⟨4, nullFirst.tokens ++ [listEnd]⟩ =
      .ok (bareColumn.withTraits [.nullable, .default .default "1"]) ⟨9, [listEnd]⟩) ∧
    columnDef defaultThenNull ⟨4, nullLast.tokens ++ [listEnd]⟩ ≠
      .ok (bareColumn.withTraits [.nullable, .default .default "1"]) ⟨9, [listEnd]⟩ := by
  have hfirst : nullFirst.traits nullThenDefault = [.nullable, .default .default "1"] := by
    decide +kernel
  have hlast : nullLast.traits defaultThenNull = [.default .default "1", .nullable] := by
    decide +kernel
  have hperm : (nullFirst.traits nullThenDefault).Perm (nullLast.traits defaultThenNull) := by
    rw [hfirst, hlast]
    exact .swap _ _ []
  have htokens : tokenize nullThenDefault =
      (tokenize nullThenDefault).take 4 ++ (nullFirst.tokens ++ [listEnd]) := by decide +kernel
  have htokens' : tokenize defaultThenNull =
      (tokenize defaultThenNull).take 4 ++ (nullLast.tokens ++ [listEnd]) := by decide +kernel
  obtain ⟨heq, hread, hread'⟩ := columnDef_rearranged defines_nullFirst defines_nullLast hperm
    htokens htokens' rfl rfl 4 4
  have hlost : ¬nullLast.Keeps bareColumn := fun hkeeps =>
    absurd (hkeeps.null (by decide) _ (List.mem_cons_of_mem _ List.mem_cons_self) rfl) (by decide)
  rw [← heq] at hread'
  rw [hfirst] at hread hread'
  refine ⟨hread.2 (WrittenColumn.keeps_of_separate ?_ ?_ bareColumn), mt hread'.1 hlost⟩
  · exact .cons_cons nofun (.singleton _)
  · have hfits : 1 < (Ceiling.steps .expression).limit := by decide
    exact List.forall_mem_cons.2 ⟨trivial, List.forall_mem_singleton.2 hfits⟩

theorem types_of_defaultThenNull :
    (readColumns? nullThenDefault).map (·.map (·.2.display)) = some ["Nullable(UInt8)"] ∧
    (readColumns? defaultThenNull).map (·.map (·.2.display)) = some ["UInt8"] := by
  decide +kernel

end NullAndDefault

end Grammar

end TypedTables
