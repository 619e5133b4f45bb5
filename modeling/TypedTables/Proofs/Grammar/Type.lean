import TypedTables.Grammar.Type
import TypedTables.Proofs.TypeExpr.Within

/-!
What steps of the grammar yield when they do not fail, wherever they start; and that the types they
yield keep to the ceilings.
-/

namespace TypedTables

namespace Grammar

variable {α β : Type}

/-- Every result of the step has the property. -/
def Yields (g : Grammar α) (P : α → Prop) : Prop := ∀ c a c', g c = .ok a c' → P a

namespace Yields

variable {g : Grammar α} {f : α → Grammar β} {P : α → Prop} {Q : β → Prop}

theorem pure {a : α} (h : P a) : Yields (pure a) P := by
  rintro c a' c' ⟨⟩
  exact h

theorem bind (hg : Yields g P) (hf : ∀ a, P a → Yields (f a) Q) : Yields (g >>= f) Q := by
  intro c b c' h
  change EStateM.bind g f c = _ at h
  unfold EStateM.bind at h
  cases hc : g c with
  | ok a c₁ =>
    rw [hc] at h
    exact hf a (hg c a c₁ hc) c₁ b c' h
  | error e c₁ =>
    rw [hc] at h
    contradiction

theorem mono {P' : α → Prop} (hg : Yields g P) (h : ∀ a, P a → P' a) : Yields g P' :=
  fun c a c' hc => h a (hg c a c' hc)

/-- A first step of which nothing is asked. -/
theorem seq (hf : ∀ a, Yields (f a) Q) : Yields (g >>= f) Q :=
  bind (P := fun _ => True) (fun _ _ _ _ => trivial) fun a _ => hf a

theorem error {e : Error} : Yields (throw e : Grammar α) P := nofun

theorem unexpected {fault : Fault} : Yields (unexpected fault : Grammar α) P := nofun

theorem check {ceiling : Ceiling} {value : Nat} :
    Yields (check ceiling value) fun _ => value ≤ ceiling.limit := by
  intro c a c' h
  unfold Grammar.check at h
  cases hc : ceiling.check value with
  | ok => exact Ceiling.check_eq_ok.1 hc
  | error e =>
    rw [hc] at h
    contradiction

end Yields

section Types

variable {inner : Grammar TypeExpr} {P : TypeExpr → Prop}

/-- Of an argument only a type is asked for. -/
def ArgOf (P : TypeExpr → Prop) (arg : TypeArg) : Prop := ∀ ty ∈ arg.type?, P ty

theorem yields_typeArg (h : Yields inner P) : Yields (typeArg inner) (ArgOf P) := by
  unfold typeArg
  refine .seq fun token? => ?_
  split
  · exact .unexpected
  · split_ifs
    · refine .seq fun _ => .seq fun equals => ?_
      split
      · exact .seq fun _ => .pure nofun
      · exact .pure nofun
    · exact .seq fun _ => .pure nofun
    · exact .seq fun _ => .seq fun _ => .pure nofun
    · refine .seq fun named => ?_
      have htype : Yields (do return .type (← inner)) (ArgOf P) := h.bind fun ty hty =>
        .pure fun _ heq => by cases heq; exact hty
      split
      · exact .seq fun _ => htype
      · exact htype
    · exact .unexpected

/-- Whether so many arguments are below the ceiling of a type, if it has one. -/
def Accepts (name : String) (count : Nat) : Prop :=
  ∀ ceiling ∈ argumentCeiling? name, count ≤ ceiling.limit

theorem yields_checkArguments (name : String) (args : Array TypeArg) :
    Yields (checkArguments name args) fun _ => Accepts name args.size := by
  unfold checkArguments Accepts
  cases argumentCeiling? name with
  | none => exact .pure nofun
  | some ceiling => exact Yields.check.mono fun _ h _ heq => by cases heq; exact h

theorem yields_typeArgs (h : Yields inner P) (name : String) (budget : Nat) (args : Array TypeArg)
    (hargs : ∀ arg ∈ args, ArgOf P arg) :
    Yields (typeArgs inner name budget args) fun args =>
      (∀ arg ∈ args, ArgOf P arg) ∧ Accepts name args.size := by
  induction budget generalizing args with
  | zero => exact .error
  | succ budget ih =>
    refine (yields_typeArg h).bind fun arg harg => ?_
    have hpush : ∀ a ∈ args.push arg, ArgOf P a := fun a ha => by
      obtain ha | rfl := Array.mem_push.1 ha
      exacts [hargs a ha, harg]
    refine (yields_checkArguments name _).bind fun _ hcount => .seq fun comma => ?_
    split
    · exact ih _ hpush
    · exact .seq fun _ => .pure ⟨hpush, hcount⟩

theorem within_of_args {room : Nat} {name : String} {args : List TypeArg}
    (hargs : ∀ arg ∈ args, ArgOf (·.Within room) arg) (hcount : Accepts name args.length) :
    (TypeExpr.mk name args).Within (room + 1) := by
  refine TypeExpr.within_succ (fun ty hty => ?_) (fun hname => ?_) (fun hname => ?_)
  · obtain ⟨arg, harg, heq⟩ := List.mem_filterMap.1 hty
    exact hargs arg harg ty heq
  · obtain rfl : name = "Tuple" := hname
    exact hcount .tupleArity rfl
  · obtain (rfl | rfl) | rfl : (name = "Enum" ∨ name = "Enum8") ∨ name = "Enum16" := by
      simpa [isEnumName] using hname
    all_goals exact hcount .enumMembers rfl

/-- A type that has been read is no deeper than there was room, and keeps to the other ceilings. -/
theorem yields_typeExpr (room : Nat) : Yields (typeExpr room) (·.Within room) := by
  induction room with
  | zero => exact .error
  | succ room ih =>
    refine .seq fun t => .seq fun opened => ?_
    split
    · refine .seq fun closed => ?_
      split
      · exact .pure (TypeExpr.within_plain _ room)
      · refine (yields_typeArgs ih _ _ #[] (by simp)).bind fun args hargs => .pure ?_
        exact within_of_args (by simpa using hargs.1) (by simpa using hargs.2)
    · exact .pure (TypeExpr.within_plain _ room)

end Types

end Grammar

end TypedTables
