import TypedTables.Proofs.Resolve.Settled
import TypedTables.Proofs.TypeExpr.Visited

/-!
Strict resolution, with no plugins to answer for types: it refuses tables in which a type reaches an
unknown one, and does to all others what resolution does without it.
-/

namespace TypedTables

/-- The mapped table with a note that it has been resolved strictly. -/
def MappedTable.strict (table : MappedTable) : MappedTable :=
  { table with representation := { table.representation with failOnUnknownLeaf := true } }

/-- No column has a type that reaches an unknown one. -/
def MappedTable.AllKnown (table : MappedTable) : Prop :=
  ∀ column ∈ table.columns, ¬ column.type.ReachesUnknown

section Lists

variable {α β γ : Type} {P : α → γ → Prop} {Q : α → β → Prop} {p : β → Prop} {f : β → γ}

/-- Pairs that are made of other pairs element by element. -/
theorem forall₂_iff_exists_map (h : ∀ a c, P a c ↔ ∃ b, Q a b ∧ p b ∧ c = f b) {as : List α}
    {cs : List γ} :
    List.Forall₂ P as cs ↔ ∃ bs, List.Forall₂ Q as bs ∧ (∀ b ∈ bs, p b) ∧ cs = bs.map f := by
  induction as generalizing cs with
  | nil =>
    constructor
    · rintro ⟨⟩
      exact ⟨[], .nil, nofun, rfl⟩
    · rintro ⟨_, ⟨⟩, -, rfl⟩
      exact .nil
  | cons a as ih =>
    constructor
    · rintro (_ | ⟨hc, hcs⟩)
      obtain ⟨b, hb, hpb, rfl⟩ := (h a _).1 hc
      obtain ⟨bs, hbs, hpbs, rfl⟩ := ih.1 hcs
      exact ⟨b :: bs, .cons hb hbs, List.forall_mem_cons.2 ⟨hpb, hpbs⟩, rfl⟩
    · rintro ⟨_, _ | ⟨hb, hbs⟩, hp, rfl⟩
      obtain ⟨hpb, hpbs⟩ := List.forall_mem_cons.1 hp
      exact .cons ((h a _).2 ⟨_, hb, hpb, rfl⟩) (ih.2 ⟨_, hbs, hpbs, rfl⟩)

end Lists

section Strict

variable {options : ResolveOptions}

theorem TsType.plainFold_strict (options : MappingOptions) :
    plainFold { options with failOnUnknownLeaf := true } =
      (plainFold { options with failOnUnknownLeaf := false }).refusing .unknownLeaf := rfl

theorem mapType_strict (hp : options.plugins = []) {table column text : String} {ty : TypeExpr} :
    mapType { options with failOnUnknownLeaf := true } table column ty = .ok text ↔
      mapType { options with failOnUnknownLeaf := false } table column ty = .ok text ∧
        ¬ ty.ReachesUnknown := by
  have hmap (refuse : Bool) : mapType { options with failOnUnknownLeaf := refuse } table column ty =
      TsType.text <$> (TsType.plainFold
        { options.toMappingOptions with failOnUnknownLeaf := refuse }).run ty := mapType_eq hp
  rw [hmap, hmap, TsType.plainFold_strict, map_eq_ok, map_eq_ok, ← exists_and_right]
  refine exists_congr fun mapped => ?_
  rw [TypeFold.run, TypeFold.runWithin_refusing (TsType.plainFold_plain _), and_right_comm]
  rfl

theorem ColumnDecl.resolve_strict (hp : options.plugins = []) {table : String}
    {column : ColumnDecl} {resolved : ResolvedColumn} :
    column.resolve { options with failOnUnknownLeaf := true } table = .ok resolved ↔
      column.resolve { options with failOnUnknownLeaf := false } table = .ok resolved ∧
        ¬ resolved.type.ReachesUnknown := by
  unfold resolve
  dsimp only
  rw [bind_eq_ok, bind_eq_ok]
  simp only [mapType_strict hp]
  constructor
  · rintro ⟨text, ⟨htext, hknown⟩, ⟨⟩⟩
    exact ⟨⟨text, htext, rfl⟩, hknown⟩
  · rintro ⟨⟨text, htext, ⟨⟩⟩, hknown⟩
    exact ⟨text, ⟨htext, hknown⟩, rfl⟩

theorem TableDecl.resolve_strict (hp : options.plugins = []) (table : TableDecl)
    (mapped : MappedTable) :
    table.resolve { options with failOnUnknownLeaf := true } = .ok mapped ↔
      ∃ lax, table.resolve { options with failOnUnknownLeaf := false } = .ok lax ∧
        lax.AllKnown ∧ mapped = lax.strict := by
  have hcolumns (columns : List ResolvedColumn) :
      List.Forall₂ (fun column resolved => column.resolve
          { options with failOnUnknownLeaf := true } table.name = .ok resolved)
        table.columns columns ↔
      List.Forall₂ (fun column resolved => column.resolve
          { options with failOnUnknownLeaf := false } table.name = .ok resolved)
        table.columns columns ∧ ∀ column ∈ columns, ¬ column.type.ReachesUnknown := by
    constructor
    · intro h
      refine ⟨h.imp fun _ _ hcolumn => ((ColumnDecl.resolve_strict hp).1 hcolumn).1, ?_⟩
      intro resolved hresolved
      obtain ⟨column, -, hcolumn⟩ := exists_of_forall₂ h.flip hresolved
      exact ((ColumnDecl.resolve_strict hp).1 hcolumn).2
    · rintro ⟨h, hknown⟩
      refine ((List.forall₂_and_left _ _).2 ⟨hknown, h.flip⟩).flip.imp fun _ _ hcolumn => ?_
      exact (ColumnDecl.resolve_strict hp).2 hcolumn.symm
  unfold resolve
  rw [bind_eq_ok]
  simp only [bind_eq_ok, mapM_eq_ok, hcolumns]
  constructor
  · rintro ⟨columns, ⟨hresolved, hknown⟩, h⟩
    exact ⟨_, ⟨columns, hresolved, rfl⟩, hknown, (Except.ok.inj h).symm⟩
  · rintro ⟨_, ⟨columns, hresolved, ⟨⟩⟩, hknown, rfl⟩
    exact ⟨columns, ⟨hresolved, hknown⟩, rfl⟩

/-- Strict resolution succeeds where resolution does and no type in the result reaches an unknown
one, and then it gives the same tables with a note that they have been resolved strictly. -/
theorem resolve_strict_iff (hp : options.plugins = []) {tables : List TableDecl}
    {mapped : List MappedTable} :
    resolve { options with failOnUnknownLeaf := true } tables = .ok mapped ↔
      ∃ lax, resolve { options with failOnUnknownLeaf := false } tables = .ok lax ∧
        (∀ table ∈ lax, table.AllKnown) ∧ mapped = lax.map MappedTable.strict := by
  rw [resolve_eq_ok_iff, forall₂_iff_exists_map (TableDecl.resolve_strict hp)]
  simp only [resolve_eq_ok_iff, and_assoc, exists_and_left]

/-- Unknown names where no shape looks: in the key of a map, and as the name of a function. -/
def pageVisits : TableDecl where
  name := "visits"
  columns := [
    ⟨"pages", .mk "Map" [.type (.plain "Page"), .type (.plain "UInt64")], "Map(Page, UInt64)",
      none, none, none⟩,
    ⟨"last", .mk "SimpleAggregateFunction" [.type (.plain "anyLast"), .type (.plain "Date")],
      "SimpleAggregateFunction(anyLast, Date)", none, none, none⟩]

theorem resolve_strict_iff_pageVisits : ∃ lax,
    resolve { failOnUnknownLeaf := false } [pageVisits] = .ok lax ∧ (∀ table ∈ lax, table.AllKnown) ∧
      resolve { failOnUnknownLeaf := true } [pageVisits] = .ok (lax.map MappedTable.strict) := by
  have h : (resolve { failOnUnknownLeaf := true } [pageVisits]).toOption.any (fun _ => true) =
      true := by
    decide +kernel
  obtain ⟨mapped, hmapped, -⟩ := exists_of_any h
  obtain ⟨lax, hlax, hknown, rfl⟩ := (@resolve_strict_iff {} rfl [pageVisits] mapped).1 hmapped
  exact ⟨lax, hlax, hknown, hmapped⟩

end Strict

end TypedTables
