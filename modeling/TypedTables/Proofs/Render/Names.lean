import TypedTables.Proofs.Resolve.Mapped
import TypedTables.Render.Interface
import TypedTables.Render.JsonSchema

/-!
Rendering what has been resolved: nothing but names can go wrong, and all renderers agree on which
names do.
-/

namespace TypedTables

open Text

/-- The columns have names, and no two have the same. -/
structure MappedTable.ColumnNamesFit (table : MappedTable) : Prop where
  present : ∀ column ∈ table.columns, allBlank column.name = false
  distinct : (table.columns.map (·.name)).Nodup

/-- The names in the output are there and differ. -/
structure NamesFit (tables : List MappedTable) : Prop where
  present : ∀ table ∈ tables, table.declaredName ≠ ""
  distinct : (tables.map (·.declaredName)).Nodup
  columns : ∀ table ∈ tables, table.ColumnNamesFit

instance (table : MappedTable) : Decidable table.ColumnNamesFit :=
  decidable_of_iff ((∀ column ∈ table.columns, allBlank column.name = false) ∧
      (table.columns.map (·.name)).Nodup)
    ⟨fun ⟨h, h'⟩ => ⟨h, h'⟩, fun ⟨h, h'⟩ => ⟨h, h'⟩⟩

instance (tables : List MappedTable) : Decidable (NamesFit tables) :=
  decidable_of_iff ((∀ table ∈ tables, table.declaredName ≠ "") ∧
      (tables.map (·.declaredName)).Nodup ∧ ∀ table ∈ tables, table.ColumnNamesFit)
    ⟨fun ⟨h, h', h''⟩ => ⟨h, h', h''⟩, fun ⟨h, h', h''⟩ => ⟨h, h', h''⟩⟩

/-- Errors about a name in the output that is not there or not the only one of its kind. -/
inductive NameError : Error → Prop
  | noDeclaredName (table : String) : NameError (.validation (.noDeclaredName table))
  | sameDeclaredName (first second name : String) :
    NameError (.validation (.sameDeclaredName first second name))
  | noColumnName (column table : String) :
    NameError (.validation (.badColumn column table .emptyName))
  | sameColumnName (first second table name : String) :
    NameError (.validation (.sameColumnName first second table name))

section Unseen

variable {α : Type} {nameOf : α → String} {seen : Index α} {x : α} {xs : List α}

/-- No two elements have the same name, and none has the name of one that is in the index. -/
def Unseen (nameOf : α → String) (seen : Index α) (xs : List α) : Prop :=
  (xs.map nameOf).Nodup ∧ ∀ x ∈ xs, seen.get? (nameOf x) = none

theorem unseen_empty : Unseen nameOf .empty xs ↔ (xs.map nameOf).Nodup := by simp [Unseen]

theorem unseen_cons : Unseen nameOf seen (x :: xs) ↔
    seen.get? (nameOf x) = none ∧ Unseen nameOf (seen.insert (nameOf x) x) xs := by
  have hinsert : (∀ y ∈ xs, (seen.insert (nameOf x) x).get? (nameOf y) = none) ↔
      nameOf x ∉ xs.map nameOf ∧ ∀ y ∈ xs, seen.get? (nameOf y) = none := by
    simp only [Index.get?_insert, List.mem_map, not_exists, not_and]
    rw [← forall₂_and]
    refine forall₂_congr fun y _ => ?_
    split_ifs with heq <;> simp [heq]
  simp only [Unseen, List.map_cons, List.nodup_cons, List.forall_mem_cons, hinsert]
  tauto

end Unseen

section Checks

theorem ResolvedColumn.problem?_of_typed {column : ResolvedColumn} (h : column.Typed) :
    column.problem? = if allBlank column.name then some .emptyName else none := by
  simp [problem?, h.known, h.mapped]

theorem checkColumns_eq_ok {table : String} {seen : Index ResolvedColumn}
    {columns : List ResolvedColumn} (h : ∀ column ∈ columns, column.Typed) :
    checkColumns table seen columns = .ok () ↔
      (∀ column ∈ columns, allBlank column.name = false) ∧
        Unseen ResolvedColumn.name seen columns := by
  induction columns generalizing seen with
  | nil => simp [checkColumns, Unseen]
  | cons column columns ih =>
    obtain ⟨hcolumn, hcolumns⟩ := List.forall_mem_cons.1 h
    rw [checkColumns, column.problem?_of_typed hcolumn, unseen_cons, List.forall_mem_cons]
    cases hs : seen.get? column.name with
    | some first => simp
    | none =>
      cases hb : allBlank column.name with
      | true => simp
      | false => simpa using ih hcolumns

theorem nameError_of_checkColumns {table : String} {seen : Index ResolvedColumn}
    {columns : List ResolvedColumn} (h : ∀ column ∈ columns, column.Typed) {e : Error}
    (he : checkColumns table seen columns = .error e) : NameError e := by
  induction columns generalizing seen with
  | nil => contradiction
  | cons column columns ih =>
    obtain ⟨hcolumn, hcolumns⟩ := List.forall_mem_cons.1 h
    rw [checkColumns, column.problem?_of_typed hcolumn] at he
    cases hs : seen.get? column.name with
    | some first =>
      rw [hs] at he
      cases he
      exact .sameColumnName ..
    | none =>
      cases hb : allBlank column.name with
      | true =>
        rw [hs, hb] at he
        cases he
        exact .noColumnName ..
      | false =>
        rw [hs, hb] at he
        exact ih hcolumns he

theorem checkTables_cons {seen : Index MappedTable} {table : MappedTable} (h : table.Typed)
    (tables : List MappedTable) :
    checkTables seen (table :: tables) =
      if table.declaredName = "" then .error (.validation (.noDeclaredName table.sourceName))
      else match seen.get? table.declaredName with
        | some first => .error (.validation
            (.sameDeclaredName first.sourceName table.sourceName table.declaredName))
        | none => checkColumns table.sourceName .empty table.columns >>= fun _ =>
            checkTables (seen.insert table.declaredName table) tables := by
  have hname : allBlank table.declaredName = decide (table.declaredName = "") := by
    rw [Bool.eq_iff_iff, decide_eq_true_iff]
    exact ⟨h.declaredName, fun heq => heq ▸ rfl⟩
  rw [checkTables, h.sourceName, hname, Bool.or_false, Ceiling.check_eq_ok.2 h.count]
  simp only [decide_eq_true_eq]
  split_ifs
  · rfl
  · cases seen.get? table.declaredName <;> rfl

theorem of_checkTables_cons {seen : Index MappedTable} {table : MappedTable}
    {tables : List MappedTable} (h : checkTables seen (table :: tables) = .ok ()) :
    seen.get? table.declaredName = none ∧
      checkColumns table.sourceName .empty table.columns = .ok () ∧
      checkTables (seen.insert table.declaredName table) tables = .ok () := by
  rw [checkTables] at h
  split at h
  · contradiction
  · cases hs : seen.get? table.declaredName with
    | some first =>
      rw [hs] at h
      contradiction
    | none =>
      rw [hs] at h
      obtain ⟨-, h⟩ := Ceiling.check_bind_eq_ok.1 h
      obtain ⟨⟨⟩, hcolumns, h⟩ := bind_eq_ok.1 h
      exact ⟨rfl, hcolumns, h⟩

theorem checkTables_eq_ok {seen : Index MappedTable} {tables : List MappedTable}
    (h : ∀ table ∈ tables, table.Typed) :
    checkTables seen tables = .ok () ↔
      (∀ table ∈ tables, table.declaredName ≠ "" ∧ table.ColumnNamesFit) ∧
        Unseen MappedTable.declaredName seen tables := by
  induction tables generalizing seen with
  | nil => simp [checkTables, Unseen]
  | cons table tables ih =>
    obtain ⟨htable, htables⟩ := List.forall_mem_cons.1 h
    rw [checkTables_cons htable, unseen_cons, List.forall_mem_cons]
    split_ifs with hname
    · simp [hname]
    · cases hs : seen.get? table.declaredName with
      | some first => simp
      | none =>
        have hcolumns : checkColumns table.sourceName .empty table.columns = .ok () ↔
            table.ColumnNamesFit := by
          rw [checkColumns_eq_ok htable.columns, unseen_empty]
          exact ⟨fun ⟨h, h'⟩ => ⟨h, h'⟩, fun ⟨h, h'⟩ => ⟨h, h'⟩⟩
        simp only [bind_eq_ok, ih htables, hcolumns, exists_const, ne_eq, hname,
          not_false_eq_true, true_and, and_assoc]

theorem nameError_of_checkTables {seen : Index MappedTable} {tables : List MappedTable}
    (h : ∀ table ∈ tables, table.Typed) {e : Error}
    (he : checkTables seen tables = .error e) : NameError e := by
  induction tables generalizing seen with
  | nil => contradiction
  | cons table tables ih =>
    obtain ⟨htable, htables⟩ := List.forall_mem_cons.1 h
    rw [checkTables_cons htable] at he
    split_ifs at he
    · cases he
      exact .noDeclaredName ..
    · split at he
      · cases he
        exact .sameDeclaredName ..
      · obtain he | ⟨_, -, he⟩ := bind_eq_error.1 he
        · exact nameError_of_checkColumns htable.columns he
        · exact ih htables he

theorem validateTables_eq_ok {tables : List MappedTable}
    (hcount : tables.length ≤ Ceiling.tableCount.limit) (h : ∀ table ∈ tables, table.Typed) :
    validateTables tables = .ok () ↔ NamesFit tables := by
  rw [validateTables, Ceiling.check_eq_ok.2 hcount]
  change checkTables .empty tables = .ok () ↔ _
  rw [checkTables_eq_ok h, unseen_empty]
  exact ⟨fun ⟨h, h'⟩ => ⟨fun t ht => (h t ht).1, h', fun t ht => (h t ht).2⟩,
    fun h => ⟨fun t ht => ⟨h.present t ht, h.columns t ht⟩, h.distinct⟩⟩

theorem nameError_of_validateTables {tables : List MappedTable}
    (hcount : tables.length ≤ Ceiling.tableCount.limit) (h : ∀ table ∈ tables, table.Typed)
    {e : Error} (he : validateTables tables = .error e) : NameError e := by
  rw [validateTables, Ceiling.check_eq_ok.2 hcount] at he
  exact nameError_of_checkTables h he

end Checks

section Render

theorem TypeFold.exists_run {α : Type} {fold : TypeFold α} (hp : fold.Plain) (ht : fold.Total)
    {column : ResolvedColumn} (h : column.Typed) : ∃ a, fold.run column.type = .ok a :=
  (exists_runWithin_iff hp ht).2 h.within

variable {tables : List MappedTable}

theorem Interface.Usage.exists_ofTables (h : ∀ table ∈ tables, table.Typed) :
    ∃ usage, ofTables tables = .ok usage := by
  refine exists_bind (exists_mapM_iff.2 fun table ht => ?_) fun _ => ⟨_, rfl⟩
  refine exists_bind (exists_mapM_iff.2 fun column hc => ?_) fun _ => ⟨_, rfl⟩
  have htyped := (h table ht).columns column hc
  exact exists_bind (fold.exists_run (fun _ _ => rfl) (fun _ => ⟨_, rfl⟩) htyped) fun _ => ⟨_, rfl⟩

theorem Validator.exists_ofTable {table : MappedTable} (h : table.Typed) :
    ∃ expr, ofTable table = .ok expr := by
  refine exists_bind (exists_mapM_iff.2 fun column hc => ?_) fun _ => ⟨_, rfl⟩
  exact exists_bind (TypeFold.exists_run (fun _ _ => rfl) (fun _ => ⟨_, rfl⟩) (h.columns column hc))
    fun _ => ⟨_, rfl⟩

theorem Interface.exists_declaration (validators : Bool) {table : MappedTable} (h : table.Typed) :
    ∃ text, declaration validators table = .ok text := by
  unfold declaration
  cases validators with
  | true => exact exists_bind (exists_map _ (Validator.exists_ofTable h)) fun _ => ⟨_, rfl⟩
  | false => exact ⟨_, rfl⟩

theorem JsonSchema.exists_ofTable {table : MappedTable} (h : table.Typed) :
    ∃ json, ofTable table = .ok json := by
  refine exists_bind (exists_mapM_iff.2 fun column hc => ?_) fun _ => ⟨_, rfl⟩
  refine exists_bind (exists_bind ?_ fun _ => ⟨_, rfl⟩) fun _ => ⟨_, rfl⟩
  exact TypeFold.exists_run (fun _ _ => rfl) (fun _ => ⟨_, rfl⟩) (h.columns column hc)

/-- A renderer that checks its tables and cannot fail behind that. -/
def ChecksOnly {β : Type} (tables : List MappedTable) (render : Except Error β) : Prop :=
  ∃ rest : Except Error β, (∃ b, rest = .ok b) ∧ render = validateTables tables >>= fun _ => rest

theorem Interface.checksOnly_render (validators : Bool) (h : ∀ table ∈ tables, table.Typed) :
    ChecksOnly tables (render validators tables) := by
  refine ⟨_, exists_bind (Usage.exists_ofTables h) fun usage => ?_, rfl⟩
  refine exists_bind (exists_mapM_iff.2 fun table ht => ?_) fun _ => ⟨_, rfl⟩
  exact exists_declaration validators (h table ht)

theorem JsonSchema.checksOnly_render (h : ∀ table ∈ tables, table.Typed) :
    ChecksOnly tables (render tables) := by
  refine ⟨_, exists_bind (exists_mapM_iff.2 fun table ht => ?_) fun _ => ⟨_, rfl⟩, bind_assoc ..⟩
  exact exists_bind (exists_ofTable (h table ht)) fun _ => ⟨_, rfl⟩

theorem ChecksOnly.exists_iff {β : Type} {render : Except Error β} (h : ChecksOnly tables render) :
    (∃ b, render = .ok b) ↔ validateTables tables = .ok () := by
  obtain ⟨_, ⟨b, rfl⟩, rfl⟩ := h
  cases validateTables tables with
  | ok => exact ⟨fun _ => rfl, fun _ => ⟨b, rfl⟩⟩
  | error e => exact ⟨nofun, nofun⟩

theorem ChecksOnly.error {β : Type} {render : Except Error β} (h : ChecksOnly tables render)
    {e : Error} (he : render = .error e) : validateTables tables = .error e := by
  obtain ⟨_, ⟨b, rfl⟩, rfl⟩ := h
  obtain he | ⟨_, -, he⟩ := bind_eq_error.1 he
  · exact he
  · contradiction

/-- Tables that have been resolved are rendered, by every renderer, exactly when their names fit, and
what is reported if they do not is a name. -/
theorem render_resolved {options : ResolveOptions} (hp : options.plugins = [])
    {decls : List TableDecl} (h : resolve options decls = .ok tables) :
    (∀ validators, ((∃ text, Interface.render validators tables = .ok text) ↔ NamesFit tables) ∧
      ∀ e, Interface.render validators tables = .error e → NameError e) ∧
    ((∃ text, JsonSchema.render tables = .ok text) ↔ NamesFit tables) ∧
      ∀ e, JsonSchema.render tables = .error e → NameError e := by
  obtain ⟨hcount, htyped⟩ := typed_of_resolve hp h
  have fits {render : Except Error String} (hr : ChecksOnly tables render) :
      ((∃ text, render = .ok text) ↔ NamesFit tables) ∧ ∀ e, render = .error e → NameError e :=
    ⟨hr.exists_iff.trans (validateTables_eq_ok hcount htyped),
      fun e he => nameError_of_validateTables hcount htyped (hr.error he)⟩
  exact ⟨fun validators => fits (Interface.checksOnly_render validators htyped),
    fits (JsonSchema.checksOnly_render htyped)⟩

def userEvents : TableDecl where
  name := "user_events"
  columns := [⟨"id", .plain "UInt64", "UInt64", none, none, none⟩]

theorem render_resolved_userEvents : ∃ tables,
    resolve {} [userEvents] = .ok tables ∧ (∃ text, Interface.render true tables = .ok text) ∧
      ∃ text, JsonSchema.render tables = .ok text := by
  have h : (resolve {} [userEvents]).toOption.any (fun tables => NamesFit tables) = true := by
    decide +kernel
  obtain ⟨tables, hr, h⟩ := exists_of_any h
  have hfit := of_decide_eq_true h
  obtain ⟨hi, hj, -⟩ := render_resolved rfl hr
  exact ⟨tables, hr, (hi true).1.2 hfit, hj.2 hfit⟩

end Render

end TypedTables
