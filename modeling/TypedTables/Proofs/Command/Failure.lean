import TypedTables.Command.Run
import TypedTables.Proofs.Render.Failure

/-!
Commands that fail with an error of the library have written no file and printed nothing. Up to the
rendering of the tables a command only reads, and the renderers fail before the first of them has
been written out or not at all.
-/

namespace TypedTables

/-- Files and output are as before; messages may have been added. -/
def Workspace.Untouched (before after : Workspace) : Prop := ∃ warned, after = { before with warned }

namespace Command

variable {α β : Type}

section Harmless

/-- A program that leaves files and output as they are. -/
def Harmless (program : StateM Workspace α) : Prop :=
  ∀ workspace : Workspace, workspace.Untouched (program.run workspace).2

namespace Harmless

theorem pure (a : α) : Harmless (pure a) := fun workspace => ⟨workspace.warned, rfl⟩

theorem bind {program : StateM Workspace α} {next : α → StateM Workspace β}
    (h : Harmless program) (hnext : ∀ a, Harmless (next a)) : Harmless (program >>= next) := by
  intro workspace
  obtain ⟨warned, h⟩ := h workspace
  obtain ⟨warned', hnext⟩ := hnext (program.run workspace).1 (program.run workspace).2
  refine ⟨warned', ?_⟩
  change ((next (program.run workspace).1).run (program.run workspace).2).2 = _
  rw [hnext, h]

theorem ite {c : Prop} [Decidable c] {program program' : StateM Workspace α}
    (h : Harmless program) (h' : Harmless program') : Harmless (if c then program else program') := by
  split <;> assumption

theorem mapM {f : α → StateM Workspace β} (h : ∀ a, Harmless (f a)) (xs : List α) :
    Harmless (xs.mapM f) := by
  induction xs with
  | nil => exact .pure []
  | cons x xs ih =>
    rw [List.mapM_cons]
    exact (h x).bind fun _ => ih.bind fun _ => .pure _

theorem forM {f : α → StateM Workspace Unit} (h : ∀ a, Harmless (f a)) (xs : Array α) :
    Harmless (xs.forM f) := by
  obtain ⟨xs⟩ := xs
  change Harmless (ForM.forM xs.toArray f)
  rw [List.forM_toArray]
  induction xs with
  | nil => exact .pure ()
  | cons x xs ih => exact (h x).bind fun _ => ih

end Harmless

section Host

variable (path : String)

theorem harmless_read : Harmless (Workspace.host.read path) := fun w => ⟨w.warned, rfl⟩

theorem harmless_isThere : Harmless (Workspace.host.isThere path) := fun w => ⟨w.warned, rfl⟩

theorem harmless_isDirectory : Harmless (Workspace.host.isDirectory path) := fun w => ⟨w.warned, rfl⟩

theorem harmless_names : Harmless (Workspace.host.names path) := fun w => ⟨w.warned, rfl⟩

theorem harmless_directories : Harmless Workspace.host.directories := fun w => ⟨w.warned, rfl⟩

theorem harmless_warn (text : String) : Harmless (Workspace.host.warn text) :=
  fun w => ⟨w.warned ++ text, rfl⟩

theorem harmless_searchFrom (needsDirectory : Bool) (fuel : Nat) (patterns : List Pattern) :
    Harmless (PathPattern.searchFrom Workspace.host needsDirectory fuel patterns path) := by
  induction fuel generalizing patterns path with
  | zero =>
    cases patterns with
    | nil => exact (harmless_isDirectory path).bind fun _ => .ite (.pure _) (.pure _)
    | cons pattern rest => exact .pure []
  | succ fuel ih =>
    cases patterns with
    | nil => exact (harmless_isDirectory path).bind fun _ => .ite (.pure _) (.pure _)
    | cons pattern rest =>
      have fits (name : String) (rest : List Pattern) (next : String) :
          Harmless (if pattern.fits name.toList then
            PathPattern.searchFrom Workspace.host needsDirectory fuel rest next
          else pure []) := .ite (ih _ _) (.pure [])
      unfold PathPattern.searchFrom
      split
      · have found (isThere : Bool) (next : String) : Harmless (if isThere then
            PathPattern.searchFrom Workspace.host needsDirectory fuel rest next
          else pure []) := .ite (ih _ _) (.pure [])
        exact .ite ((harmless_isDirectory _).bind fun _ => found _ _)
          ((harmless_isThere _).bind fun _ => found _ _)
      · refine (harmless_isDirectory path).bind fun _ => .ite (.pure []) ?_
        refine Harmless.bind (.mapM (fun name => ih _ _) _) fun around => ?_
        refine (harmless_names path).bind fun names => ?_
        refine Harmless.bind (.mapM (fun name => ?_) _) fun within => .pure _
        refine .ite ((harmless_isDirectory _).bind fun isDirectory => ?_) (.ite (ih _ _) (.pure []))
        have below (found : List String) (patterns : List Pattern) (next : String) :
            Harmless (if isDirectory then do
                return found ++
                  (← PathPattern.searchFrom Workspace.host needsDirectory fuel patterns next)
              else return found ++ []) :=
          .ite ((ih _ _).bind fun _ => .pure _) (.pure _)
        cases rest.dropWhile Pattern.isDeep with
        | nil => exact below _ _ _
        | cons after rest => exact .ite ((ih _ _).bind fun _ => below _ _ _) (below _ _ _)

end Host

section Task

variable {task : Task (StateM Workspace) α} {next : α → Task (StateM Workspace) β}

theorem Harmless.then (h : Harmless task.run) (hnext : ∀ a, Harmless (next a).run) :
    Harmless (task >>= next).run := by
  rw [ExceptT.run_bind]
  refine Harmless.bind h fun result => ?_
  cases result with
  | ok a => exact hnext a
  | error failure => exact .pure _

theorem Harmless.lift {program : StateM Workspace α} (h : Harmless program) :
    Harmless (ExceptT.lift (ε := Failure) program).run := by
  change Harmless (Except.ok <$> program)
  rw [map_eq_pure_bind]
  exact h.bind fun _ => .pure _

theorem Harmless.mapM_task {f : α → Task (StateM Workspace) β} (h : ∀ a, Harmless (f a).run)
    (xs : List α) : Harmless (xs.mapM f).run := by
  induction xs with
  | nil => exact .pure _
  | cons x xs ih =>
    rw [List.mapM_cons]
    exact (h x).then fun _ => ih.then fun _ => .pure _

theorem harmless_attempt {ε : Type} (failure : ε → Failure) (result : Except ε α) :
    Harmless (attempt (m := StateM Workspace) failure result).run := .pure _

theorem harmless_readFile (path : String) : Harmless (readFile Workspace.host path).run :=
  (harmless_read path).lift.then fun _ => harmless_attempt _ _

theorem harmless_readConfig (path : String) : Harmless (readConfig Workspace.host path).run := by
  refine (harmless_readFile path).then fun text => ?_
  split <;> exact .pure _

theorem harmless_firstConfig? (directories : List String) :
    Harmless (firstConfig? Workspace.host directories) := by
  induction directories with
  | nil => exact .pure none
  | cons directory rest ih => exact (harmless_isThere _).bind fun _ => .ite (.pure _) ih

theorem harmless_findConfig (given : Option String) :
    Harmless (findConfig Workspace.host given).run := by
  cases given with
  | some path => exact harmless_readConfig path
  | none =>
    refine harmless_directories.lift.then fun directories => ?_
    refine (harmless_firstConfig? directories).lift.then fun path? => ?_
    cases path? with
    | some path => exact harmless_readConfig path
    | none => exact .pure _

theorem harmless_filesOf (name : String) : Harmless (filesOf Workspace.host name).run := by
  unfold filesOf
  split
  · refine (harmless_attempt _ _).then fun pattern => ?_
    exact (harmless_searchFrom _ _ _ _).lift
  · exact .pure _

theorem harmless_readTables (quiet : Bool) (path : String) :
    Harmless (readTables Workspace.host quiet path).run := by
  refine (harmless_readFile path).then fun text => (harmless_attempt _ _).then fun report => ?_
  have hshow : Harmless (showDiagnostics Workspace.host path text report) :=
    .forM (fun diagnostic => harmless_warn _) _
  split
  · exact hshow.lift.then fun _ => .pure _
  · exact .pure _

theorem harmless_loadTables (quiet : Bool) (config : Config) :
    Harmless (loadTables Workspace.host quiet config).run := by
  refine (harmless_attempt _ _).then fun options => ?_
  refine (Harmless.mapM_task harmless_filesOf config.files).then fun files => ?_
  have hrest : Harmless (do
      let declarations := (← files.flatten.mapM (readTables Workspace.host quiet)).flatten
      attempt (m := StateM Workspace) .error (resolve options declarations)).run :=
    (Harmless.mapM_task (harmless_readTables quiet) _).then fun _ => harmless_attempt _ _
  dsimp only
  split
  · exact .pure _
  · exact hrest

end Task

end Harmless

section Failure

variable {task : Task (StateM Workspace) α} {next : α → Task (StateM Workspace) β}

/-- A task that has left files and output as they were if it fails with an error of the library. -/
def FailsClean (task : Task (StateM Workspace) α) : Prop :=
  ∀ (workspace : Workspace) (e : Error), (task.run.run workspace).1 = .error (.error e) →
    workspace.Untouched (task.run.run workspace).2

/-- A task that fails with no error of the library. -/
def NeverErrs (task : Task (StateM Workspace) α) : Prop :=
  ∀ (workspace : Workspace) (e : Error), (task.run.run workspace).1 ≠ .error (.error e)

theorem Harmless.failsClean (h : Harmless task.run) : FailsClean task := fun workspace _ _ =>
  h workspace

theorem NeverErrs.failsClean (h : NeverErrs task) : FailsClean task := fun workspace e he =>
  absurd he (h workspace e)

theorem run_bind (workspace : Workspace) : (task >>= next).run.run workspace =
    match (task.run.run workspace).1 with
    | .ok a => (next a).run.run (task.run.run workspace).2
    | .error failure => (.error failure, (task.run.run workspace).2) := by
  rw [ExceptT.run_bind, StateT.run_bind]
  obtain ⟨result, after⟩ := task.run.run workspace
  cases result with
  | ok a => rfl
  | error failure => rfl

theorem FailsClean.bind (h : Harmless task.run) (hnext : ∀ a, FailsClean (next a)) :
    FailsClean (task >>= next) := by
  intro workspace e he
  obtain ⟨warned, h⟩ := h workspace
  rw [run_bind] at he ⊢
  cases hr : (task.run.run workspace).1 with
  | ok a =>
    rw [hr] at he
    obtain ⟨warned', hnext⟩ := hnext a _ e he
    exact ⟨warned', by rw [hnext, h]⟩
  | error failure => exact ⟨warned, h⟩

theorem NeverErrs.bind (h : NeverErrs task) (hnext : ∀ a, NeverErrs (next a)) :
    NeverErrs (task >>= next) := by
  intro workspace e he
  rw [run_bind] at he
  cases hr : (task.run.run workspace).1 with
  | ok a =>
    rw [hr] at he
    exact hnext a _ e he
  | error failure =>
    rw [hr] at he
    exact h workspace e (hr.trans (congrArg Except.error (Except.error.inj he)))

theorem NeverErrs.ite {c : Prop} [Decidable c] {task' : Task (StateM Workspace) α}
    (h : NeverErrs task) (h' : NeverErrs task') : NeverErrs (if c then task else task') := by
  split <;> assumption

theorem NeverErrs.pure (a : α) : NeverErrs (pure a) := by
  intro workspace e he
  change Except.ok a = _ at he
  contradiction

theorem NeverErrs.lift (program : StateM Workspace α) :
    NeverErrs (ExceptT.lift (ε := Failure) program) := by
  intro workspace e he
  change Except.ok (program.run workspace).1 = _ at he
  contradiction

theorem neverErrs_deliver (file : Option String) (text : String) :
    NeverErrs (deliver Workspace.host file text) := by
  cases file with
  | none => exact .lift _
  | some path =>
    refine NeverErrs.bind (.lift _) fun result => ?_
    cases result with
    | ok => exact .pure _
    | error fault =>
      intro workspace e he
      change Except.error (Failure.file fault) = _ at he
      exact nomatch he

theorem failsClean_generateOutputs (quiet : Bool) (given : GenerateArguments) :
    FailsClean (generateOutputs Workspace.host quiet given) := by
  refine .bind (harmless_findConfig _) fun config => ?_
  dsimp only
  split
  · exact Harmless.failsClean (.pure _)
  refine .bind (harmless_loadTables _ _) fun tables => ?_
  generalize (given.validators || config.emitValidators.getD false) = validators
  generalize given.emit.getD config.defaultEmit = emit
  have hrender := failAlike_render tables validators
  generalize Interface.render validators tables = interfaces, JsonSchema.render tables = schema
    at hrender ⊢
  cases hrender with
  | ok interfaces schema =>
    refine NeverErrs.failsClean ?_
    have hwarn : NeverErrs (if !quiet then liftM (Workspace.host.warn
        ("Generated types for " ++ toString tables.length ++ " table(s)\n")) else pure ()) :=
      .ite (.lift _) (.pure _)
    have hschema := (neverErrs_deliver (given.schemaFile.or config.schemaFile) schema).bind
      fun _ => hwarn
    have hinterfaces {task : Task (StateM Workspace) Unit} (h : NeverErrs task) :=
      (neverErrs_deliver (given.interfacesFile.or config.interfacesFile) interfaces).bind fun _ => h
    exact .ite (hinterfaces (.ite hschema hwarn)) (.ite hschema hwarn)
  | error e =>
    refine Harmless.failsClean ?_
    cases emit with
    | interfaces | jsonSchema | all => exact .pure _

theorem FailsClean.finish (h : FailsClean task) (hnext : ∀ a, NeverErrs (next a)) :
    FailsClean (task >>= next) := by
  intro workspace e he
  rw [run_bind] at he ⊢
  cases hr : (task.run.run workspace).1 with
  | ok a =>
    rw [hr] at he
    exact absurd he (hnext a _ e)
  | error failure =>
    rw [hr] at he
    exact h workspace e (hr.trans (congrArg Except.error (Except.error.inj he)))

theorem failsClean_listTables (quiet : Bool) (files : List String) (mapping : MappingArguments)
    (format : Format) : FailsClean (listTables Workspace.host quiet files mapping format) :=
  .bind (harmless_findConfig _) fun _ => .bind (harmless_loadTables _ _) fun _ =>
    NeverErrs.failsClean (.lift _)

theorem failsClean_parseFile (quiet : Bool) (path : String) :
    FailsClean (parseFile Workspace.host quiet path) := by
  refine .bind (harmless_readFile path) fun text => .bind (harmless_attempt _ _) fun report => ?_
  refine NeverErrs.failsClean (NeverErrs.bind (.lift _) fun _ => ?_)
  dsimp only
  split
  · exact NeverErrs.bind (.lift _) fun _ => .pure _
  · exact .pure _

theorem failsClean_perform (invocation : Invocation) :
    FailsClean (perform Workspace.host invocation) := by
  unfold perform
  split
  · exact (failsClean_generateOutputs _ _).finish fun _ => .pure _
  · exact (failsClean_listTables _ _ _ _).finish fun _ => .pure _
  · exact (failsClean_parseFile _ _).finish fun _ => .pure _

/-- A command that has been performed ends in no failure. -/
theorem perform_eq_ok {invocation : Invocation} {workspace : Workspace} {outcome : Outcome}
    (h : ((perform Workspace.host invocation).run.run workspace).1 = .ok outcome) :
    outcome = .done ∨ outcome = .incomplete := by
  have then_done {α : Type} {task : Task (StateM Workspace) α} {next : α → Outcome}
      (hnext : ∀ a, next a = .done ∨ next a = .incomplete)
      (h : ((task >>= fun a => pure (next a)).run.run workspace).1 = .ok outcome) :
      outcome = .done ∨ outcome = .incomplete := by
    rw [run_bind] at h
    cases hr : (task.run.run workspace).1 with
    | ok a =>
      rw [hr] at h
      exact Except.ok.inj h ▸ hnext a
    | error failure =>
      rw [hr] at h
      exact nomatch h
  unfold perform at h
  split at h
  · exact then_done (fun _ => .inl rfl) h
  · exact then_done (fun _ => .inl rfl) h
  · refine then_done (fun skipped => ?_) h
    cases skipped with
    | true => exact .inr rfl
    | false => exact .inl rfl

theorem untouched_of_run {args : List String} {before after : Workspace} {e : Error}
    (h : (run Workspace.host args).run before = (.failed (.error e), after)) :
    before.Untouched after := by
  unfold run at h
  split at h
  · cases h
  · cases h
  · cases h
  · next invocation _ =>
    have hclean := failsClean_perform invocation before
    have hok := @perform_eq_ok invocation before
    rw [StateT.run_bind] at h
    cases hr : (perform Workspace.host invocation).run.run before with
    | mk result between =>
      rw [hr] at h hclean hok
      cases result with
      | ok outcome =>
        cases h
        exact absurd (hok rfl) (by simp)
      | error failure =>
        cases h
        exact hclean e rfl

/-- The renderers fail alike, whatever the tables. So a command line that ends in an error of the
library has written no file and printed nothing, wherever its results were to go. -/
theorem renderers_fail_together :
    (∀ tables, FailAlike (Interface.render false tables) (Interface.render true tables) ∧
      FailAlike (Interface.render true tables) (JsonSchema.render tables)) ∧
    ∀ (args : List String) (before after : Workspace) (e : Error),
      (run Workspace.host args).run before = (.failed (.error e), after) →
        ∃ warned, after = { before with warned } := by
  refine ⟨fun tables => ⟨?_, failAlike_render tables true⟩, fun _ _ _ _ h => untouched_of_run h⟩
  exact (failAlike_render tables false).trans (failAlike_render tables true).symm

def collidingNames : Workspace where
  root := .directory [("a.sql", .file "CREATE TABLE a (x Int8); CREATE TABLE A (x Int8)")]
  here := []

theorem renderers_fail_together_collidingNames : ∃ e after,
    (run Workspace.host ["generate", "--emit", "all", "--ts-out", "a.ts", "a.sql"]).run
        collidingNames = (.failed (.error e), after) ∧
      ∃ warned, after = { collidingNames with warned } := by
  have h : (match ((run Workspace.host
      ["generate", "--emit", "all", "--ts-out", "a.ts", "a.sql"]).run collidingNames).1 with
    | .failed (.error _) => true
    | _ => false) = true := by decide +kernel
  split at h
  · next e hfailed =>
    refine ⟨e, _, Prod.ext hfailed rfl, ?_⟩
    exact renderers_fail_together.2 _ _ _ e (Prod.ext hfailed rfl)
  · contradiction

end Failure

end Command

end TypedTables
