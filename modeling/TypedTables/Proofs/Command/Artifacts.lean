import TypedTables.Proofs.Command.Failure
import TypedTables.Proofs.Files.Write

/-!
Where the texts are that a command has generated. The one that is written last always stands where
it was to go; the other one does unless both were to go to one file.
-/

namespace TypedTables

namespace Workspace

/-- The text, and nothing else, stands where it was to go: in a file, or else on the output. -/
def Delivered (before after : Workspace) (text : String) : Option String → Prop
  | some path => after.read path = .ok text
  | none => after.printed = before.printed ++ text

/-- Both destinations are files, and the same one. -/
def SameFile (workspace : Workspace) : Option String → Option String → Prop
  | some path, some path' => ∃ place, workspace.root.resolve workspace.here path = .ok place ∧
      workspace.root.resolve workspace.here path' = .ok place
  | _, _ => False

section Untouched

variable {before before' after after' : Workspace} {text : String} {sink sink' : Option String}

theorem Untouched.trans (h : before.Untouched before') (h' : before'.Untouched after) :
    before.Untouched after := by
  obtain ⟨warned, rfl⟩ := h
  obtain ⟨warned', rfl⟩ := h'
  exact ⟨warned', rfl⟩

theorem Untouched.delivered_iff (h : before.Untouched before') (h' : after.Untouched after') :
    before.Delivered after' text sink ↔ before'.Delivered after text sink := by
  obtain ⟨warned, rfl⟩ := h
  obtain ⟨warned', rfl⟩ := h'
  cases sink <;> rfl

theorem Untouched.sameFile_iff (h : after.Untouched after') :
    after'.SameFile sink sink' ↔ after.SameFile sink sink' := by
  obtain ⟨warned, rfl⟩ := h
  cases sink <;> cases sink' <;> rfl

end Untouched

end Workspace

namespace Command

section Deliver

variable {α β : Type} {task : Task (StateM Workspace) α} {next : α → Task (StateM Workspace) β}
  {before after : Workspace}

theorem run_bind_eq_ok {b : β} : (task >>= next).run.run before = (.ok b, after) ↔
    ∃ a between, task.run.run before = (.ok a, between) ∧
      (next a).run.run between = (.ok b, after) := by
  rw [run_bind]
  cases hr : task.run.run before with
  | mk result between =>
    cases result with
    | ok a =>
      refine ⟨fun h => ⟨a, between, rfl, h⟩, fun ⟨a', between', ha, h⟩ => ?_⟩
      cases ha
      exact h
    | error failure => exact ⟨nofun, fun ⟨a, between', ha, _⟩ => nomatch ha⟩

theorem attempt_eq_ok {ε : Type} {failure : ε → Failure} {result : Except ε α} {a : α}
    (h : (attempt (m := StateM Workspace) failure result).run.run before = (.ok a, after)) :
    result = .ok a ∧ after = before := by
  cases result with
  | ok a' =>
    cases h
    exact ⟨rfl, rfl⟩
  | error e => cases h

theorem attempt_bind_eq_ok {ε : Type} {failure : ε → Failure} {result : Except ε α} {b : β}
    (h : (attempt (m := StateM Workspace) failure result >>= next).run.run before =
      (.ok b, after)) :
    ∃ a, result = .ok a ∧ (next a).run.run before = (.ok b, after) := by
  obtain ⟨a, between, ha, hnext⟩ := run_bind_eq_ok.1 h
  obtain ⟨hresult, rfl⟩ := attempt_eq_ok ha
  exact ⟨a, hresult, hnext⟩

theorem Harmless.untouched {program : StateM Workspace α} (h : Harmless program) {a : α}
    (hrun : program.run before = (a, after)) : before.Untouched after := by
  have huntouched := h before
  rwa [hrun] at huntouched

theorem print_eq_ok {text : String}
    (h : (deliver Workspace.host none text).run.run before = (.ok (), after)) :
    after = { before with printed := before.printed ++ text } := by
  cases h
  rfl

theorem write_eq_ok {path text : String}
    (h : (deliver Workspace.host (some path) text).run.run before = (.ok (), after)) :
    before.write path text = (.ok (), after) := by
  obtain ⟨result, between, hwrite, h⟩ := run_bind_eq_ok.1 h
  obtain ⟨rfl, rfl⟩ := attempt_eq_ok h
  change (Except.ok (before.write path text).1, (before.write path text).2) =
    ((Except.ok (Except.ok ()), after) : Except Failure _ × Workspace) at hwrite
  obtain ⟨hresult, hafter⟩ := Prod.mk.inj hwrite
  exact Prod.ext (Except.ok.inj hresult) hafter

/-- Of two texts written one after the other the last one stands, and the first one does, too, if
it is not in the same file. -/
theorem delivered_of_two {between : Workspace} {text text' : String} {sink sink' : Option String}
    (h : (deliver Workspace.host sink text).run.run before = (.ok (), between))
    (h' : (deliver Workspace.host sink' text').run.run between = (.ok (), after))
    (hne : text ≠ text') (hfile : ¬(sink.isNone = true ∧ sink'.isNone = true)) :
    before.Delivered after text' sink' ∧
      (before.Delivered after text sink ↔ ¬after.SameFile sink sink') := by
  cases sink with
  | none =>
    obtain rfl := print_eq_ok h
    cases sink' with
    | none => exact absurd ⟨rfl, rfl⟩ hfile
    | some path' =>
      obtain ⟨place, root, rfl, hplace, hread, -⟩ := Workspace.exists_of_write (write_eq_ok h')
      exact ⟨(Tree.read_eq_ok hplace).2 hread, iff_of_true rfl not_false⟩
  | some path =>
    obtain ⟨place, root, rfl, hplace, hread, -⟩ := Workspace.exists_of_write (write_eq_ok h)
    cases sink' with
    | none =>
      obtain rfl := print_eq_ok h'
      exact ⟨rfl, iff_of_true ((Tree.read_eq_ok hplace).2 hread) not_false⟩
    | some path' =>
      obtain ⟨place', root', rfl, hplace', hread', hgrows⟩ :=
        Workspace.exists_of_write (write_eq_ok h')
      have hplace := Tree.resolve_of_grows hgrows hplace
      refine ⟨(Tree.read_eq_ok hplace').2 hread', (Tree.read_eq_ok hplace).trans ?_⟩
      have hsame : Workspace.SameFile { before with root := root' } (some path) (some path') ↔
          place = place' := by
        refine ⟨fun ⟨common, hcommon, hcommon'⟩ => ?_, fun h => ⟨place, hplace, h ▸ hplace'⟩⟩
        exact Except.ok.inj (hplace.symm.trans hcommon |>.trans (hcommon'.symm.trans hplace'))
      rw [hsame]
      constructor
      · rintro hkept rfl
        exact hne (Tree.file.inj (Option.some.inj (hkept.symm.trans hread')))
      · exact fun hapart => hgrows.files place (mt List.mem_singleton.1 hapart) text hread

end Deliver

section Generate

variable {quiet : Bool} {given : GenerateArguments} {before after : Workspace}

theorem generateOutputs_of_run {args : List String}
    (hargs : ofArguments args = .ok ⟨.generate given, quiet⟩)
    (hrun : (run Workspace.host args).run before = (.done, after)) :
    (generateOutputs Workspace.host quiet given).run.run before = (.ok (), after) := by
  unfold run at hrun
  rw [hargs] at hrun
  dsimp only at hrun
  rw [StateT.run_bind] at hrun
  cases hr : (perform Workspace.host ⟨.generate given, quiet⟩).run.run before with
  | mk result between =>
    rw [hr] at hrun
    cases result with
    | error failure => cases hrun
    | ok outcome =>
      cases hrun
      obtain ⟨⟨⟩, between, h, hdone⟩ := run_bind_eq_ok.1 hr
      cases hdone
      exact h

theorem interfaces_ne_schema {validators : Bool} {tables : List MappedTable}
    {interfaces schema : String} (hinterfaces : Interface.render validators tables = .ok interfaces)
    (hschema : JsonSchema.render tables = .ok schema) : interfaces ≠ schema := by
  have hslash : interfaces.toList.head? = some '/' := by
    obtain ⟨-, -, h⟩ := bind_eq_ok.1 hinterfaces
    obtain ⟨usage, -, h⟩ := bind_eq_ok.1 h
    obtain ⟨sections, -, h⟩ := bind_eq_ok.1 h
    cases h
    rw [String.append_assoc, String.append_assoc, String.toList_append]
    rfl
  have hbrace : schema.toList.head? = some '\x7b' := by
    obtain ⟨documents, -, h⟩ := bind_eq_ok.1 hschema
    cases h
    rw [Json.ofFields, Json.pretty, String.toList_append]
    cases documents.foldl (fun fields field => Json.setField field.1 field.2 fields) [] with
    | nil => rfl
    | cons field fields =>
      rw [Json.prettyAt]
      simp only [String.toList_append]
      rfl
  rintro rfl
  exact absurd (hslash.symm.trans hbrace) (by decide)

/-- A command that has generated everything has put the JSON Schema text where it was to go, and the
interfaces text, too, unless both were to go to one file. -/
theorem artifacts_stand {args : List String}
    (hargs : ofArguments args = .ok ⟨.generate given, quiet⟩)
    (hrun : (run Workspace.host args).run before = (.done, after)) :
    ∃ config read tables loaded,
      (findConfig Workspace.host given.mapping.config).run.run before = (.ok config, read) ∧
      (loadTables Workspace.host quiet (config.override given.files given.mapping)).run.run read =
        (.ok tables, loaded) ∧
      (given.emit.getD config.defaultEmit = .all → ∃ interfaces schema,
        Interface.render (given.validators || config.emitValidators.getD false) tables =
          .ok interfaces ∧
        JsonSchema.render tables = .ok schema ∧
        before.Delivered after schema (given.schemaFile.or config.schemaFile) ∧
        (before.Delivered after interfaces (given.interfacesFile.or config.interfacesFile) ↔
          ¬after.SameFile (given.interfacesFile.or config.interfacesFile)
            (given.schemaFile.or config.schemaFile))) := by
  have h := generateOutputs_of_run hargs hrun
  obtain ⟨config, read, hconfig, h⟩ := run_bind_eq_ok.1 h
  dsimp only at h
  split at h
  · cases h
  next hfile =>
  obtain ⟨tables, loaded, hloaded, h⟩ := run_bind_eq_ok.1 h
  refine ⟨config, read, tables, loaded, hconfig, hloaded, fun hemit => ?_⟩
  rw [hemit] at h hfile
  generalize given.interfacesFile.or config.interfacesFile = sink,
    given.schemaFile.or config.schemaFile = sink' at h hfile ⊢
  rw [if_pos (by decide), if_pos (by decide)] at h
  obtain ⟨interfaces, hinterfaces, h⟩ := attempt_bind_eq_ok h
  obtain ⟨⟨⟩, between, hfirst, h⟩ := run_bind_eq_ok.1 h
  obtain ⟨schema, hschema, h⟩ := attempt_bind_eq_ok h
  obtain ⟨⟨⟩, written, hlast, h⟩ := run_bind_eq_ok.1 h
  have hread := (harmless_findConfig given.mapping.config).untouched hconfig
  have hload := (harmless_loadTables quiet (config.override given.files given.mapping)).untouched
    hloaded
  have hwarn : written.Untouched after := by
    split at h
    · cases h
      exact ⟨_, rfl⟩
    · cases h
      exact ⟨_, rfl⟩
  have hsinks : ¬(sink.isNone = true ∧ sink'.isNone = true) := by simpa using hfile
  obtain ⟨hstands, hboth⟩ :=
    delivered_of_two hfirst hlast (interfaces_ne_schema hinterfaces hschema) hsinks
  refine ⟨interfaces, schema, hinterfaces, hschema, ?_, ?_⟩
  · exact ((hread.trans hload).delivered_iff hwarn).2 hstands
  · rw [hwarn.sameFile_iff, ← hboth]
    exact (hread.trans hload).delivered_iff hwarn

def oneTable : Workspace where
  root := .directory [("a.sql", .file "CREATE TABLE t (a UInt8)")]
  here := []

/-- A command line that generates everything, with a file for each text. -/
def allInto (interfacesFile schemaFile : String) : List String :=
  ["generate", "--emit", "all", "--ts-out", interfacesFile, "--json-schema-out", schemaFile,
    "a.sql"]

theorem exists_given (interfacesFile schemaFile : String)
    (h : (match ofArguments (allInto interfacesFile schemaFile) with
      | .ok ⟨.generate given, false⟩ => decide (given.emit = some .all ∧
          given.interfacesFile = some interfacesFile ∧ given.schemaFile = some schemaFile)
      | _ => false) = true) :
    ∃ given, ofArguments (allInto interfacesFile schemaFile) = .ok ⟨.generate given, false⟩ ∧
      given.emit = some .all ∧ given.interfacesFile = some interfacesFile ∧
      given.schemaFile = some schemaFile := by
  split at h
  · next given hargs => exact ⟨given, hargs, of_decide_eq_true h⟩
  · contradiction

/-- Only a missing destination is noticed: with one file for both texts nothing is left of the
interfaces. -/
theorem interfaces_overwritten : ∃ given after report tables interfaces,
    ofArguments (allInto "out.txt" "out.txt") = .ok ⟨.generate given, false⟩ ∧
      given.emit = some .all ∧
      (run Workspace.host (allInto "out.txt" "out.txt")).run oneTable = (.done, after) ∧
      readScript "CREATE TABLE t (a UInt8)" = .ok report ∧
      resolve {} report.tables.toList = .ok tables ∧
      Interface.render false tables = .ok interfaces ∧
      (∀ file ∈ after.root.files, file.2 ≠ interfaces) ∧ after.printed ≠ interfaces := by
  obtain ⟨given, hargs, hemit, -⟩ := exists_given "out.txt" "out.txt" (by decide +kernel)
  have h : (match ((run Workspace.host (allInto "out.txt" "out.txt")).run oneTable).1 with
    | .done => (readScript "CREATE TABLE t (a UInt8)").toOption.any fun report =>
      (resolve {} report.tables.toList).toOption.any fun tables =>
      (Interface.render false tables).toOption.any fun interfaces =>
        let after := ((run Workspace.host (allInto "out.txt" "out.txt")).run oneTable).2
        (∀ file ∈ after.root.files, file.2 ≠ interfaces) ∧ after.printed ≠ interfaces
    | _ => false) = true := by decide +kernel
  split at h
  · next hdone =>
    obtain ⟨report, hreport, h⟩ := exists_of_any h
    obtain ⟨tables, htables, h⟩ := exists_of_any h
    obtain ⟨interfaces, hinterfaces, h⟩ := exists_of_any h
    exact ⟨given, _, report, tables, interfaces, hargs, hemit, Prod.ext hdone rfl, hreport, htables,
      hinterfaces, of_decide_eq_true h⟩
  · contradiction

theorem artifacts_stand_oneTable : ∃ given after interfaces schema,
    ofArguments (allInto "t.ts" "t.json") = .ok ⟨.generate given, false⟩ ∧
      (run Workspace.host (allInto "t.ts" "t.json")).run oneTable = (.done, after) ∧
      oneTable.Delivered after interfaces (some "t.ts") ∧
      oneTable.Delivered after schema (some "t.json") := by
  obtain ⟨given, hargs, hemit, hinterfacesFile, hschemaFile⟩ :=
    exists_given "t.ts" "t.json" (by decide +kernel)
  have h : (match ((run Workspace.host (allInto "t.ts" "t.json")).run oneTable).1 with
    | .done =>
      let after := ((run Workspace.host (allInto "t.ts" "t.json")).run oneTable).2
      decide ((after.root.resolve after.here "t.ts").toOption ≠
        (after.root.resolve after.here "t.json").toOption)
    | _ => false) = true := by decide +kernel
  split at h
  · next hdone =>
    have hrun : (run Workspace.host (allInto "t.ts" "t.json")).run oneTable = (.done, _) :=
      Prod.ext hdone rfl
    obtain ⟨config, _, tables, _, _, _, hstand⟩ := artifacts_stand hargs hrun
    obtain ⟨interfaces, schema, _, _, hschema, hinterfaces⟩ := hstand (by rw [hemit]; rfl)
    rw [hinterfacesFile, hschemaFile] at hinterfaces
    rw [hschemaFile] at hschema
    refine ⟨given, _, interfaces, schema, hargs, hrun, hinterfaces.2 ?_, hschema⟩
    rintro ⟨place, hplace, hplace'⟩
    exact of_decide_eq_true h (congrArg Except.toOption (hplace.trans hplace'.symm))
  · contradiction

end Generate

end Command

end TypedTables
