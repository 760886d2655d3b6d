import SdkMigration.Proofs.Project.Reports
import SdkMigration.Proofs.UpdatedDependencies

/-!
# Dry runs

A dry run changes nothing and tells what the real run from the same state does
(`dry_run_foretells`): the result is the same when nothing fails to be written, and the real
run changes the text of exactly the files that are reported as changed, and of the package
description when that is reported as updated.
-/

namespace SdkMigration

/-! ## What a file says -/

/-- The text of a file, if it is one of text. -/
def Node.text? : Node → Option Text
  | .text content => some content
  | .bytes content => (Utf8.decode content).toOption
  | .directory | .link => none

/-- The text of the file at a key, if there is one. -/
def FileSystem.text? (files : FileSystem) (key : PathKey) : Option Text :=
  (files.node? key).bind Node.text?

variable {options : ProjectOptions} {a b files : FileSystem} {path root : Path} {key : PathKey}

theorem FileSystem.text?_of_node {text : Text} (h : files.node? key = some (.text text)) :
    files.text? key = some text := by
  rw [text?, h]
  rfl

theorem FileSystem.text?_of_readText {text : Text} (h : files.readText path = .ok text) :
    files.text? path.key = some text := by
  unfold readText at h
  split at h
  · cases h
  · split at h
    · next content hnode =>
      rw [text?, hnode]
      exact congrArg some (Except.ok.inj h)
    · next content hnode =>
      split at h
      · next decoded hdecoded =>
        rw [text?, hnode]
        simp only [Option.bind_some, Node.text?, hdecoded]
        exact congrArg some (Except.ok.inj h)
      · cases h
    · cases h
    · cases h

theorem FileSystem.AgreeAt.text? (h : a.AgreeAt b key) : a.text? key = b.text? key := by
  rw [FileSystem.text?, FileSystem.text?, h.node]

/-! ## Nothing is written -/

theorem migrateFile_of_dry (hdry : options.dryRun = true) (files : FileSystem) (path : Path) :
    (migrateFile options files path).1 = files := by
  have houtcome := migrateFile_outcome options files path
  generalize migrateFile options files path = result at houtcome ⊢
  cases houtcome with
  | written _ _ _ hreal =>
    rw [hdry] at hreal
    cases hreal
  | _ => rfl

theorem migrateFiles_of_dry (hdry : options.dryRun = true) (paths : List Path)
    (files : FileSystem) (report : ProjectReport) :
    (migrateFiles options paths files report).1 = files := by
  induction paths generalizing report with
  | nil => rfl
  | cons path rest ih =>
    rw [migrateFiles]
    simp only [migrateFile_of_dry hdry, ih]

theorem updateDescription_of_dry (hdry : options.dryRun = true) (files : FileSystem)
    (root : Path) : (updateDescription options files root).1 = files := by
  have houtcome := updateDescription_outcome options files root
  generalize updateDescription options files root = result at houtcome ⊢
  cases houtcome with
  | written _ _ hreal =>
    rw [hdry] at hreal
    cases hreal
  | _ => rfl

/-- A dry run leaves the file system as it is. -/
theorem migrateProject_of_dry (hdry : options.dryRun = true) (files : FileSystem) (root : Path) :
    (migrateProject options files root).1 = files := by
  cases hfound : programsBelow files options.exclude (files.nodes.length + 1) root with
  | error error => rw [migrateProject_of_walk_error hfound]
  | ok found =>
    rw [migrateProject_eq hfound]
    simp only [updateDescription_of_dry hdry, migrateFiles_of_dry hdry]

/-! ## The same result -/

section SameResult

variable (options)

/-- What becomes of a file that can be written is foretold. -/
theorem migrateFile_foretold (hwrite : files.fault? path .write = none) :
    (migrateFile { options with dryRun := true } files path).2 =
      (migrateFile { options with dryRun := false } files path).2 := by
  unfold migrateFile
  cases files.readText path with
  | error failure => rfl
  | ok text =>
    have hsame : migrateText { options with dryRun := true } path text =
        migrateText { options with dryRun := false } path text := rfl
    simp only [hsame]
    cases migrateText { options with dryRun := false } path text with
    | error error => rfl
    | ok migrated =>
      obtain ⟨after, hafter⟩ := FileSystem.writeText_of_writable hwrite migrated.text
      simp only [Bool.not_true, Bool.and_false, Bool.false_eq_true, if_false, Bool.not_false,
        Bool.and_true, hafter]
      split
      · rfl
      · rfl

theorem reportOn_foretold {paths : List Path}
    (hwrite : ∀ path ∈ paths, files.fault? path .write = none) (report : ProjectReport) :
    reportOn { options with dryRun := true } files paths report =
      reportOn { options with dryRun := false } files paths report := by
  unfold reportOn
  induction paths generalizing report with
  | nil => rfl
  | cons path rest ih =>
    rw [List.foldl_cons, List.foldl_cons, migrateFile_foretold options (hwrite path (.head rest))]
    exact ih (fun other hother => hwrite other (.tail path hother)) _

/-- What becomes of a package description that can be written is foretold. -/
theorem updateDescription_foretold (hwrite : files.fault? (descriptionPath root) .write = none) :
    (updateDescription { options with dryRun := true } files root).2 =
      (updateDescription { options with dryRun := false } files root).2 := by
  unfold updateDescription
  simp only
  cases files.readText (root.join "package.json".toList) with
  | error failure => rfl
  | ok text =>
    simp only
    cases updatePackage (String.ofList text) options.migration.module
        options.packageVersion with
    | error error => rfl
    | ok result =>
      cases result with
      | none => rfl
      | some updated =>
        obtain ⟨after, hafter⟩ := FileSystem.writeText_of_writable hwrite updated.toList
        rw [descriptionPath] at hafter
        simp only [if_true, Bool.false_eq_true, if_false, hafter]

/-- What a run comes to is foretold where nothing fails to be written. -/
theorem migrateProject_foretold (hfiles : files.WellFormed)
    (hwrites : ∀ path, files.fault? path .write = none) (root : Path) :
    (migrateProject { options with dryRun := true } files root).2 =
      (migrateProject { options with dryRun := false } files root).2 := by
  cases hfound : programsBelow files options.exclude (files.nodes.length + 1) root with
  | error error =>
    rw [migrateProject_of_walk_error (by exact hfound), migrateProject_of_walk_error (by exact hfound)]
  | ok found =>
    have hdry : RunOver { options with dryRun := true } files root (sortPaths found) :=
      migrateProject_of_walk_ok hfiles hfound
    have hreal : RunOver { options with dryRun := false } files root (sortPaths found) :=
      migrateProject_of_walk_ok hfiles hfound
    rw [hdry.result, hreal.result, updateDescription_foretold options (hwrites _),
      reportOn_foretold options fun path _ => hwrites path]

end SameResult

/-! ## The files that change -/

/-- A file changes when it is reported as changed. -/
theorem migrateFile_changes (hreal : options.dryRun = false) {entry : FileEntry}
    (h : (migrateFile options files path).2 = .ok entry) (hchanged : entry.changed = true) :
    (migrateFile options files path).1.text? path.key ≠ files.text? path.key := by
  have houtcome := migrateFile_outcome options files path
  generalize migrateFile options files path = result at houtcome h ⊢
  cases houtcome with
  | unreadable | refused | unwritable => cases h
  | unchanged =>
    rw [← Except.ok.inj h] at hchanged
    cases hchanged
  | foretold _ _ _ hdry =>
    rw [hreal] at hdry
    cases hdry
  | @written old migrated after hread _ hnew _ hwritten =>
    rw [FileSystem.text?_of_node (FileSystem.wrote_of_writeText hwritten).node,
      FileSystem.text?_of_readText hread]
    intro hsame
    exact hnew (Option.some.inj hsame)

/-- A file that is not reported as changed stays as it is. -/
theorem migrateFile_keeps
    (h : ∀ entry, (migrateFile options files path).2 = .ok entry → entry.changed = false) :
    (migrateFile options files path).1 = files := by
  have houtcome := migrateFile_outcome options files path
  generalize migrateFile options files path = result at houtcome h ⊢
  cases houtcome with
  | written => cases h _ rfl
  | _ => rfl

/-- The package description changes when it is reported as updated. -/
theorem updateDescription_changes (hreal : options.dryRun = false)
    (h : (updateDescription options files root).2 = .ok true) :
    (updateDescription options files root).1.text? (descriptionPath root).key ≠
      files.text? (descriptionPath root).key := by
  have houtcome := updateDescription_outcome options files root
  generalize updateDescription options files root = result at houtcome h ⊢
  cases houtcome with
  | missing | unreadable | refused | unchanged | unwritable => cases h
  | foretold _ _ hdry =>
    rw [hreal] at hdry
    cases hdry
  | @written old updated after hread hupdates _ hwritten =>
    rw [FileSystem.text?_of_node (FileSystem.wrote_of_writeText hwritten).node,
      FileSystem.text?_of_readText hread]
    intro hsame
    apply updatePackage_changes hupdates
    rw [← Option.some.inj hsame, String.ofList_toList]

/-- A package description that is not reported as updated stays as it is. -/
theorem updateDescription_keeps (h : (updateDescription options files root).2 ≠ .ok true) :
    (updateDescription options files root).1 = files := by
  have houtcome := updateDescription_outcome options files root
  generalize updateDescription options files root = result at houtcome h ⊢
  cases houtcome with
  | written => exact absurd rfl h
  | _ => rfl

/-- Whether a report tells that what is at a key changes. -/
def ProjectReport.Changes (report : ProjectReport) (root : Path) (key : PathKey) : Prop :=
  (∃ entry ∈ report.changedFiles, entry.path.key = key) ∨
    report.packageUpdated = true ∧ key = (descriptionPath root).key

/-- A run that succeeds changes what its report tells. -/
theorem RunOver.changes {paths : List Path} (h : RunOver options files root paths)
    (hreal : options.dryRun = false) {report : ProjectReport}
    (hreport : (migrateProject options files root).2 = .ok report)
    (hchanges : report.Changes root key) :
    (migrateProject options files root).1.text? key ≠ files.text? key := by
  obtain ⟨updated, hupdate, rfl⟩ := h.ok_iff.mp hreport
  rcases hchanges with ⟨entry, hentry, rfl⟩ | ⟨rfl, rfl⟩
  · obtain ⟨hfile, hchanged⟩ := List.mem_filter.mp hentry
    obtain ⟨hpath, hresult⟩ := mem_files_reportOn.mp hfile
    rw [(h.each entry.path hpath).text?]
    exact migrateFile_changes hreal hresult hchanged
  · rw [h.description.text?]
    exact updateDescription_changes hreal hupdate

/-- A run that succeeds leaves everything else as it is. -/
theorem RunOver.keeps {paths : List Path} (h : RunOver options files root paths)
    {report : ProjectReport} (hreport : (migrateProject options files root).2 = .ok report)
    (hkeeps : ¬report.Changes root key) :
    (migrateProject options files root).1.node? key = files.node? key := by
  obtain ⟨updated, hupdate, rfl⟩ := h.ok_iff.mp hreport
  by_cases hdescription : key = (descriptionPath root).key
  · subst hdescription
    rw [h.description.node, updateDescription_keeps]
    rw [hupdate]
    rintro ⟨⟩
    exact hkeeps (Or.inr ⟨rfl, rfl⟩)
  by_cases hprogram : ∃ path ∈ paths, path.key = key
  · obtain ⟨path, hpath, rfl⟩ := hprogram
    rw [(h.each path hpath).node, migrateFile_keeps]
    intro entry hentry
    have hsame := path_of_migrateFile hentry
    subst hsame
    rw [Bool.eq_false_iff]
    intro hchanged
    have hfile := mem_files_reportOn.mpr ⟨hpath, hentry⟩
    exact hkeeps (Or.inl ⟨entry, List.mem_filter.mpr ⟨hfile, hchanged⟩, rfl⟩)
  · refine (h.others key hdescription ?_).node
    intro path hpath hsame
    exact hprogram ⟨path, hpath, hsame⟩

/-- Where no write fails, a dry run comes to the same result as the real run from the same
state and changes nothing; and a real run that succeeds changes the text of exactly the files
that are reported as changed, and of the package description when that is reported as
updated. -/
theorem dry_run_foretells (hfiles : files.WellFormed)
    (hwrites : ∀ path, files.fault? path .write = none) (options : ProjectOptions) (root : Path) :
    (migrateProject { options with dryRun := true } files root).2 =
        (migrateProject { options with dryRun := false } files root).2 ∧
      (migrateProject { options with dryRun := true } files root).1 = files ∧
      ∀ report, (migrateProject { options with dryRun := false } files root).2 = .ok report →
        (∀ key, report.Changes root key →
          (migrateProject { options with dryRun := false } files root).1.text? key ≠
            files.text? key) ∧
        ∀ key, ¬report.Changes root key →
          (migrateProject { options with dryRun := false } files root).1.node? key =
            files.node? key := by
  refine ⟨migrateProject_foretold options hfiles hwrites root, migrateProject_of_dry rfl files root,
    fun report hreport => ?_⟩
  cases hfound : programsBelow files options.exclude (files.nodes.length + 1) root with
  | error error =>
    rw [migrateProject_of_walk_error (by exact hfound)] at hreport
    cases hreport
  | ok found =>
    have hrun : RunOver { options with dryRun := false } files root (sortPaths found) :=
      migrateProject_of_walk_ok hfiles hfound
    exact ⟨fun key => hrun.changes rfl hreport, fun key => hrun.keeps hreport⟩

/-- A project with a program to migrate, one that needs nothing, and a package description
with an old version. -/
private def outdatedProject : FileSystem :=
  ((({} : FileSystem).put ⟨"/p/a.js".toList⟩
    (.text "import * as teams from \"@microsoft/teams-js\";\nteams.print();\n".toList)).put
    ⟨"/p/b.js".toList⟩ (.text "print();\n".toList)).put ⟨"/p/package.json".toList⟩
    (.text "\x7b\"dependencies\": \x7b\"@microsoft/teams-js\": \"1.0.0\"\x7d\x7d\n".toList)

private theorem outdatedProject_facts :
    (migrateProject { ({} : ProjectOptions) with dryRun := true } outdatedProject
        ⟨"/p".toList⟩).2.map
        (fun report => (report.changedFiles.map (·.path), report.packageUpdated)) =
      .ok ([⟨"/p/a.js".toList⟩], true) := by
  decide +kernel

/-- The dry run foretells that the program and the package description change. -/
theorem outdatedProject_foretold :
    ∃ report,
      (migrateProject { ({} : ProjectOptions) with dryRun := true } outdatedProject
        ⟨"/p".toList⟩).2 = .ok report ∧
      (migrateProject { ({} : ProjectOptions) with dryRun := false } outdatedProject
        ⟨"/p".toList⟩).2 = .ok report ∧
      ∀ key, (migrateProject { ({} : ProjectOptions) with dryRun := false } outdatedProject
          ⟨"/p".toList⟩).1.text? key ≠ outdatedProject.text? key ↔
        key = (Path.mk "/p/a.js".toList).key ∨ key = (descriptionPath ⟨"/p".toList⟩).key := by
  have hfiles : outdatedProject.WellFormed :=
    ((FileSystem.WellFormed.empty.put _ _).put _ _).put _ _
  have hwrites : ∀ path, outdatedProject.fault? path .write = none := fun _ => rfl
  obtain ⟨hsame, -, hruns⟩ := dry_run_foretells hfiles hwrites {} ⟨"/p".toList⟩
  obtain ⟨report, hdry, hfound⟩ := map_eq_ok_iff.mp outdatedProject_facts
  have hreal := hsame ▸ hdry
  obtain ⟨hpaths, hupdated⟩ := Prod.mk.inj hfound
  obtain ⟨hchanges, hkeeps⟩ := hruns report hreal
  have htold : ∀ key, report.Changes ⟨"/p".toList⟩ key ↔
      key = (Path.mk "/p/a.js".toList).key ∨ key = (descriptionPath ⟨"/p".toList⟩).key := by
    intro key
    have hentries : (∃ entry ∈ report.changedFiles, entry.path.key = key) ↔
        ∃ path ∈ report.changedFiles.map (·.path), path.key = key := by
      simp only [List.mem_map, exists_exists_and_eq_and]
    rw [ProjectReport.Changes, hentries, hpaths, hupdated]
    simp only [List.mem_singleton, exists_eq_left, true_and, eq_comm]
  refine ⟨report, hdry, hreal, fun key => ?_⟩
  rw [← htold key]
  constructor
  · intro hdiffers
    by_contra hnone
    apply hdiffers
    rw [FileSystem.text?, FileSystem.text?, hkeeps key hnone]
  · exact hchanges key

end SdkMigration
