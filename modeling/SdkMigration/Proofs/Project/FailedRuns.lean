import SdkMigration.Proofs.Project.Runs

/-!
# Runs that fail

A run fails because a directory cannot be listed, and then before it has changed anything, or
because the package description cannot be read, updated or written, and then after all
programs have been migrated.  Nothing is undone, so in the second case the programs that got
another text keep it, while everything else is as it was (`failed_run_keeps`).
-/

namespace SdkMigration

variable {options : ProjectOptions} {files : FileSystem} {path root : Path} {error : ProjectError}

/-! ## Programs that get another text -/

/-- Whether a program gets another text: it can be read, the migration changes it, and it can
be written. -/
def Rewrites (options : ProjectOptions) (files : FileSystem) (path : Path) (text : Text) : Prop :=
  ∃ old migrated, files.readText path = .ok old ∧ migrateText options path old = .ok migrated ∧
    migrated.text ≠ old ∧ files.fault? path .write = none ∧ migrated.text = text

/-- A program that gets another text has it afterwards. -/
theorem Rewrites.node {text : Text} (h : Rewrites options files path text)
    (hreal : options.dryRun = false) :
    (migrateFile options files path).1.node? path.key = some (.text text) := by
  obtain ⟨old, migrated, hread, hmigrates, hchanged, hfault, rfl⟩ := h
  unfold migrateFile
  rw [hread]
  simp only [hmigrates, bne_iff_ne.mpr hchanged, hreal, Bool.not_false, Bool.and_self, if_true]
  obtain ⟨after, hafter⟩ := FileSystem.writeText_of_writable hfault migrated.text
  rw [hafter]
  exact (FileSystem.wrote_of_writeText hafter).node

/-- A program that gets no other text leaves everything as it is. -/
theorem migrateFile_of_not_rewrites (h : ∀ text, ¬Rewrites options files path text) :
    (migrateFile options files path).1 = files := by
  have houtcome := migrateFile_outcome options files path
  generalize migrateFile options files path = result at houtcome ⊢
  cases houtcome with
  | @written old migrated after hread hmigrates hchanged _ hwritten =>
    have hfault := (FileSystem.wrote_of_writeText hwritten).writable
    exact absurd ⟨old, migrated, hread, hmigrates, hchanged, hfault, rfl⟩ (h migrated.text)
  | _ => rfl

/-! ## Package descriptions that fail -/

/-- Whether the package description of a project fails a run for a reason: it is there and
cannot be read, it cannot be updated, or it is to be updated and cannot be written. -/
inductive DescriptionFails (options : ProjectOptions) (files : FileSystem) (root : Path) :
    ProjectError → Prop
  | reading {failure : Failure} (unread : files.readText (descriptionPath root) = .error failure)
      (there : failure.kind ≠ .notFound) :
      DescriptionFails options files root (.unreadable (descriptionPath root) failure)
  | updating {text : Text} {error : PackageError}
      (read : files.readText (descriptionPath root) = .ok text)
      (refused : updatePackage (String.ofList text) options.migration.module
        options.packageVersion = .error error) :
      DescriptionFails options files root (.package error)
  | writing {text : Text} {updated : String} {failure : Failure}
      (read : files.readText (descriptionPath root) = .ok text)
      (updates : updatePackage (String.ofList text) options.migration.module
        options.packageVersion = .ok (some updated))
      (real : options.dryRun = false)
      (fault : files.fault? (descriptionPath root) .write = some failure) :
      DescriptionFails options files root (.unreadable (descriptionPath root) failure)

/-- A package description that fails a run has a reason to, and is left as it was. -/
theorem descriptionFails_of_error (h : (updateDescription options files root).2 = .error error) :
    DescriptionFails options files root error ∧ (updateDescription options files root).1 = files := by
  have houtcome := updateDescription_outcome options files root
  generalize updateDescription options files root = result at houtcome h ⊢
  cases houtcome with
  | unreadable hunread hthere =>
    obtain rfl := Except.error.inj h
    exact ⟨.reading hunread hthere, rfl⟩
  | refused hread hrefused =>
    obtain rfl := Except.error.inj h
    exact ⟨.updating hread hrefused, rfl⟩
  | unwritable hread hupdates hreal hfails =>
    obtain rfl := Except.error.inj h
    exact ⟨.writing hread hupdates hreal (FileSystem.writeText_eq_error_iff.mp hfails), rfl⟩
  | missing | unchanged | foretold | written => cases h

/-! ## Failed runs -/

/-- A run that fails was stopped by a directory that it reached, before it changed anything, or
by the package description; in that case the programs that got another text have it, and
everything else, the package description among it, is as it was. -/
theorem failed_run_keeps (hfiles : files.WellFormed) (hreal : options.dryRun = false)
    (h : (migrateProject options files root).2 = .error error) :
    (∃ directory failure, files.Reaches options.exclude root directory ∧
      files.list directory = .error failure ∧ failure.kind ≠ .permissionDenied ∧
      error = .unreadable directory failure ∧ (migrateProject options files root).1 = files) ∨
    DescriptionFails options files root error ∧
      (∀ path text, files.IsSource options.exclude root path → Rewrites options files path text →
        (migrateProject options files root).1.node? path.key = some (.text text)) ∧
      ∀ key, (∀ path text, files.IsSource options.exclude root path →
          Rewrites options files path text → path.key ≠ key) →
        (migrateProject options files root).1.node? key = files.node? key := by
  cases hfound : programsBelow files options.exclude (files.nodes.length + 1) root with
  | error failed =>
    have hwalk := hfiles.walk_gives options.exclude root
    rw [hfound] at hwalk
    rw [migrateProject_of_walk_error hfound] at h ⊢
    obtain rfl := Except.error.inj h
    cases hwalk with
    | @failed directory failure hreached hfails hkind =>
      exact Or.inl ⟨directory, failure, hreached, hfails, hkind, rfl, rfl⟩
  | ok found =>
    obtain ⟨-, hmem, -⟩ := sources_of_walk_ok hfiles hfound
    have hrun : RunOver options files root (sortPaths found) :=
      migrateProject_of_walk_ok hfiles hfound
    obtain ⟨hfails, hsame⟩ := descriptionFails_of_error (hrun.error_iff.mp h)
    refine Or.inr ⟨hfails, ?_, ?_⟩
    · intro path text hsource hrewrites
      rw [(hrun.each path ((hmem path).mpr hsource)).node]
      exact hrewrites.node hreal
    · intro key hkey
      by_cases hdescription : key = (descriptionPath root).key
      · rw [hdescription, hrun.description.node, hsame]
      by_cases hprogram : ∃ path ∈ sortPaths found, path.key = key
      · obtain ⟨path, hpath, rfl⟩ := hprogram
        have hsource := (hmem path).mp hpath
        rw [(hrun.each path hpath).node,
          migrateFile_of_not_rewrites fun text hrewrites => hkey path text hsource hrewrites rfl]
      · exact (hrun.others key hdescription fun path hpath hsame =>
          hprogram ⟨path, hpath, hsame⟩).node

/-- A project with a program to migrate and a package description that is no object. -/
private def brokenProject : FileSystem :=
  (({} : FileSystem).put ⟨"/p/a.js".toList⟩
    (.text "import * as teams from \"@microsoft/teams-js\";\nteams.print();\n".toList)).put
    ⟨"/p/package.json".toList⟩ (.text "[]".toList)

private theorem brokenProject_fails :
    (migrateProject {} brokenProject ⟨"/p".toList⟩).2.map (fun _ => ()) =
        .error (.package .notAnObject) ∧
      (migrateProject {} brokenProject ⟨"/p".toList⟩).1.node? (Path.mk "/p/a.js".toList).key ≠
        brokenProject.node? (Path.mk "/p/a.js".toList).key := by
  decide +kernel

private theorem brokenProject_error :
    (migrateProject {} brokenProject ⟨"/p".toList⟩).2 = .error (.package .notAnObject) :=
  map_eq_error_iff.mp brokenProject_fails.1

/-- The run fails at the package description, which stays as it is. -/
theorem brokenProject_keeps_description :
    DescriptionFails {} brokenProject ⟨"/p".toList⟩ (.package .notAnObject) ∧
      (migrateProject {} brokenProject ⟨"/p".toList⟩).1.node? (descriptionPath ⟨"/p".toList⟩).key =
        brokenProject.node? (descriptionPath ⟨"/p".toList⟩).key := by
  have hfiles : brokenProject.WellFormed := (FileSystem.WellFormed.empty.put _ _).put _ _
  have hreal : ({} : ProjectOptions).dryRun = false := rfl
  have hkeeps := failed_run_keeps hfiles hreal brokenProject_error
  rcases hkeeps with ⟨_, _, -, -, -, -, hsame⟩ | ⟨hfails, -, hothers⟩
  · refine absurd ?_ brokenProject_fails.2
    rw [hsame]
  · refine ⟨hfails, hothers _ ?_⟩
    intro path text hsource _
    exact hsource.key_ne_description _

/-- A run that fails can leave a program changed. -/
theorem failed_run_changes_program :
    ¬∀ (options : ProjectOptions) (files : FileSystem) (root : Path) (error : ProjectError),
      files.WellFormed → options.dryRun = false →
      (migrateProject options files root).2 = .error error →
      ∀ key, (migrateProject options files root).1.node? key = files.node? key := by
  intro h
  have hfiles : brokenProject.WellFormed := (FileSystem.WellFormed.empty.put _ _).put _ _
  have hreal : ({} : ProjectOptions).dryRun = false := rfl
  have hsame := h {} brokenProject ⟨"/p".toList⟩ (.package .notAnObject) hfiles hreal
    brokenProject_error
  exact brokenProject_fails.2 (hsame (Path.mk "/p/a.js".toList).key)

end SdkMigration
