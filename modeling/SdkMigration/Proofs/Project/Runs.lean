import SdkMigration.Proofs.Project.SourceFiles

/-!
# What a run does to a project

Migrating a file reads and writes what its path names and nothing else, so what becomes of
it is told by the file system before the run (`migrateFiles_apart`): no two programs of a
project have one key, and none has the key of the package description.  The result of a run
and the file system after it are put together from what becomes of each program and of the
description (`RunOver`).
-/

namespace SdkMigration

namespace FileSystem

/-! ## What is at one key -/

/-- Whether two file systems have the same at a key, and the same faults. -/
structure AgreeAt (a b : FileSystem) (key : PathKey) : Prop where
  faults : a.faults = b.faults
  node : a.node? key = b.node? key

variable {a b c files : FileSystem} {key : PathKey} {path : Path}

namespace AgreeAt

theorem refl (files : FileSystem) (key : PathKey) : AgreeAt files files key := ⟨rfl, rfl⟩

theorem trans (hab : AgreeAt a b key) (hbc : AgreeAt b c key) : AgreeAt a c key :=
  ⟨hab.faults.trans hbc.faults, hab.node.trans hbc.node⟩

theorem fault? (h : AgreeAt a b key) (path : Path) (access : Access) :
    a.fault? path access = b.fault? path access := by
  unfold FileSystem.fault?
  rw [h.faults]

theorem readText (h : AgreeAt a b path.key) : a.readText path = b.readText path := by
  unfold FileSystem.readText
  rw [h.fault?, h.node]

end AgreeAt

/-- What a file system is after a write that succeeds: it has the text at the key of the path,
and nothing else has changed. -/
structure Wrote (files : FileSystem) (path : Path) (content : Text) (after : FileSystem) :
    Prop where
  writable : files.fault? path .write = none
  node : after.node? path.key = some (.text content)
  faults : after.faults = files.faults
  others : ∀ key, key ≠ path.key → after.AgreeAt files key

theorem wrote_of_writeText {content : Text} {after : FileSystem}
    (h : files.writeText path content = .ok after) : files.Wrote path content after := by
  unfold writeText at h
  cases hfault : files.fault? path .write with
  | some failure =>
    rw [hfault] at h
    cases h
  | none =>
    rw [hfault] at h
    obtain rfl := Except.ok.inj h
    refine ⟨hfault, lookup_putNode_self path.key _ files.nodes, rfl, ?_⟩
    intro key hkey
    exact ⟨rfl, lookup_putNode _ files.nodes (Ne.symm hkey)⟩

theorem writeText_of_writable (h : files.fault? path .write = none) (content : Text) :
    ∃ after, files.writeText path content = .ok after := by
  unfold writeText
  rw [h]
  exact ⟨_, rfl⟩

theorem writeText_eq_error_iff {content : Text} {failure : Failure} :
    files.writeText path content = .error failure ↔ files.fault? path .write = some failure := by
  unfold writeText
  cases files.fault? path .write <;> simp

/-- Where two file systems agree, a write fails in both or in neither. -/
theorem AgreeAt.writeText (h : a.AgreeAt b path.key) (content : Text) :
    (∃ failure, a.writeText path content = .error failure ∧
      b.writeText path content = .error failure) ∨
    ∃ x y, a.writeText path content = .ok x ∧ b.writeText path content = .ok y ∧
      x.AgreeAt y path.key := by
  cases hx : a.writeText path content with
  | error failure =>
    have hfault := writeText_eq_error_iff.mp hx
    rw [h.fault?] at hfault
    exact Or.inl ⟨failure, rfl, writeText_eq_error_iff.mpr hfault⟩
  | ok x =>
    have hxwrote := wrote_of_writeText hx
    have hfault := hxwrote.writable
    rw [h.fault?] at hfault
    obtain ⟨y, hy⟩ := writeText_of_writable hfault content
    have hywrote := wrote_of_writeText hy
    refine Or.inr ⟨x, y, rfl, hy, ?_, ?_⟩
    · exact hxwrote.faults.trans (h.faults.trans hywrote.faults.symm)
    · exact hxwrote.node.trans hywrote.node.symm

end FileSystem

open FileSystem (AgreeAt)

variable {options : ProjectOptions} {a b files : FileSystem} {path root : Path} {key : PathKey}

/-! ## One file -/

/-- What can become of a file: it fails to be read, to be migrated or to be written, or its
text stays, or it gets another text, which is not written when nothing is to be. -/
inductive FileOutcome (options : ProjectOptions) (files : FileSystem) (path : Path) :
    FileSystem × Except FileError FileEntry → Prop
  | unreadable {failure : Failure} (unread : files.readText path = .error failure) :
      FileOutcome options files path (files, .error (.unreadable failure))
  | refused {text : Text} {error : FileError} (read : files.readText path = .ok text)
      (refused : migrateText options path text = .error error) :
      FileOutcome options files path (files, .error error)
  | unchanged {text : Text} {migrated : MigratedFile} (read : files.readText path = .ok text)
      (migrates : migrateText options path text = .ok migrated) (same : migrated.text = text) :
      FileOutcome options files path (files, .ok ⟨path, false, migrated.report⟩)
  | foretold {text : Text} {migrated : MigratedFile} (read : files.readText path = .ok text)
      (migrates : migrateText options path text = .ok migrated) (changed : migrated.text ≠ text)
      (dry : options.dryRun = true) :
      FileOutcome options files path (files, .ok ⟨path, true, migrated.report⟩)
  | written {text : Text} {migrated : MigratedFile} {after : FileSystem}
      (read : files.readText path = .ok text)
      (migrates : migrateText options path text = .ok migrated) (changed : migrated.text ≠ text)
      (real : options.dryRun = false) (written : files.writeText path migrated.text = .ok after) :
      FileOutcome options files path (after, .ok ⟨path, true, migrated.report⟩)
  | unwritable {text : Text} {migrated : MigratedFile} {failure : Failure}
      (read : files.readText path = .ok text)
      (migrates : migrateText options path text = .ok migrated) (changed : migrated.text ≠ text)
      (real : options.dryRun = false) (fails : files.writeText path migrated.text = .error failure) :
      FileOutcome options files path (files, .error (.unwritable failure))

theorem migrateFile_outcome (options : ProjectOptions) (files : FileSystem) (path : Path) :
    FileOutcome options files path (migrateFile options files path) := by
  unfold migrateFile
  cases hread : files.readText path with
  | error failure => exact .unreadable hread
  | ok text =>
    simp only
    cases hmigrates : migrateText options path text with
    | error error => exact .refused hread hmigrates
    | ok migrated =>
      simp only
      by_cases hsame : migrated.text = text
      · rw [bne_eq_false_iff_eq.mpr hsame]
        exact .unchanged hread hmigrates hsame
      · rw [bne_iff_ne.mpr hsame]
        cases hdry : options.dryRun with
        | true => exact .foretold hread hmigrates hsame hdry
        | false =>
          rw [if_pos (by rfl)]
          cases hwritten : files.writeText path migrated.text with
          | ok after => exact .written hread hmigrates hsame hdry hwritten
          | error failure => exact .unwritable hread hmigrates hsame hdry hwritten

/-- A file is left alone with an error, or it is read and migrated, reported as changed
when its text is another one, and written then at most. -/
theorem migrateFile_cases (options : ProjectOptions) (files : FileSystem) (path : Path) :
    (∃ error, migrateFile options files path = (files, .error error)) ∨
    ∃ text migrated, files.readText path = .ok text ∧
      migrateText options path text = .ok migrated ∧
      (migrateFile options files path).2 =
        .ok ⟨path, migrated.text != text, migrated.report⟩ ∧
      ((migrateFile options files path).1 = files ∨ migrated.text ≠ text ∧
        files.writeText path migrated.text = .ok (migrateFile options files path).1) := by
  have houtcome := migrateFile_outcome options files path
  generalize migrateFile options files path = result at houtcome ⊢
  cases houtcome with
  | unreadable | refused | unwritable => exact Or.inl ⟨_, rfl⟩
  | unchanged hread hmigrates hsame =>
    refine Or.inr ⟨_, _, hread, hmigrates, ?_, Or.inl rfl⟩
    rw [bne_eq_false_iff_eq.mpr hsame]
  | foretold hread hmigrates hchanged =>
    refine Or.inr ⟨_, _, hread, hmigrates, ?_, Or.inl rfl⟩
    rw [bne_iff_ne.mpr hchanged]
  | written hread hmigrates hchanged _ hwritten =>
    refine Or.inr ⟨_, _, hread, hmigrates, ?_, Or.inr ⟨hchanged, hwritten⟩⟩
    rw [bne_iff_ne.mpr hchanged]

/-- What is reported as migrated has the path that it was found at. -/
theorem path_of_migrateFile {entry : FileEntry}
    (h : (migrateFile options files path).2 = .ok entry) : entry.path = path := by
  obtain ⟨error, herror⟩ | ⟨text, migrated, -, -, hreported, -⟩ :=
    migrateFile_cases options files path
  · rw [herror] at h
    cases h
  · rw [← Except.ok.inj (hreported.symm.trans h)]

/-- Migrating a file changes nothing at other keys. -/
theorem migrateFile_agreeAt (hkey : key ≠ path.key) :
    (migrateFile options files path).1.AgreeAt files key := by
  have houtcome := migrateFile_outcome options files path
  generalize migrateFile options files path = result at houtcome ⊢
  cases houtcome with
  | written _ _ _ _ hwritten => exact (FileSystem.wrote_of_writeText hwritten).others key hkey
  | _ => exact .refl files key

/-- What becomes of a file is told by what is at its key. -/
theorem migrateFile_congr (h : a.AgreeAt b path.key) :
    (migrateFile options a path).2 = (migrateFile options b path).2 ∧
      (migrateFile options a path).1.AgreeAt (migrateFile options b path).1 path.key := by
  unfold migrateFile
  rw [h.readText]
  cases b.readText path with
  | error failure => exact ⟨rfl, h⟩
  | ok text =>
    simp only
    cases migrateText options path text with
    | error error => exact ⟨rfl, h⟩
    | ok migrated =>
      simp only
      split
      · rcases h.writeText migrated.text with ⟨failure, hfails, hfails'⟩ | ⟨x, y, hx, hy, hxy⟩
        · rw [hfails, hfails']
          exact ⟨rfl, h⟩
        · rw [hx, hy]
          exact ⟨rfl, hxy⟩
      · exact ⟨rfl, h⟩

/-! ## One file after the other -/

/-- What a run reports on files, given what becomes of each of them. -/
def reportOn (options : ProjectOptions) (files : FileSystem) (paths : List Path)
    (report : ProjectReport) : ProjectReport :=
  paths.foldl (fun report path => report.addFile path (migrateFile options files path).2) report

theorem reportOn_congr {paths : List Path} (h : ∀ path ∈ paths, a.AgreeAt b path.key)
    (report : ProjectReport) : reportOn options a paths report = reportOn options b paths report := by
  unfold reportOn
  induction paths generalizing report with
  | nil => rfl
  | cons path rest ih =>
    rw [List.foldl_cons, List.foldl_cons, (migrateFile_congr (h path (.head rest))).1]
    exact ih (fun other hother => h other (.tail path hother)) _

/-- In a run over files of different keys each file is migrated as if it were alone. -/
theorem migrateFiles_apart (options : ProjectOptions) {paths : List Path}
    (hpaths : paths.Pairwise fun a b => a.key ≠ b.key) (files : FileSystem) (report : ProjectReport) :
    (migrateFiles options paths files report).2 = reportOn options files paths report ∧
      (∀ path ∈ paths, (migrateFiles options paths files report).1.AgreeAt
        (migrateFile options files path).1 path.key) ∧
      ∀ key, (∀ path ∈ paths, path.key ≠ key) →
        (migrateFiles options paths files report).1.AgreeAt files key := by
  induction paths generalizing files report with
  | nil => exact ⟨rfl, nofun, fun key _ => .refl files key⟩
  | cons path rest ih =>
    obtain ⟨hnew, hrest⟩ := List.pairwise_cons.mp hpaths
    have hother : ∀ other ∈ rest,
        (migrateFile options files path).1.AgreeAt files other.key :=
      fun other hmem => migrateFile_agreeAt (Ne.symm (hnew other hmem))
    obtain ⟨hreport, heach, helse⟩ := ih hrest (migrateFile options files path).1
      (report.addFile path (migrateFile options files path).2)
    refine ⟨?_, ?_, ?_⟩
    · exact hreport.trans (reportOn_congr hother _)
    · intro other hmem
      rcases List.mem_cons.mp hmem with rfl | hmem
      · exact helse other.key fun later hlater => Ne.symm (hnew later hlater)
      · exact (heach other hmem).trans (migrateFile_congr (hother other hmem)).2
    · intro key hkey
      have hlater := helse key fun other hmem => hkey other (.tail path hmem)
      exact hlater.trans (migrateFile_agreeAt (Ne.symm (hkey path (.head rest))))

/-! ## The package description -/

/-- Where the package description of a project is. -/
def descriptionPath (root : Path) : Path := root.join "package.json".toList

/-- The package description is no program. -/
theorem FileSystem.IsSource.key_ne_description {exclude : List String}
    (h : files.IsSource exclude root path) (other : Path) :
    path.key ≠ (descriptionPath other).key := by
  intro hkey
  obtain ⟨directory, entry, -, -, -, htakes, rfl⟩ := h
  have hmigratable := htakes.migratable
  rw [Path.fileName_eq_of_key hkey, descriptionPath, Path.fileName_join other (by decide)]
    at hmigratable
  revert hmigratable
  decide +kernel

/-- What can become of the package description of a project. -/
inductive DescriptionOutcome (options : ProjectOptions) (files : FileSystem) (root : Path) :
    FileSystem × Except ProjectError Bool → Prop
  | missing {failure : Failure} (unread : files.readText (descriptionPath root) = .error failure)
      (missing : failure.kind = .notFound) : DescriptionOutcome options files root (files, .ok false)
  | unreadable {failure : Failure}
      (unread : files.readText (descriptionPath root) = .error failure)
      (notMissing : failure.kind ≠ .notFound) :
      DescriptionOutcome options files root
        (files, .error (.unreadable (descriptionPath root) failure))
  | refused {text : Text} {error : PackageError}
      (read : files.readText (descriptionPath root) = .ok text)
      (refused : updatePackage (String.ofList text) options.migration.module
        options.packageVersion = .error error) :
      DescriptionOutcome options files root (files, .error (.package error))
  | unchanged {text : Text} (read : files.readText (descriptionPath root) = .ok text)
      (same : updatePackage (String.ofList text) options.migration.module
        options.packageVersion = .ok none) :
      DescriptionOutcome options files root (files, .ok false)
  | foretold {text : Text} {updated : String}
      (read : files.readText (descriptionPath root) = .ok text)
      (updates : updatePackage (String.ofList text) options.migration.module
        options.packageVersion = .ok (some updated))
      (dry : options.dryRun = true) : DescriptionOutcome options files root (files, .ok true)
  | written {text : Text} {updated : String} {after : FileSystem}
      (read : files.readText (descriptionPath root) = .ok text)
      (updates : updatePackage (String.ofList text) options.migration.module
        options.packageVersion = .ok (some updated))
      (real : options.dryRun = false)
      (written : files.writeText (descriptionPath root) updated.toList = .ok after) :
      DescriptionOutcome options files root (after, .ok true)
  | unwritable {text : Text} {updated : String} {failure : Failure}
      (read : files.readText (descriptionPath root) = .ok text)
      (updates : updatePackage (String.ofList text) options.migration.module
        options.packageVersion = .ok (some updated))
      (real : options.dryRun = false)
      (fails : files.writeText (descriptionPath root) updated.toList = .error failure) :
      DescriptionOutcome options files root
        (files, .error (.unreadable (descriptionPath root) failure))

theorem updateDescription_outcome (options : ProjectOptions) (files : FileSystem) (root : Path) :
    DescriptionOutcome options files root (updateDescription options files root) := by
  unfold updateDescription
  simp only
  cases hread : files.readText (root.join "package.json".toList) with
  | error failure =>
    simp only
    by_cases hkind : failure.kind = .notFound
    · rw [if_pos hkind]
      exact .missing hread hkind
    · rw [if_neg hkind]
      exact .unreadable hread hkind
  | ok text =>
    simp only
    cases hupdate : updatePackage (String.ofList text) options.migration.module
        options.packageVersion with
    | error error => exact .refused hread hupdate
    | ok result =>
      cases result with
      | none => exact .unchanged hread hupdate
      | some updated =>
        simp only
        cases hdry : options.dryRun with
        | true => exact .foretold hread hupdate hdry
        | false =>
          rw [if_neg Bool.false_ne_true]
          cases hwritten : files.writeText (root.join "package.json".toList) updated.toList with
          | ok after => exact .written hread hupdate hdry hwritten
          | error failure => exact .unwritable hread hupdate hdry hwritten

/-- Updating the package description changes nothing at other keys. -/
theorem updateDescription_agreeAt (hkey : key ≠ (descriptionPath root).key) :
    (updateDescription options files root).1.AgreeAt files key := by
  have houtcome := updateDescription_outcome options files root
  generalize updateDescription options files root = result at houtcome ⊢
  cases houtcome with
  | written _ _ _ hwritten => exact (FileSystem.wrote_of_writeText hwritten).others key hkey
  | _ => exact .refl files key

/-- What becomes of the package description is told by what is at its key. -/
theorem updateDescription_congr (options : ProjectOptions)
    (h : a.AgreeAt b (descriptionPath root).key) :
    (updateDescription options a root).2 = (updateDescription options b root).2 ∧
      (updateDescription options a root).1.AgreeAt (updateDescription options b root).1
        (descriptionPath root).key := by
  have hread : a.readText (root.join "package.json".toList) =
      b.readText (root.join "package.json".toList) := h.readText
  unfold updateDescription
  simp only [hread]
  cases b.readText (root.join "package.json".toList) with
  | error failure =>
    simp only
    split
    · exact ⟨rfl, h⟩
    · exact ⟨rfl, h⟩
  | ok text =>
    simp only
    split
    · exact ⟨rfl, h⟩
    · exact ⟨rfl, h⟩
    · split
      · exact ⟨rfl, h⟩
      · rename_i updated _ _
        rcases h.writeText updated.toList with ⟨failure, hfails, hfails'⟩ | ⟨x, y, hx, hy, hxy⟩
        · rw [← descriptionPath, hfails, hfails']
          exact ⟨rfl, h⟩
        · rw [← descriptionPath, hx, hy]
          exact ⟨rfl, hxy⟩

/-! ## Good order is kept -/

namespace FileSystem.WellFormed

variable (options)

theorem migrateFile (h : files.WellFormed) (path : Path) :
    (migrateFile options files path).1.WellFormed := by
  have houtcome := migrateFile_outcome options files path
  generalize SdkMigration.migrateFile options files path = result at houtcome ⊢
  cases houtcome with
  | written _ _ _ _ hwritten => exact h.writeText hwritten
  | _ => exact h

theorem migrateFiles (h : files.WellFormed) (paths : List Path) (report : ProjectReport) :
    (migrateFiles options paths files report).1.WellFormed := by
  induction paths generalizing files report with
  | nil => exact h
  | cons path rest ih => exact ih (h.migrateFile options path) _

theorem updateDescription (h : files.WellFormed) (root : Path) :
    (updateDescription options files root).1.WellFormed := by
  have houtcome := updateDescription_outcome options files root
  generalize SdkMigration.updateDescription options files root = result at houtcome ⊢
  cases houtcome with
  | written _ _ _ hwritten => exact h.writeText hwritten
  | _ => exact h

end FileSystem.WellFormed

/-! ## A whole run -/

/-- What a run does that migrates the given files and then the package description: each is
treated as if it were alone, and nothing else changes. -/
structure RunOver (options : ProjectOptions) (files : FileSystem) (root : Path)
    (paths : List Path) : Prop where
  result : (migrateProject options files root).2 =
    (updateDescription options files root).2.map fun updated =>
      { reportOn options files paths {} with packageUpdated := updated }
  each : ∀ path ∈ paths, (migrateProject options files root).1.AgreeAt
    (migrateFile options files path).1 path.key
  description : (migrateProject options files root).1.AgreeAt
    (updateDescription options files root).1 (descriptionPath root).key
  others : ∀ key, key ≠ (descriptionPath root).key → (∀ path ∈ paths, path.key ≠ key) →
    (migrateProject options files root).1.AgreeAt files key

theorem map_eq_error_iff {ε α β : Type} {f : α → β} {result : Except ε α} {error : ε} :
    result.map f = .error error ↔ result = .error error := by
  cases result <;> simp [Except.map]

theorem map_eq_ok_iff {ε α β : Type} {f : α → β} {result : Except ε α} {value : β} :
    result.map f = .ok value ↔ ∃ found, result = .ok found ∧ f found = value := by
  cases result <;> simp [Except.map]

/-- Once the programs are found, a run fails as the package description does. -/
theorem RunOver.error_iff {paths : List Path} (h : RunOver options files root paths)
    {error : ProjectError} :
    (migrateProject options files root).2 = .error error ↔
      (updateDescription options files root).2 = .error error := by
  rw [h.result, map_eq_error_iff]

/-- Once the programs are found, a run succeeds as the package description does, and reports
on both. -/
theorem RunOver.ok_iff {paths : List Path} (h : RunOver options files root paths)
    {report : ProjectReport} :
    (migrateProject options files root).2 = .ok report ↔
      ∃ updated, (updateDescription options files root).2 = .ok updated ∧
        { reportOn options files paths {} with packageUpdated := updated } = report := by
  rw [h.result, map_eq_ok_iff]

/-- A run that does not find the programs changes nothing. -/
theorem migrateProject_of_walk_error {error : ProjectError}
    (h : programsBelow files options.exclude (files.nodes.length + 1) root = .error error) :
    migrateProject options files root = (files, .error error) := by
  unfold migrateProject
  rw [h]

/-- A run that finds the programs migrates them in their order and then updates the package
description. -/
theorem migrateProject_eq {found : List Path}
    (h : programsBelow files options.exclude (files.nodes.length + 1) root = .ok found) :
    migrateProject options files root =
      let migrated := migrateFiles options (sortPaths found) files {}
      let updated := updateDescription options migrated.1 root
      (updated.1, updated.2.map fun updated => { migrated.2 with packageUpdated := updated }) := by
  unfold migrateProject
  rw [h]
  simp only
  generalize updateDescription options (migrateFiles options (sortPaths found) files {}).1 root =
    last
  obtain ⟨after, result⟩ := last
  cases result <;> rfl

/-- A run leaves a file system in good order, so that another one can follow. -/
theorem FileSystem.WellFormed.migrateProject (h : files.WellFormed) (options : ProjectOptions)
    (root : Path) : (migrateProject options files root).1.WellFormed := by
  cases hfound : programsBelow files options.exclude (files.nodes.length + 1) root with
  | error error =>
    rw [migrateProject_of_walk_error hfound]
    exact h
  | ok found =>
    rw [migrateProject_eq hfound]
    exact (h.migrateFiles options (sortPaths found) {}).updateDescription options root

/-- The programs that a run finds are those of the project, in the order of their paths, and
every directory that it reached can be listed or refuses access. -/
theorem sources_of_walk_ok (hfiles : files.WellFormed) {found : List Path}
    (h : programsBelow files options.exclude (files.nodes.length + 1) root = .ok found) :
    (sortPaths found).Pairwise Path.Before ∧
      (∀ path, path ∈ sortPaths found ↔ files.IsSource options.exclude root path) ∧
      ∀ directory, files.Reaches options.exclude root directory →
        files.Lists directory ∨ files.Refuses directory := by
  have hwalk := hfiles.walk_gives options.exclude root
  rw [h] at hwalk
  cases hwalk with
  | found hsources hdistinct hlisted =>
    refine ⟨sortPaths_sorted hdistinct, ?_, hlisted⟩
    intro path
    exact (sortPaths_perm found).mem_iff.trans (hsources path)

theorem migrateProject_of_walk_ok (hfiles : files.WellFormed) {found : List Path}
    (h : programsBelow files options.exclude (files.nodes.length + 1) root = .ok found) :
    RunOver options files root (sortPaths found) := by
  obtain ⟨hsorted, hsources, -⟩ := sources_of_walk_ok hfiles h
  have hpaths : (sortPaths found).Pairwise fun a b => a.key ≠ b.key :=
    hsorted.imp Path.Before.key_ne
  have hdescription : ∀ path ∈ sortPaths found, path.key ≠ (descriptionPath root).key :=
    fun path hpath => ((hsources path).mp hpath).key_ne_description root
  obtain ⟨hreport, heach, helse⟩ := migrateFiles_apart options hpaths files {}
  obtain ⟨hupdate, hafter⟩ :=
    updateDescription_congr options (helse (descriptionPath root).key hdescription)
  have hrun := migrateProject_eq h
  refine ⟨?_, ?_, ?_, ?_⟩
  · rw [hrun]
    simp only [hupdate, hreport]
  · intro path hpath
    rw [hrun]
    exact (updateDescription_agreeAt (hdescription path hpath)).trans (heach path hpath)
  · rw [hrun]
    exact hafter
  · intro key hkey hother
    rw [hrun]
    exact (updateDescription_agreeAt hkey).trans (helse key hother)

end SdkMigration
