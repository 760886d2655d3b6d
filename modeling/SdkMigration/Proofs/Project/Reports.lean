import Mathlib.Algebra.GroupWithZero.Nat
import SdkMigration.Proofs.Project.Runs

/-!
# The report of a run

A run that succeeds reports on every program of the project once, either as migrated or as
failed, and both lists are in the order of the paths (`reports_every_source`).  A program
fails when it cannot be read as text, has no location, is no program or cannot be written
(`FileFails`), and the totals are the sum of what was done to each file (`Report.sum`).
-/

namespace SdkMigration

/-! ## Totals -/

/-- Several reports together. -/
def Report.sum (reports : List Report) : Report where
  rewrittenCalls := (reports.map (·.rewrittenCalls)).sum
  flaggedCalls := (reports.map (·.flaggedCalls)).sum
  rewrittenTypes := (reports.map (·.rewrittenTypes)).sum
  rewrittenEnums := (reports.map (·.rewrittenEnums)).sum
  opaqueSites := (reports.map (·.opaqueSites)).sum
  unmatchedReferences := (reports.map (·.unmatchedReferences)).sum
  flaggedReferences := (reports.map (·.flaggedReferences)).sum
  rewrittenImports := reports.any (·.rewrittenImports)

theorem Report.sum_concat (reports : List Report) (last : Report) :
    sum (reports ++ [last]) = (sum reports).add last := by
  simp [sum, add]

variable {options : ProjectOptions} {files : FileSystem} {root path : Path} {paths : List Path}

/-! ## What is reported on files -/

/-- The entry of a file that was migrated. -/
def FileEntry.ofResult? : Except FileError FileEntry → Option FileEntry
  | .ok entry => some entry
  | .error _ => none

/-- The failure of a file that was not. -/
def FileFailure.ofResult? (path : Path) : Except FileError FileEntry → Option FileFailure
  | .ok _ => none
  | .error error => some ⟨path, error⟩

theorem FileEntry.ofResult?_eq_some_iff {result : Except FileError FileEntry} {entry : FileEntry} :
    ofResult? result = some entry ↔ result = .ok entry := by
  cases result <;> simp [ofResult?]

theorem FileFailure.ofResult?_eq_some_iff {result : Except FileError FileEntry}
    {failure : FileFailure} :
    ofResult? path result = some failure ↔ failure.path = path ∧ result = .error failure.error := by
  obtain ⟨other, error⟩ := failure
  cases result <;> simp [ofResult?, eq_comm]

theorem files_reportOn (report : ProjectReport) :
    (reportOn options files paths report).files = report.files ++ paths.filterMap fun path =>
      FileEntry.ofResult? (migrateFile options files path).2 := by
  induction paths generalizing report with
  | nil => simp [reportOn]
  | cons path rest ih =>
    refine (ih _).trans ?_
    cases hresult : (migrateFile options files path).2 <;>
      simp [ProjectReport.addFile, FileEntry.ofResult?, hresult]

theorem failures_reportOn (report : ProjectReport) :
    (reportOn options files paths report).failures = report.failures ++ paths.filterMap fun path =>
      FileFailure.ofResult? path (migrateFile options files path).2 := by
  induction paths generalizing report with
  | nil => simp [reportOn]
  | cons path rest ih =>
    refine (ih _).trans ?_
    cases hresult : (migrateFile options files path).2 <;>
      simp [ProjectReport.addFile, FileFailure.ofResult?, hresult]

/-- The totals stay the sum of what is reported on the files. -/
theorem totals_reportOn {report : ProjectReport}
    (h : report.totals = Report.sum (report.files.map (·.report))) :
    (reportOn options files paths report).totals =
      Report.sum ((reportOn options files paths report).files.map (·.report)) := by
  induction paths generalizing report with
  | nil => exact h
  | cons path rest ih =>
    have hadded : ∀ result, (report.addFile path result).totals =
        Report.sum ((report.addFile path result).files.map (·.report)) := by
      intro result
      cases result with
      | error error => exact h
      | ok entry =>
        show report.totals.add entry.report = _
        rw [ProjectReport.addFile, List.map_append, List.map_singleton, Report.sum_concat, ← h]
    exact ih (hadded _)

theorem mem_files_reportOn {entry : FileEntry} :
    entry ∈ (reportOn options files paths {}).files ↔
      entry.path ∈ paths ∧ (migrateFile options files entry.path).2 = .ok entry := by
  simp only [files_reportOn, List.nil_append, List.mem_filterMap, FileEntry.ofResult?_eq_some_iff]
  constructor
  · rintro ⟨path, hpath, hresult⟩
    obtain rfl := path_of_migrateFile hresult
    exact ⟨hpath, hresult⟩
  · rintro ⟨hpath, hresult⟩
    exact ⟨entry.path, hpath, hresult⟩

theorem mem_failures_reportOn {failure : FileFailure} :
    failure ∈ (reportOn options files paths {}).failures ↔
      failure.path ∈ paths ∧ (migrateFile options files failure.path).2 = .error failure.error := by
  simp only [failures_reportOn, List.nil_append, List.mem_filterMap,
    FileFailure.ofResult?_eq_some_iff]
  constructor
  · rintro ⟨path, hpath, rfl, hresult⟩
    exact ⟨hpath, hresult⟩
  · rintro ⟨hpath, hresult⟩
    exact ⟨failure.path, hpath, rfl, hresult⟩

/-- What is told about some of the paths is in the order of the paths. -/
theorem filterMap_sorted {α : Type} {f : Path → Option α} {pathOf : α → Path}
    (hf : ∀ path found, f path = some found → pathOf found = path)
    (h : paths.Pairwise Path.Before) :
    (paths.filterMap f).Pairwise fun a b => (pathOf a).Before (pathOf b) := by
  refine h.filterMap f ?_
  intro a b hab first hfirst second hsecond
  rw [hf a first hfirst, hf b second hsecond]
  exact hab

theorem files_reportOn_sorted (h : paths.Pairwise Path.Before) :
    (reportOn options files paths {}).files.Pairwise fun a b => a.path.Before b.path := by
  rw [files_reportOn, List.nil_append]
  refine filterMap_sorted ?_ h
  intro path entry hentry
  exact path_of_migrateFile (FileEntry.ofResult?_eq_some_iff.mp hentry)

theorem failures_reportOn_sorted (h : paths.Pairwise Path.Before) :
    (reportOn options files paths {}).failures.Pairwise fun a b => a.path.Before b.path := by
  rw [failures_reportOn, List.nil_append]
  refine filterMap_sorted ?_ h
  intro path failure hfailure
  exact (FileFailure.ofResult?_eq_some_iff.mp hfailure).1

/-- Every file is reported, as migrated or as failed. -/
theorem mem_paths_reportOn :
    path ∈ (reportOn options files paths {}).files.map (·.path) ++
      (reportOn options files paths {}).failures.map (·.path) ↔ path ∈ paths := by
  rw [List.mem_append, List.mem_map, List.mem_map]
  constructor
  · rintro (⟨entry, hentry, rfl⟩ | ⟨failure, hfailure, rfl⟩)
    · exact (mem_files_reportOn.mp hentry).1
    · exact (mem_failures_reportOn.mp hfailure).1
  · intro hpath
    cases hresult : (migrateFile options files path).2 with
    | ok entry =>
      have hsame := path_of_migrateFile hresult
      exact Or.inl ⟨entry, mem_files_reportOn.mpr ⟨hsame ▸ hpath, hsame ▸ hresult⟩, hsame⟩
    | error error => exact Or.inr ⟨⟨path, error⟩, mem_failures_reportOn.mpr ⟨hpath, hresult⟩, rfl⟩

/-- No file is reported twice. -/
theorem nodup_paths_reportOn (h : paths.Pairwise Path.Before) :
    ((reportOn options files paths {}).files.map (·.path) ++
      (reportOn options files paths {}).failures.map (·.path)).Nodup := by
  have hne : ∀ a b : Path, a.Before b → a ≠ b := by
    rintro a _ hab rfl
    exact Path.Before.key_ne hab rfl
  refine List.nodup_append.mpr ⟨?_, ?_, ?_⟩
  · exact List.pairwise_map.mpr ((files_reportOn_sorted h).imp fun hab => hne _ _ hab)
  · exact List.pairwise_map.mpr ((failures_reportOn_sorted h).imp fun hab => hne _ _ hab)
  · intro path hfile other hfailed hsame
    obtain ⟨entry, hentry, rfl⟩ := List.mem_map.mp hfile
    obtain ⟨failure, hfailure, rfl⟩ := List.mem_map.mp hfailed
    have hok := (mem_files_reportOn.mp hentry).2
    have herror := (mem_failures_reportOn.mp hfailure).2
    rw [← hsame, hok] at herror
    cases herror

/-! ## Why a file fails -/

/-- Whether a program cannot be migrated for a reason: it cannot be read as text, has no
location, is no program, or gets another text that cannot be written. -/
inductive FileFails (options : ProjectOptions) (files : FileSystem) (path : Path) :
    FileError → Prop
  | reading {failure : Failure} (unread : files.readText path = .error failure) :
      FileFails options files path (.unreadable failure)
  | locating {text : Text} (read : files.readText path = .ok text)
      (relative : path.isAbsolute = false) : FileFails options files path (.noLocation path)
  | parsing {text : Text} {dialect : Dialect} (read : files.readText path = .ok text)
      (absolute : path.isAbsolute = true)
      (spoken : (MediaType.ofFileName path.fileName).dialect? = some dialect)
      (malformed : Program.read? dialect (Program.withoutMark text) = none) :
      FileFails options files path (.transform .unreadable)
  | writing {text : Text} {migrated : MigratedFile} {failure : Failure}
      (read : files.readText path = .ok text)
      (migrates : migrateText options path text = .ok migrated) (changed : migrated.text ≠ text)
      (real : options.dryRun = false) (fault : files.fault? path .write = some failure) :
      FileFails options files path (.unwritable failure)

theorem MediaType.dialect?_of_isMigratable {mediaType : MediaType}
    (h : mediaType.isMigratable = true) : ∃ dialect, mediaType.dialect? = some dialect := by
  cases mediaType <;> simp_all [isMigratable, dialect?]

theorem migrateText_error_iff {dialect : Dialect} {text : Text} {error : FileError}
    (hdialect : (MediaType.ofFileName path.fileName).dialect? = some dialect) :
    migrateText options path text = .error error ↔
      path.isAbsolute = false ∧ error = .noLocation path ∨
      path.isAbsolute = true ∧ Program.read? dialect (Program.withoutMark text) = none ∧
        error = .transform .unreadable := by
  unfold migrateText transform
  cases path.isAbsolute with
  | false => simp [eq_comm]
  | true =>
    simp only [hdialect]
    cases Program.read? dialect (Program.withoutMark text) with
    | none => simp [eq_comm]
    | some program => simp

/-- A program is reported as failed exactly for the reasons that there are. -/
theorem migrateFile_error_iff
    (hprogram : (MediaType.ofFileName path.fileName).isMigratable = true) {error : FileError} :
    (migrateFile options files path).2 = .error error ↔ FileFails options files path error := by
  obtain ⟨dialect, hdialect⟩ := MediaType.dialect?_of_isMigratable hprogram
  constructor
  · intro herror
    have houtcome := migrateFile_outcome options files path
    generalize migrateFile options files path = result at houtcome herror
    cases houtcome with
    | unreadable hunread =>
      obtain rfl := Except.error.inj herror
      exact .reading hunread
    | refused hread hrefused =>
      obtain rfl := Except.error.inj herror
      rcases (migrateText_error_iff hdialect).mp hrefused with
        ⟨hrelative, rfl⟩ | ⟨habsolute, hmalformed, rfl⟩
      · exact .locating hread hrelative
      · exact .parsing hread habsolute hdialect hmalformed
    | unwritable hread hmigrates hchanged hreal hfails =>
      obtain rfl := Except.error.inj herror
      exact .writing hread hmigrates hchanged hreal (FileSystem.writeText_eq_error_iff.mp hfails)
    | unchanged | foretold | written => cases herror
  · intro hfails
    unfold migrateFile
    cases hfails with
    | reading hunread => rw [hunread]
    | locating hread hrelative =>
      rw [hread]
      simp only [(migrateText_error_iff hdialect).mpr (Or.inl ⟨hrelative, rfl⟩)]
    | parsing hread habsolute hspoken hmalformed =>
      obtain rfl := Option.some.inj (hdialect.symm.trans hspoken)
      rw [hread]
      simp only [(migrateText_error_iff hdialect).mpr (Or.inr ⟨habsolute, hmalformed, rfl⟩)]
    | writing hread hmigrates hchanged hreal hfault =>
      rw [hread]
      simp only [hmigrates, bne_iff_ne.mpr hchanged, hreal, Bool.not_false, Bool.and_self, if_true,
        FileSystem.writeText_eq_error_iff.mpr hfault]

/-! ## The report of a project -/

/-- A run that succeeds found every directory that it reached listable, or refused.  Its
report has the programs below the root, each once, as migrated or as failed and in the order
of the paths; those fail that have a reason to; and the totals are the sum of what was done
to the files. -/
theorem reports_every_source (hfiles : files.WellFormed) {report : ProjectReport}
    (h : (migrateProject options files root).2 = .ok report) :
    report.files.Pairwise (fun a b => a.path.Before b.path) ∧
    report.failures.Pairwise (fun a b => a.path.Before b.path) ∧
    (report.files.map (·.path) ++ report.failures.map (·.path)).Nodup ∧
    (∀ path, path ∈ report.files.map (·.path) ++ report.failures.map (·.path) ↔
      files.IsSource options.exclude root path) ∧
    (∀ directory, files.Reaches options.exclude root directory →
      files.Lists directory ∨ files.Refuses directory) ∧
    (∀ path error, ⟨path, error⟩ ∈ report.failures ↔
      files.IsSource options.exclude root path ∧ FileFails options files path error) ∧
    report.totals = Report.sum (report.files.map (·.report)) := by
  cases hfound : programsBelow files options.exclude (files.nodes.length + 1) root with
  | error error =>
    rw [migrateProject_of_walk_error hfound] at h
    cases h
  | ok found =>
    obtain ⟨hsorted, hmem, hlisted⟩ := sources_of_walk_ok hfiles hfound
    have hrun : RunOver options files root (sortPaths found) :=
      migrateProject_of_walk_ok hfiles hfound
    obtain ⟨updated, -, rfl⟩ := hrun.ok_iff.mp h
    refine ⟨files_reportOn_sorted hsorted, failures_reportOn_sorted hsorted,
      nodup_paths_reportOn hsorted, fun path => mem_paths_reportOn.trans (hmem path), hlisted, ?_,
      totals_reportOn rfl⟩
    intro path error
    refine mem_failures_reportOn.trans ?_
    rw [hmem]
    refine and_congr_right fun hsource => migrateFile_error_iff ?_
    obtain ⟨directory, entry, -, -, -, htakes, rfl⟩ := hsource
    exact htakes.migratable

/-- A project with a program, a file that is no text, and a program in a directory that is
passed over. -/
private def mixedProject : FileSystem :=
  ((({} : FileSystem).put ⟨"/p/b.ts".toList⟩
    (.text "import \x7b print \x7d from \"@microsoft/teams-js\";\nprint();\n".toList)).put
    ⟨"/p/a.js".toList⟩ (.bytes [0xFF])).put ⟨"/p/.git/c.js".toList⟩ (.text [])

private theorem mixedProject_facts :
    (migrateProject {} mixedProject ⟨"/p".toList⟩).2.map (fun report =>
      (report.files.map (·.path), report.failures.map (·.path), report.totals.rewrittenCalls)) =
    .ok ([⟨"/p/b.ts".toList⟩], [⟨"/p/a.js".toList⟩], 1) := by
  decide +kernel

/-- The run finds the program and the file that is no text, which fails, and nothing else. -/
theorem mixedProject_reported :
    ∃ report, mixedProject.WellFormed ∧
      (migrateProject {} mixedProject ⟨"/p".toList⟩).2 = .ok report ∧
      (∀ path, mixedProject.IsSource [] ⟨"/p".toList⟩ path ↔
        path = ⟨"/p/b.ts".toList⟩ ∨ path = ⟨"/p/a.js".toList⟩) ∧
      (∃ error, FileFails {} mixedProject ⟨"/p/a.js".toList⟩ error) ∧
      report.totals = Report.sum (report.files.map (·.report)) ∧
      report.totals.rewrittenCalls = 1 := by
  have hfiles : mixedProject.WellFormed :=
    ((FileSystem.WellFormed.empty.put _ _).put _ _).put _ _
  obtain ⟨report, hresult, hfound⟩ := map_eq_ok_iff.mp mixedProject_facts
  obtain ⟨hpaths, hrest⟩ := Prod.mk.inj hfound
  obtain ⟨hfailed, hcalls⟩ := Prod.mk.inj hrest
  obtain ⟨-, -, -, hsources, -, hfails, htotals⟩ := reports_every_source hfiles hresult
  refine ⟨report, hfiles, hresult, ?_, ?_, htotals, hcalls⟩
  · intro path
    rw [← hsources, hpaths, hfailed]
    simp
  · obtain ⟨failure, hfailure, hpath⟩ := List.mem_map.mp (hfailed ▸ List.mem_singleton_self _)
    obtain ⟨path, error⟩ := failure
    obtain rfl : path = _ := hpath
    exact ⟨error, ((hfails _ error).mp hfailure).2⟩

end SdkMigration
