import SdkMigration.Project.Config

/-!
# Migrating a project

Migrates every program below a directory and the package description in it.
A file that cannot be read, migrated or written is reported and does not stop
the run; a directory that cannot be listed does, unless access to it is
refused.
-/

namespace SdkMigration

/-! ## Reports -/

/-- A file that was migrated, or had nothing to migrate. -/
structure FileEntry where
  path : Path
  changed : Bool
  report : Report
deriving DecidableEq, Repr

/-- Why a file could not be migrated. -/
inductive FileError where
  | unreadable (failure : Failure)
  /-- The path does not start at the root and so has no location. -/
  | noLocation (path : Path)
  | transform (error : TransformError)
  | unwritable (failure : Failure)
deriving DecidableEq

/-- What is told about a file that could not be migrated. -/
def FileError.message : FileError → String
  | .unreadable failure => "Failed reading file: " ++ failure.message
  | .noLocation path => "Could not convert path to URL.\n  Path: " ++ path.shown
  | .transform error => error.message
  | .unwritable failure => "Failed writing file: " ++ failure.message

/-- A file that could not be migrated. -/
structure FileFailure where
  path : Path
  error : FileError
deriving DecidableEq

/-- What a run did to a project. -/
structure ProjectReport where
  files : List FileEntry := []
  failures : List FileFailure := []
  packageUpdated : Bool := false
  totals : Report := {}

/-- The files that were changed. -/
def ProjectReport.changedFiles (report : ProjectReport) : List FileEntry :=
  report.files.filter (·.changed)

/-! ## Finding the files -/

/-- Whether a directory of the given name is passed over in any project. -/
def isSkippedDirectory (name : Text) : Bool :=
  name.head? == some '.' || String.ofList name == "node_modules"

/-- The programs among the entries of a directory, `below` finding those in a
directory. -/
def programsAmong (files : FileSystem) (exclude : List String)
    (below : Path → Except ProjectError (List Path)) :
    List DirectoryEntry → Except ProjectError (List Path)
  | [] => .ok []
  | entry :: rest => do
    let blocked := (files.fault? entry.path .entry).isSome ||
      exclude.contains (String.ofList entry.name) ||
      (files.fault? entry.path .entryType).isSome
    let found ←
      if blocked then pure []
      else
        match entry.node with
        | .directory => if isSkippedDirectory entry.name then pure [] else below entry.path
        | .text _ | .bytes _ =>
          pure (if (MediaType.ofFileName entry.path.fileName).isMigratable then [entry.path]
            else [])
        | .link => pure []
    let others ← programsAmong files exclude below rest
    return found ++ others

/-- The programs below a directory, `depth` being more than the number of
directories that can be nested in it. -/
def programsBelow (files : FileSystem) (exclude : List String) :
    Nat → Path → Except ProjectError (List Path)
  | 0, _ => .ok []
  | depth + 1, directory =>
    match files.list directory with
    | .ok entries => programsAmong files exclude (programsBelow files exclude depth) entries
    | .error failure =>
      if failure.kind = .permissionDenied then .ok []
      else .error (.unreadable directory failure)

/-- Puts a path behind all that it does not come before. -/
def insertPath (path : Path) : List Path → List Path
  | [] => [path]
  | other :: rest =>
    if PathKey.before path.key other.key then path :: other :: rest
    else other :: insertPath path rest

/-- Paths in their order. -/
def sortPaths (paths : List Path) : List Path :=
  paths.foldl (fun sorted path => insertPath path sorted) []

/-! ## Migrating -/

/-- Migrates the text of a file. -/
def migrateText (options : ProjectOptions) (path : Path) (text : Text) :
    Except FileError MigratedFile :=
  if path.isAbsolute then
    match transform options.migration path.shown (MediaType.ofFileName path.fileName) text with
    | .ok migrated => .ok migrated
    | .error error => .error (.transform error)
  else .error (.noLocation path)

/-- Migrates a file. -/
def migrateFile (options : ProjectOptions) (files : FileSystem) (path : Path) :
    FileSystem × Except FileError FileEntry :=
  match files.readText path with
  | .error failure => (files, .error (.unreadable failure))
  | .ok text =>
    match migrateText options path text with
    | .error error => (files, .error error)
    | .ok migrated =>
      let entry : FileEntry := ⟨path, migrated.text != text, migrated.report⟩
      if entry.changed && !options.dryRun then
        match files.writeText path migrated.text with
        | .ok written => (written, .ok entry)
        | .error failure => (files, .error (.unwritable failure))
      else (files, .ok entry)

/-- Adds what became of a file to a report. -/
def ProjectReport.addFile (report : ProjectReport) (path : Path) :
    Except FileError FileEntry → ProjectReport
  | .ok entry =>
    { report with
      files := report.files ++ [entry]
      totals := report.totals.add entry.report }
  | .error error => { report with failures := report.failures ++ [⟨path, error⟩] }

/-- Migrates files one after the other. -/
def migrateFiles (options : ProjectOptions) :
    List Path → FileSystem → ProjectReport → FileSystem × ProjectReport
  | [], files, report => (files, report)
  | path :: rest, files, report =>
    let (next, result) := migrateFile options files path
    migrateFiles options rest next (report.addFile path result)

/-- Updates the package description of a project, and tells whether there was
something to change. -/
def updateDescription (options : ProjectOptions) (files : FileSystem) (root : Path) :
    FileSystem × Except ProjectError Bool :=
  let path := root.join "package.json".toList
  match files.readText path with
  | .error failure =>
    if failure.kind = .notFound then (files, .ok false)
    else (files, .error (.unreadable path failure))
  | .ok text =>
    match updatePackage (String.ofList text) options.migration.module
        options.packageVersion with
    | .error error => (files, .error (.package error))
    | .ok none => (files, .ok false)
    | .ok (some updated) =>
      if options.dryRun then (files, .ok true)
      else
        match files.writeText path updated.toList with
        | .ok written => (written, .ok true)
        | .error failure => (files, .error (.unreadable path failure))

/-- Migrates a project. -/
def migrateProject (options : ProjectOptions) (files : FileSystem) (root : Path) :
    FileSystem × Except ProjectError ProjectReport :=
  match programsBelow files options.exclude (files.nodes.length + 1) root with
  | .error error => (files, .error error)
  | .ok found =>
    let (migrated, report) := migrateFiles options (sortPaths found) files {}
    match updateDescription options migrated root with
    | (last, .ok updated) => (last, .ok { report with packageUpdated := updated })
    | (last, .error error) => (last, .error error)

end SdkMigration
