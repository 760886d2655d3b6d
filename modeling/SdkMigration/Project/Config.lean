import SdkMigration.Json.Reader
import SdkMigration.Json.Record
import SdkMigration.Mapping.Format
import SdkMigration.Migration.Transform
import SdkMigration.Package.Dependencies
import SdkMigration.Project.FileSystem

/-!
# Configuration

What a migration of a project may be told by a file.  Every part may be left
out and then stays as it is by default.  Fields of other names are refused.
-/

namespace SdkMigration

/-- Why a project cannot be migrated. -/
inductive ProjectError where
  | unreadable (path : Path) (failure : Failure)
  /-- The file at the path is no configuration. -/
  | config (path : Path)
  | mapping (error : MappingError)
  | package (error : PackageError)
deriving DecidableEq, Repr

/-- What is told about a project that cannot be migrated. -/
def ProjectError.message : ProjectError → String
  | .unreadable path _ => "Failed reading " ++ path.shown ++ "."
  | .config path => "Failed parsing migration config " ++ path.shown ++ "."
  | .mapping error => error.message
  | .package error => error.message

/-- What a configuration says. -/
structure MigrationConfig where
  moduleName : Option String := none
  defaultAlias : Option String := none
  /-- The file of the mapping to use, relative to the configuration. -/
  mappingsFile : Option String := none
  packageVersion : Option String := none
  /-- Names of files and directories to pass over. -/
  exclude : List String := []
deriving DecidableEq, Repr

namespace MigrationConfig

/-- The names of the fields. -/
def fields : List String :=
  ["moduleName", "defaultAlias", "mappingsFile", "packageVersion", "exclude"]

/-- The configuration that a value stands for. -/
def ofJson? : Json → Option MigrationConfig
  | .object entries => do
    let text := Json.fieldOr? (Json.asOption? Json.asString?) none
    let moduleName ← text "moduleName" entries
    let defaultAlias ← text "defaultAlias" entries
    let mappingsFile ← text "mappingsFile" entries
    let packageVersion ← text "packageVersion" entries
    let exclude ← Json.fieldOr? (Json.asList? Json.asString?) [] "exclude" entries
    if entries.all fun entry => fields.contains entry.1 then
      return ⟨moduleName, defaultAlias, mappingsFile, packageVersion, exclude⟩
    else none
  | .array (moduleName :: defaultAlias :: mappingsFile :: packageVersion :: rest) => do
    let text := Json.asOption? Json.asString?
    let moduleName ← text moduleName
    let defaultAlias ← text defaultAlias
    let mappingsFile ← text mappingsFile
    let packageVersion ← text packageVersion
    let (exclude, rest) ← Json.nextOr? (Json.asList? Json.asString?) [] rest
    if rest.isEmpty then
      return ⟨moduleName, defaultAlias, mappingsFile, packageVersion, exclude⟩
    else none
  | _ => none

/-- Reads the text of a file. -/
def readFile (files : FileSystem) (path : Path) : Except ProjectError Text :=
  match files.readText path with
  | .ok text => .ok text
  | .error failure => .error (.unreadable path failure)

/-- Reads the configuration at a path. -/
def load (files : FileSystem) (path : Path) : Except ProjectError MigrationConfig := do
  let text ← readFile files path
  match (Json.read? (String.ofList text)).bind ofJson? with
  | some config => return config
  | none => throw (.config path)

end MigrationConfig

/-- How a project is migrated. -/
structure ProjectOptions where
  migration : MigrationOptions := {}
  /-- The version that package descriptions will ask for. -/
  packageVersion : String := defaultVersion
  /-- Names of files and directories to pass over. -/
  exclude : List String := []
  /-- Whether to tell what would change without writing anything. -/
  dryRun : Bool := false

/-- The mapping that a configuration in the given directory names. -/
def MigrationConfig.mappings (config : MigrationConfig) (files : FileSystem)
    (directory : Path) : Except ProjectError MappingTable :=
  match config.mappingsFile with
  | none => .ok .builtIn
  | some name => do
    let text ← readFile files (directory.join name.toList)
    match MappingTable.read (String.ofList text) with
    | .ok table => return table
    | .error error => throw (.mapping error)

/-- The options that a configuration in the given directory stands for. -/
def ProjectOptions.ofConfig (files : FileSystem) (directory : Path)
    (config : MigrationConfig) : Except ProjectError ProjectOptions := do
  let mappings ← config.mappings files directory
  return {
    migration :=
      { module := config.moduleName.getD defaultModule
        globalName := config.defaultAlias.getD SdkMigration.defaultAlias
        mappings }
    packageVersion := config.packageVersion.getD defaultVersion
    exclude := config.exclude }

end SdkMigration
