import SdkMigration.Mapping.BuiltIn
import SdkMigration.Migration.Calls
import SdkMigration.Migration.Enums
import SdkMigration.Migration.ImportBlock
import SdkMigration.Migration.Leftovers
import SdkMigration.Migration.Types
import SdkMigration.Program.MediaType
import SdkMigration.Program.Reading

/-!
# Migrating a file

Runs the stages of a migration over one file.  Every run stands for itself:
nothing learned about one file is known when another one is migrated.
-/

namespace SdkMigration

/-- What to migrate away from, and how. -/
structure MigrationOptions where
  /-- The module as it is named in imports. -/
  module : String := defaultModule
  /-- The global name of the module. -/
  globalName : String := defaultAlias
  mappings : MappingTable := .builtIn

/-- A migrated file. -/
structure MigratedFile where
  text : Text
  report : Report
  notes : List Note

/-- Why a file cannot be migrated. -/
inductive TransformError where
  /-- The text is no program. -/
  | unreadable
  /-- The file at the given location does not hold a program. -/
  | unsupported (location : String) (mediaType : MediaType)
deriving DecidableEq

/-- What is told about a file that cannot be migrated. -/
def TransformError.message : TransformError → String
  | .unreadable => "<syntax error>"
  | .unsupported location mediaType =>
    "Expected a JavaScript or TypeScript module, but identified a " ++ mediaType.name ++
      " module.\n  Specifier: " ++ location

/-- The draft before the first stage: what the file binds from the module, its
global name being bound tentatively where it stands for the module. -/
def openDraft (options : MigrationOptions) (sites : ImportSites) : Draft :=
  let found : Draft :=
    { bindings := sites.bindings
      notes := sites.opaqueLoads.map fun load => .opaqueLoad load.kind }
  if sites.usesImplicitAlias then
    { found.addNotes [.implicitAlias options.globalName] with
      bindings := found.bindings.addTentative options.globalName }
  else found

namespace Draft

/-- Runs the stages that rewrite references.  Types and enumerations are
rewritten only where the dialect has types. -/
def rewriteReferences (draft : Draft) (mappings : MappingTable) (dialect : Dialect) (text : Text)
    (program : Program) : Draft :=
  let called := draft.rewriteCalls text program mappings.functions
  if dialect.types then
    (called.rewriteTypes program mappings.interfaces).rewriteEnums text program mappings.enums
  else called

/-- Drops the tentative alias unless a reference through it was rewritten. -/
def settleAlias (draft : Draft) (globalName : String) : Draft :=
  let kept := draft.bindings.settle
  let notes := if kept.hasTentative then [] else [.implicitAliasDropped globalName]
  { draft.addNotes notes with bindings := kept }

end Draft

/-- The draft when all references have been dealt with. -/
def referenceDraft (options : MigrationOptions) (dialect : Dialect) (text : Text)
    (program : Program) : Draft :=
  let sites := program.importSites text options.module options.globalName
  let rewritten :=
    (openDraft options sites).rewriteReferences options.mappings dialect text program
  if sites.usesImplicitAlias then rewritten.settleAlias options.globalName else rewritten

/-- The draft when all stages have run. -/
def finalDraft (options : MigrationOptions) (dialect : Dialect) (text : Text)
    (program : Program) : Draft :=
  let sites := program.importSites text options.module options.globalName
  let flagged := (referenceDraft options dialect text program).flagLeftovers text program
  flagged.rewriteImports text sites options.module

/-- Migrates a program whose text, without a byte order mark, is given. -/
def migrateProgram (options : MigrationOptions) (dialect : Dialect) (text : Text)
    (program : Program) : MigratedFile :=
  let draft := finalDraft options dialect text program
  ⟨draft.edits.apply text, draft.report, draft.notes⟩

/-- Migrates the file at a location. -/
def transform (options : MigrationOptions) (location : String) (mediaType : MediaType)
    (text : Text) : Except TransformError MigratedFile :=
  match mediaType.dialect? with
  | none => .error (.unsupported location mediaType)
  | some dialect =>
    let body := Program.withoutMark text
    match Program.read? dialect body with
    | none => .error .unreadable
    | some program => .ok (migrateProgram options dialect body program)

/-- Migrates a JavaScript file by the built-in mapping. -/
def transformJavaScript (text : Text) : Except TransformError MigratedFile :=
  transform {} "file:///input.js" .javaScript text

/-- Migrates a TypeScript file by the built-in mapping. -/
def transformTypeScript (text : Text) : Except TransformError MigratedFile :=
  transform {} "file:///input.ts" .typeScript text

end SdkMigration
