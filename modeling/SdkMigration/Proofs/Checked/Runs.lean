import SdkMigration.Proofs.Checked.Enums
import SdkMigration.Proofs.Checked.Imports

/-!
# Runs with their checks

A migration whose partial operations all come with their checks never gives up, and it
gives what the migration gives.  This holds for every text, every location and kind of
file, every module and global name, and every mapping: each stage keeps to its checks in
whatever state the stages before have left it.
-/

namespace SdkMigration

/-- Runs the stages that rewrite references. -/
def Draft.rewriteReferences? (draft : Draft) (mappings : MappingTable) (dialect : Dialect)
    (text : Text) (program : Program) : Option Draft := do
  let called ← draft.rewriteCalls? text program mappings.functions
  if dialect.types then
    let typed ← called.rewriteTypes? program mappings.interfaces
    typed.rewriteEnums? text program mappings.enums
  else return called

/-- Migrates a program whose text, without a byte order mark, is given. -/
def migrateProgram? (options : MigrationOptions) (dialect : Dialect) (text : Text)
    (program : Program) : Option MigratedFile := do
  let sites ← program.importSites? text options.module options.globalName
  let rewritten ←
    (openDraft options sites).rewriteReferences? options.mappings dialect text program
  let settled :=
    if sites.usesImplicitAlias then rewritten.settleAlias options.globalName else rewritten
  let flagged ← settled.flagLeftovers? text program
  let final ← flagged.rewriteImports? text sites options.module
  let migrated ← final.edits.carriedOut? text
  return ⟨migrated, final.report, final.notes⟩

/-- Migrates the file at a location. -/
def transform? (options : MigrationOptions) (location : String) (mediaType : MediaType)
    (text : Text) : Option (Except TransformError MigratedFile) :=
  match mediaType.dialect? with
  | none => some (.error (.unsupported location mediaType))
  | some dialect =>
    let body := Program.withoutMark text
    match Program.read? dialect body with
    | none => some (.error .unreadable)
    | some program => (migrateProgram? options dialect body program).map .ok

theorem Draft.rewriteReferences?_eq {body : Text} {program : Program}
    (hplaced : program.Placed body) (draft : Draft) (mappings : MappingTable)
    (dialect : Dialect) : draft.rewriteReferences? mappings dialect body program =
      some (draft.rewriteReferences mappings dialect body program) := by
  simp only [rewriteReferences?, rewriteReferences, rewriteCalls?_eq hplaced,
    rewriteTypes?_eq hplaced, rewriteEnums?_eq hplaced, Option.bind_eq_bind, Option.bind_some]
  split <;> rfl

/-- A program that stands in the text is migrated within the checks. -/
theorem migrateProgram?_eq {options : MigrationOptions} {dialect : Dialect} {body : Text}
    {program : Program} (hplaced : program.Placed body) :
    migrateProgram? options dialect body program =
      some (migrateProgram options dialect body program) := by
  let final := finalDraft options dialect body program
  have hstages : migrateProgram? options dialect body program =
      (final.edits.carriedOut? body).map fun migrated => ⟨migrated, final.report, final.notes⟩ := by
    simp only [migrateProgram?, Program.importSites?_eq hplaced,
      Draft.rewriteReferences?_eq hplaced, Draft.flagLeftovers?_eq hplaced,
      Draft.rewriteImports?_eq hplaced, Option.bind_eq_bind, Option.bind_some]
    exact Option.map_eq_bind.symm
  obtain ⟨hedits, hconsistent⟩ := @finalDraft_legacyEdits options dialect body program hplaced
  rw [hstages, hconsistent.carriedOut?_eq fun edit hedit => LegacyEdit.stop_le hplaced
    (hedits edit hedit)]
  rfl

/-- No check of a migration ever fails, nor does one when a mapping is read: a path has a
name behind the first where it is taken off.  Every name that is read by its index is
there, the end of a chain that a rule stands for starts with a name behind the alias, every
part of the text is read in order and inside the text, every binding for which a match is
recorded is there, and no two edits that are carried out overlap. -/
theorem transform_within_checks :
    (∀ group written, readNames? group written =
        some ((readPath group written).map NamePath.names)) ∧
      ∀ (options : MigrationOptions) (location : String) (mediaType : MediaType) (text : Text),
        transform? options location mediaType text =
          some (transform options location mediaType text) := by
  refine ⟨readNames?_eq, fun options location mediaType text => ?_⟩
  unfold transform? transform
  cases mediaType.dialect? with
  | none => rfl
  | some dialect =>
    simp only
    cases hread : Program.read? dialect (Program.withoutMark text) with
    | none => rfl
    | some program =>
      simp only [migrateProgram?_eq (Program.placed_of_read hread), Option.map_some]

end SdkMigration
