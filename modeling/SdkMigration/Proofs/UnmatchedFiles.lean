import SdkMigration.Proofs.ImportedNames
import SdkMigration.Proofs.MergedImports
import SdkMigration.Proofs.Stages.Unmatched

/-!
# Files in which no rule applies

A file that imports the module has its declarations written anew even where no
reference matches a rule.  The block that takes their place imports what they
imported, unless one of three things was said that the block does not say: that the
module as a whole is imported for types only, that a name is imported in two ways, or
that an export is for types only whose name has to be quoted.
-/

namespace SdkMigration

/-- In an accepted file in which no reference matches a rule, the block of declarations
imports the same names as the declarations in whose place it stands, each bound to the
same member and for types only as before, exactly when these names can be imported
anew. -/
theorem transform_reproduces_iff {options : MigrationOptions} {location : String}
    {mediaType : MediaType} {dialect : Dialect} {text : Text} {program : Program}
    (hdialect : mediaType.dialect? = some dialect)
    (hread : Program.read? dialect (Program.withoutMark text) = some program)
    (hunmatched : program.Unmatched dialect
      (opened options (Program.withoutMark text) program).bindings options.mappings)
    (hspellable : ∀ found ∈ program.importedNames options.module, found.Spellable)
    (hmodule : IsOneLine options.module) :
    let body := Program.withoutMark text
    let final := finalDraft options dialect body program
    let block := final.importBlock
      (program.importSites body options.module options.globalName) options.module
    (∃ file, transform options location mediaType text = .ok file ∧
      file.text = final.edits.apply body ∧
      ∀ first others, program.moduleImports options.module = first :: others →
        final.Merges body options.module first others block) ∧
    ((∃ output, Program.read? ⟨true, dialect.markup, true⟩ block = some output ∧
        ∀ found, found ∈ output.importedNames options.module ↔
          found ∈ program.importedNames options.module) ↔
      program.Reproducible options.module) := by
  intro body final block
  have hblock : block = ImportLine.block options.module
      ((program.importSites body options.module options.globalName).bindings.lines
        (program.importSites body options.module options.globalName).sideEffect) := by
    unfold block Draft.importBlock
    rw [hunmatched.bindings_finalDraft]
    exact Bindings.block_eq_lines fun named hnamed => (Program.fresh_importSites hnamed).target
  constructor
  · refine ⟨migrateProgram options dialect body program, ?_, rfl, fun first others hfound =>
      merges_finalDraft (Program.placed_of_read hread) hfound⟩
    unfold transform
    simp only [hdialect, body, hread]
  · rw [hblock]
    exact Program.reproducible_iff hspellable hmodule rfl rfl

/-- A file with two declarations that no rule is for. -/
private def unmatchedFile : Text :=
  ("import t, \x7b type A as B \x7d from \"@microsoft/teams-js\";\n" ++
    "import \x7b c \x7d from \"@microsoft/teams-js\";\nt.d(c as B);\n").toList

private theorem unmatchedFile_facts :
    ∀ program ∈ Program.read? ⟨true, false, true⟩ unmatchedFile,
      program.Unmatched ⟨true, false, true⟩ (opened {} unmatchedFile program).bindings .builtIn ∧
      (∀ found ∈ program.importedNames defaultModule, found.Spellable) ∧
      program.Reproducible defaultModule ∧
      (program.importedNames defaultModule).map (fun found => (found.name, found.isTypeOnly)) =
        [("t", false), ("B", true), ("c", false)] := by
  decide +kernel

/-- The file goes on importing these names as before. -/
theorem unmatchedFile_reproduced :
    ∃ program file output, Program.read? ⟨true, false, true⟩ unmatchedFile = some program ∧
      transform {} "file:///mod.ts" .typeScript unmatchedFile = .ok file ∧
      Program.read? ⟨true, false, true⟩
        ((finalDraft {} ⟨true, false, true⟩ unmatchedFile program).importBlock
          (program.importSites unmatchedFile defaultModule defaultAlias) defaultModule) =
        some output ∧
      ∀ found, found ∈ output.importedNames defaultModule ↔
        found ∈ program.importedNames defaultModule := by
  have hreads : (Program.read? ⟨true, false, true⟩ unmatchedFile).isSome = true := by
    decide +kernel
  obtain ⟨program, hread⟩ := Option.isSome_iff_exists.mp hreads
  obtain ⟨hunmatched, hspellable, hreproducible, -⟩ := unmatchedFile_facts program hread
  have hbody : Program.withoutMark unmatchedFile = unmatchedFile := by decide +kernel
  have hreproduces := @transform_reproduces_iff {} "file:///mod.ts" .typeScript ⟨true, false, true⟩
    unmatchedFile program rfl (by rw [hbody, hread]) (by rw [hbody]; exact hunmatched) hspellable
    (by decide +kernel)
  rw [hbody] at hreproduces
  obtain ⟨⟨file, hfile, -, -⟩, hiff⟩ := hreproduces
  obtain ⟨output, houtput, hsame⟩ := hiff.mpr hreproducible
  exact ⟨program, file, output, hread, hfile, houtput, hsame⟩

/-- A file that imports the module as a whole for types only. -/
private def typesAliasFile : Text :=
  "import type t from \"@microsoft/teams-js\";\nexport const x: t.Foo = 1;\n".toList

private theorem typesAliasFile_facts :
    (Program.read? ⟨true, false, true⟩ typesAliasFile).isSome = true ∧
    (∀ program ∈ Program.read? ⟨true, false, true⟩ typesAliasFile,
      program.Unmatched ⟨true, false, true⟩ (opened {} typesAliasFile program).bindings .builtIn ∧
        program.importedNames defaultModule = [⟨"t", .module .default, true⟩]) ∧
    (∀ file ∈ (transform {} "file:///mod.ts" .typeScript typesAliasFile).toOption,
      (Program.read? ⟨true, false, true⟩ file.text).map (·.importedNames defaultModule) =
        some [⟨"t", .module .default, false⟩]) := by
  decide +kernel

/-- The migrated file imports it for values, too. -/
theorem typesAliasFile_not_reproduced :
    ∃ program file output, Program.read? ⟨true, false, true⟩ typesAliasFile = some program ∧
      program.Unmatched ⟨true, false, true⟩ (opened {} typesAliasFile program).bindings .builtIn ∧
      transform {} "file:///mod.ts" .typeScript typesAliasFile = .ok file ∧
      Program.read? ⟨true, false, true⟩ file.text = some output ∧
      program.importedNames defaultModule = [⟨"t", .module .default, true⟩] ∧
      output.importedNames defaultModule = [⟨"t", .module .default, false⟩] := by
  obtain ⟨hreads, hfacts, houtput⟩ := typesAliasFile_facts
  obtain ⟨program, hread⟩ := Option.isSome_iff_exists.mp hreads
  obtain ⟨hunmatched, hnames⟩ := hfacts program hread
  have hfile : transform {} "file:///mod.ts" .typeScript typesAliasFile =
      .ok (migrateProgram {} ⟨true, false, true⟩ typesAliasFile program) := by
    have hread' : Program.read? ⟨true, false, true⟩ (Program.withoutMark typesAliasFile) =
      some program := hread
    unfold transform
    simp only [MediaType.dialect?, hread']
    rfl
  obtain ⟨output, hout, hsame⟩ := Option.map_eq_some_iff.mp
    (houtput _ (congrArg Except.toOption hfile))
  exact ⟨program, _, output, hread, hunmatched, hfile, hout, hnames, hsame⟩

end SdkMigration
