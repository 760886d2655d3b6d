import SdkMigration.Proofs.Grammar.Programs
import SdkMigration.Proofs.References

/-!
# Migrated files

A file that is accepted is read into a program whose landmarks lie in its text,
so what the stages do to the references of a program holds of every file.
-/

namespace SdkMigration

/-! ## References that rules are for -/

/-- Whether a rule of the built-in mapping is the first one for the member that the
reference at a chain denotes: a call by the rules for functions, and the name
of a type by the rules for interfaces where the dialect has types. -/
inductive Program.HasRule (program : Program) (dialect : Dialect) (chain : Chain)
    (path : List String) (rule : Rule) : Prop where
  | call (site : chain ∈ allCallChains program.items)
    (first : (BuiltIn.functions.find? fun rule => rule.source.names == path) = some rule)
  | type (types : dialect.types = true) (site : chain ∈ allTypeChains program.items)
    (first : (BuiltIn.interfaces.find? fun rule => rule.source.names == path) = some rule)

theorem Program.HasRule.items_ne_nil {program : Program} {dialect : Dialect} {chain : Chain}
    {path : List String} {rule : Rule} (h : program.HasRule dialect chain path rule) :
    program.items ≠ [] := by
  intro hitems
  cases h with
  | call site first =>
    rw [hitems] at site
    cases site
  | type types site first =>
    rw [hitems] at site
    cases site

theorem Draft.Migrates.imports {final : Draft} {body : Text} {chain : Chain} {path : List String}
    (h : final.Migrates body chain path) :
    ∃ name beginning, final.bindings.Imports name beginning := by
  obtain ⟨_, _, _, _, name, _, beginning, _, _, himports⟩ := h
  exact ⟨name, beginning, himports⟩

/-! ## Files -/

/-- An accepted file is migrated, and each reference that a rule is for reads as
names that denote the target of the rule by way of declarations that stand in
the migrated file. -/
theorem transform_migrates {options : MigrationOptions} {location : String} {mediaType : MediaType}
    {dialect : Dialect} {text : Text} {program : Program}
    (hdialect : mediaType.dialect? = some dialect)
    (hread : Program.read? dialect (Program.withoutMark text) = some program)
    (hbuiltIn : options.mappings = .builtIn)
    (hdistinct :
      (opened options (Program.withoutMark text) program).bindings.localNames.Nodup) :
    let body := Program.withoutMark text
    let final := finalDraft options dialect body program
    let sites := program.importSites body options.module options.globalName
    ∃ file, transform options location mediaType text = .ok file ∧
      file.text = final.edits.apply body ∧
      ∀ chain path rule, (opened options body program).bindings.Denotes chain.names path →
        program.HasRule dialect chain path rule →
        final.Migrates body chain rule.target.names ∧
          final.importBlock sites options.module <:+: file.text := by
  intro body final sites
  have hplaced := Program.placed_of_read hread
  refine ⟨migrateProgram options dialect body program, ?_, rfl, ?_⟩
  · unfold transform
    simp only [hdialect, body, hread]
  · intro chain path rule hdenotes hhas
    have hmigrates : final.Migrates body chain rule.target.names := by
      cases hhas with
      | call site first => exact call_migrated hplaced hbuiltIn hdistinct site hdenotes first
      | type types site first =>
        exact type_migrated hplaced hbuiltIn types hdistinct site hdenotes first
    obtain ⟨name, beginning, himports⟩ := hmigrates.imports
    exact ⟨hmigrates, importBlock_infix hplaced hbuiltIn hhas.items_ne_nil himports⟩

/-- A file with one call that a rule is for. -/
private def callFile : Text :=
  ("import \x7b settings as s \x7d from \"@microsoft/teams-js\";\n" ++
    "s.initialize();\ns.getSettings();\n").toList

private theorem callFile_facts :
    ∀ program ∈ Program.read? ⟨true, false, true⟩ callFile,
      (opened {} callFile program).bindings.localNames.Nodup ∧
      ({ exported := "settings", renamed := some "s" } : NamedImport) ∈
        (opened {} callFile program).bindings.named ∧
      (∃ chain ∈ allCallChains program.items, chain.names = ["s", "getSettings"]) ∧
      ∃ rule ∈ BuiltIn.functions.find? fun rule => rule.source.names == ["settings", "getSettings"],
        rule.target.names = ["pages", "getConfig"] := by
  decide +kernel

/-- The call of the file is migrated. -/
theorem callFile_migrates :
    ∃ program chain file, Program.read? ⟨true, false, true⟩ callFile = some program ∧
      transform {} "file:///mod.ts" .typeScript callFile = .ok file ∧
      chain ∈ allCallChains program.items ∧ chain.names = ["s", "getSettings"] ∧
      (finalDraft {} ⟨true, false, true⟩ callFile program).Migrates callFile chain
        ["pages", "getConfig"] := by
  have hreads : (Program.read? ⟨true, false, true⟩ callFile).isSome = true := by decide +kernel
  obtain ⟨program, hread⟩ := Option.isSome_iff_exists.mp hreads
  obtain ⟨hdistinct, hnamed, ⟨chain, hchain, hnames⟩, rule, hrule, htarget⟩ :=
    callFile_facts program hread
  have hdenotes : (opened {} callFile program).bindings.Denotes chain.names
      ["settings", "getSettings"] := by
    rw [hnames]
    exact .named hnamed ["getSettings"]
  obtain ⟨file, hfile, _, hmigrates⟩ := @transform_migrates {} "file:///mod.ts" .typeScript
    ⟨true, false, true⟩ callFile program rfl hread rfl hdistinct
  obtain ⟨hmigrates, _⟩ := hmigrates chain _ rule hdenotes (.call hchain hrule)
  rw [htarget] at hmigrates
  exact ⟨program, chain, file, hread, hfile, hchain, hnames, hmigrates⟩

end SdkMigration
