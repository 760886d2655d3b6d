import SdkMigration.Proofs.Project.Runs
import SdkMigration.Proofs.FileSystems
import SdkMigration.Proofs.ModuleImports

/-!
# Files that have nothing to do with the module

A file that neither imports the module, nor uses its global name, nor loads it binds
nothing, so every stage of a migration leaves its draft as it is.  The text is then
written as it was read, except for a byte order mark at its start, which the migration
takes off every text.

In a project such a file is neither written nor reported as changed, unless it starts
with the mark.  The files before and behind it are not written to its path, and the
package description has another name.
-/

namespace SdkMigration

/-! ## Stages that have nothing to do -/

namespace Draft

variable {draft : Draft} {body : Text}

/-- The stages that rewrite references have nothing to do when nothing is bound. -/
theorem rewriteReferences_of_isEmpty (h : draft.bindings.isEmpty = true)
    (mappings : MappingTable) (dialect : Dialect) (program : Program) :
    draft.rewriteReferences mappings dialect body program = draft := by
  have hcalls : draft.rewriteCalls body program mappings.functions = draft := by
    rw [rewriteCalls, if_pos h]
  have htypes : draft.rewriteTypes program mappings.interfaces = draft := by
    rw [rewriteTypes, if_pos h]
  have henums : draft.rewriteEnums body program mappings.enums = draft := by
    rw [rewriteEnums, if_pos h]
  unfold rewriteReferences
  simp only [hcalls, htypes, henums, ite_self]

theorem flagLeftovers_of_isEmpty (h : draft.bindings.isEmpty = true) (program : Program) :
    draft.flagLeftovers body program = draft := by
  have hnamed : draft.bindings.named = [] :=
    List.isEmpty_iff.mp (Bool.and_eq_true_iff.mp h).1
  rw [flagLeftovers, hnamed]
  rfl

/-- When nothing is bound or declared, the last stage only writes the comments about loads. -/
theorem rewriteImports_of_isEmpty (h : draft.bindings.isEmpty = true) {sites : ImportSites}
    (hdeclarations : sites.declarations = []) (hsideEffect : sites.sideEffect = false)
    (module : String) :
    draft.rewriteImports body sites module = sites.opaqueLoads.foldl (flagLoad body) draft := by
  obtain ⟨hnamed, hwhole⟩ := Bool.and_eq_true_iff.mp h
  have hblock : draft.bindings.declarations module sites.sideEffect = [] := by
    simp only [Bindings.declarations, List.isEmpty_iff.mp hnamed, List.isEmpty_iff.mp hwhole,
      hsideEffect]
    rfl
  unfold rewriteImports
  rw [hblock, hdeclarations]
  cases sites.firstItem with
  | none => rfl
  | some position => rfl

end Draft

/-! ## Files -/

/-- Whether a program binds nothing from a module: no item imports it, and no identifier is
its global name. -/
structure Program.Unbound (program : Program) (module globalName : String) : Prop where
  imports : program.moduleImports module = []
  mentions : anyMentions globalName program.items = false

instance (program : Program) (module globalName : String) :
    Decidable (program.Unbound module globalName) :=
  decidable_of_iff (program.moduleImports module = [] ∧
    anyMentions globalName program.items = false) ⟨fun h => ⟨h.1, h.2⟩, fun h => ⟨h.1, h.2⟩⟩

/-- Whether a program has nothing to do with a module: no item imports it, no identifier
is its global name, and no call loads it. -/
structure Program.Unrelated (program : Program) (module globalName : String) : Prop where
  imports : program.moduleImports module = []
  mentions : anyMentions globalName program.items = false
  loads : ∀ visit ∈ program.visits fun _ => false, ∀ site around, visit = .call site around →
    site.loadKind?.isSome = true → firstText? site.arguments ≠ some module

/-- Whether a text starts with a byte order mark. -/
def Text.HasMark (text : Text) : Prop := ∃ rest, text = '\uFEFF' :: rest

/-- A text is the one that is migrated, unless it starts with a byte order mark. -/
theorem Program.withoutMark_eq_self_iff {text : Text} :
    Program.withoutMark text = text ↔ ¬text.HasMark := by
  cases text with
  | nil => simp [Program.withoutMark, Text.HasMark]
  | cons c rest =>
    have hmark : c.toNat = 0xFEFF ↔ c = '\uFEFF' :=
      ⟨fun h => Char.toNat_inj.mp h, fun h => h ▸ rfl⟩
    by_cases hc : c.toNat = 0xFEFF
    · simp [Program.withoutMark, Text.HasMark, hmark.mp hc]
    · simp [Program.withoutMark, Text.HasMark, hc, mt hmark.mpr hc]

/-- No call loads the module exactly when none is found that does. -/
theorem Program.unrelated_iff (program : Program) (body : Text) (module globalName : String) :
    program.Unrelated module globalName ↔
      program.moduleImports module = [] ∧ anyMentions globalName program.items = false ∧
        (program.visits fun _ => false).filterMap (opaqueLoad? body module) = [] := by
  have hstop : ∀ visit : Visit, (∀ site around, visit = .call site around →
      site.loadKind?.isSome = true → firstText? site.arguments ≠ some module) ↔
        opaqueLoad? body module visit = none := by
    intro visit
    cases visit with
    | identifier id around => simp [opaqueLoad?]
    | call site around =>
      cases hkind : site.loadKind? with
      | none => simp [opaqueLoad?, hkind]
      | some kind => simp [opaqueLoad?, hkind]
  rw [List.filterMap_eq_nil_iff]
  constructor
  · rintro ⟨himports, hmentions, hloads⟩
    exact ⟨himports, hmentions, fun visit hvisit => (hstop visit).mp (hloads visit hvisit)⟩
  · rintro ⟨himports, hmentions, hloads⟩
    exact ⟨himports, hmentions, fun visit hvisit => (hstop visit).mpr (hloads visit hvisit)⟩

instance (program : Program) (module globalName : String) :
    Decidable (program.Unrelated module globalName) :=
  decidable_of_iff _ (program.unrelated_iff [] module globalName).symm

section Files

variable {options : MigrationOptions} {dialect : Dialect} {body : Text} {program : Program}

section Imports

variable (himports : program.moduleImports options.module = [])
include himports

theorem isEmpty_of_imports :
    (program.importSites body options.module options.globalName).bindings.isEmpty = true := by
  unfold Bindings.isEmpty
  rw [Program.named_eq, Program.whole_eq, himports]
  rfl

/-- Where no item imports the module and its global name does not stand for it, all that is done
is to tell of its loads. -/
theorem finalDraft_of_imports
    (halias : (program.importSites body options.module options.globalName).usesImplicitAlias =
      false) :
    let sites := program.importSites body options.module options.globalName
    finalDraft options dialect body program =
      sites.opaqueLoads.foldl (Draft.flagLoad body)
        { bindings := sites.bindings
          notes := sites.opaqueLoads.map fun load => .opaqueLoad load.kind } := by
  intro sites
  have hbindings : sites.bindings.isEmpty = true := isEmpty_of_imports himports
  have hopened : openDraft options sites =
      { bindings := sites.bindings
        notes := sites.opaqueLoads.map fun load => .opaqueLoad load.kind } := by
    unfold openDraft
    simp only [sites, halias, Bool.false_eq_true, if_false]
  have hreferences : referenceDraft options dialect body program = openDraft options sites := by
    unfold referenceDraft
    simp only [halias, Bool.false_eq_true, if_false]
    rw [show program.importSites body options.module options.globalName = sites from rfl, hopened]
    exact Draft.rewriteReferences_of_isEmpty hbindings _ _ _
  have hsideEffect : sites.sideEffect = false := by
    rw [Program.sideEffect_eq, himports]
    rfl
  have hdeclarations : sites.declarations = [] := by
    rw [Program.declarations_eq, himports]
    rfl
  unfold finalDraft
  simp only [hreferences, hopened]
  rw [Draft.flagLeftovers_of_isEmpty hbindings,
    Draft.rewriteImports_of_isEmpty hbindings hdeclarations hsideEffect]

end Imports

namespace Program.Unbound

/-- All that is done in such a file is to tell of its loads. -/
theorem finalDraft_eq (h : program.Unbound options.module options.globalName) :
    let sites := program.importSites body options.module options.globalName
    finalDraft options dialect body program =
      sites.opaqueLoads.foldl (Draft.flagLoad body)
        { bindings := sites.bindings
          notes := sites.opaqueLoads.map fun load => .opaqueLoad load.kind } := by
  refine finalDraft_of_imports h.imports ?_
  unfold ImportSites.usesImplicitAlias
  rw [Program.aliasMentioned_eq, h.mentions]
  rfl

end Program.Unbound

namespace Program.Unrelated

theorem unbound (h : program.Unrelated options.module options.globalName) :
    program.Unbound options.module options.globalName := ⟨h.imports, h.mentions⟩

theorem opaqueLoads (h : program.Unrelated options.module options.globalName) :
    (program.importSites body options.module options.globalName).opaqueLoads = [] := by
  rw [Program.opaqueLoads_eq]
  exact ((program.unrelated_iff body options.module options.globalName).mp h).2.2

/-- Nothing is left to do in such a file after any stage. -/
theorem finalDraft_eq (h : program.Unrelated options.module options.globalName) :
    finalDraft options dialect body program =
      { bindings := (program.importSites body options.module options.globalName).bindings } := by
  rw [h.unbound.finalDraft_eq, h.opaqueLoads]
  rfl

end Program.Unrelated

/-- Whether a text is, as a file of some type, a program that has nothing to do with the
module. -/
structure Text.Unrelated (options : MigrationOptions) (mediaType : MediaType) (text : Text)
    (program : Program) : Prop where
  read : ∃ dialect, mediaType.dialect? = some dialect ∧
    Program.read? dialect (Program.withoutMark text) = some program
  unrelated : program.Unrelated options.module options.globalName

variable {mediaType : MediaType} {text : Text}

/-- A migration writes such a file as it was, less the mark. -/
theorem Text.Unrelated.transform_eq (h : text.Unrelated options mediaType program)
    (location : String) :
    transform options location mediaType text = .ok ⟨Program.withoutMark text, {}, []⟩ := by
  obtain ⟨dialect, hdialect, hread⟩ := h.read
  unfold transform
  simp only [hdialect, hread, migrateProgram, h.unrelated.finalDraft_eq]
  rfl

end Files

/-! ## Projects -/

section Projects

variable {options : ProjectOptions} {text : Text} {program : Program} {path : Path}
  {files : FileSystem}

/-- A file that has nothing to do with the module is written as it was, less the mark, if
it can be migrated at all. -/
theorem Text.Unrelated.migrateText_eq
    (h : text.Unrelated options.migration (MediaType.ofFileName path.fileName) program)
    {migrated : MigratedFile} (hmigrated : migrateText options path text = .ok migrated) :
    migrated = ⟨Program.withoutMark text, {}, []⟩ := by
  unfold migrateText at hmigrated
  rw [h.transform_eq] at hmigrated
  split at hmigrated
  · exact (Except.ok.inj hmigrated).symm
  · cases hmigrated

/-- In a project such a file is reported as changed exactly when it starts with a byte
order mark. -/
theorem changed_iff_of_unrelated
    (h : text.Unrelated options.migration (MediaType.ofFileName path.fileName) program)
    (hread : files.readText path = .ok text) {entry : FileEntry}
    (hentry : (migrateFile options files path).2 = .ok entry) :
    entry.report = {} ∧ (entry.changed = true ↔ text.HasMark) := by
  obtain ⟨error, herror⟩ | ⟨found, migrated, hfound, hmigrated, hreported, -⟩ :=
    migrateFile_cases options files path
  · rw [herror] at hentry
    cases hentry
  · obtain rfl := Except.ok.inj (hread.symm.trans hfound)
    obtain rfl := h.migrateText_eq hmigrated
    rw [← Except.ok.inj (hreported.symm.trans hentry)]
    refine ⟨rfl, ?_⟩
    show (Program.withoutMark text != text) = true ↔ _
    rw [bne_iff_ne, Ne, Program.withoutMark_eq_self_iff, not_not]

/-- A step of a run leaves a file alone that has nothing to do with the module and no
mark. -/
theorem leaves_migrateFile
    (h : text.Unrelated options.migration (MediaType.ofFileName path.fileName) program)
    (hmark : ¬text.HasMark) (hread : files.readText path = .ok text) (other : Path) :
    files.Leaves path (migrateFile options files other).1 := by
  obtain ⟨error, herror⟩ | ⟨content, migrated, hcontent, hmigrated, -, hwritten⟩ :=
    migrateFile_cases options files other
  · rw [herror]
    exact .refl path files
  · rcases hwritten with hsame | ⟨hchanged, hwritten⟩
    · rw [hsame]
      exact .refl path files
    · refine FileSystem.leaves_of_writeText hwritten fun hkey => hchanged ?_
      -- The same file under another path is not written either.
      obtain rfl := FileSystem.readText_unique hkey hcontent hread
      rw [← Path.fileName_eq_of_key hkey] at h
      rw [h.migrateText_eq hmigrated]
      exact Program.withoutMark_eq_self_iff.mpr hmark

/-- A run leaves such a file alone, and reports it as unchanged wherever it reports on
it. -/
theorem leaves_migrateFiles
    (h : text.Unrelated options.migration (MediaType.ofFileName path.fileName) program)
    (hmark : ¬text.HasMark) (paths : List Path) (report : ProjectReport)
    (hread : files.readText path = .ok text)
    (hreported : ∀ entry ∈ report.files, entry.path = path →
      entry.report = {} ∧ entry.changed = false) :
    files.Leaves path (migrateFiles options paths files report).1 ∧
      ∀ entry ∈ (migrateFiles options paths files report).2.files, entry.path = path →
        entry.report = {} ∧ entry.changed = false := by
  induction paths generalizing files report with
  | nil => exact ⟨.refl path files, hreported⟩
  | cons other rest ih =>
    have hstep := leaves_migrateFile h hmark hread other
    have hadded : ∀ entry ∈ (report.addFile other (migrateFile options files other).2).files,
        entry.path = path → entry.report = {} ∧ entry.changed = false := by
      cases hresult : (migrateFile options files other).2 with
      | error error => exact hreported
      | ok found =>
        intro entry hentry hpath
        rcases List.mem_append.mp hentry with hentry | hentry
        · exact hreported entry hentry hpath
        · obtain rfl := List.mem_singleton.mp hentry
          have hsame : other = path := (path_of_migrateFile hresult).symm.trans hpath
          rw [hsame] at hresult
          obtain ⟨hcounts, hchanged⟩ := changed_iff_of_unrelated h hread hresult
          exact ⟨hcounts, Bool.eq_false_iff.mpr (mt hchanged.mp hmark)⟩
    obtain ⟨hleaves, hentries⟩ := ih _ (hstep.content.trans hread) hadded
    exact ⟨hstep.trans hleaves, hentries⟩

/-- The package description of a project is no program. -/
theorem leaves_updateDescription {dialect : Dialect}
    (hdialect : (MediaType.ofFileName path.fileName).dialect? = some dialect) (root : Path) :
    files.Leaves path (updateDescription options files root).1 := by
  have hother : (root.join "package.json".toList).key ≠ path.key := by
    intro hkey
    rw [← Path.fileName_eq_of_key hkey, Path.fileName_join root (by decide)] at hdialect
    revert hdialect
    have hjson : (MediaType.ofFileName "package.json".toList).dialect? = none := by decide +kernel
    rw [hjson]
    exact nofun
  unfold updateDescription
  simp only
  split
  · split <;> exact .refl path files
  · split
    · exact .refl path files
    · exact .refl path files
    · split
      · exact .refl path files
      · split
        · rename_i hwritten
          exact FileSystem.leaves_of_writeText hwritten hother
        · exact .refl path files

/-- A run over a project leaves a file alone that has nothing to do with the module and
no mark. -/
theorem leaves_migrateProject
    (h : text.Unrelated options.migration (MediaType.ofFileName path.fileName) program)
    (hmark : ¬text.HasMark) (hread : files.readText path = .ok text) (root : Path) :
    files.Leaves path (migrateProject options files root).1 ∧
      ∀ report, (migrateProject options files root).2 = .ok report →
        ∀ entry ∈ report.files, entry.path = path → entry.report = {} ∧ entry.changed = false := by
  obtain ⟨dialect, hdialect, -⟩ := h.read
  unfold migrateProject
  split
  · exact ⟨.refl path files, nofun⟩
  · rename_i found _
    obtain ⟨hleaves, hentries⟩ :=
      leaves_migrateFiles h hmark (sortPaths found) {} hread (by simp)
    generalize migrateFiles options (sortPaths found) files {} = result at hleaves hentries ⊢
    obtain ⟨migrated, report⟩ := result
    have hlast := hleaves.trans (@leaves_updateDescription options path migrated _ hdialect root)
    simp only
    generalize updateDescription options migrated root = result at hlast ⊢
    obtain ⟨last, description⟩ := result
    cases description with
    | error error => exact ⟨hlast, nofun⟩
    | ok updated =>
      refine ⟨hlast, fun reported hreported => ?_⟩
      rw [← Except.ok.inj hreported]
      exact hentries

end Projects

/-- A file that has nothing to do with the module is migrated without a count, to its own
text exactly when it does not start with a byte order mark.  In a project it is reported
as changed exactly when it starts with one, and without one it is never written. -/
theorem unrelated_left_alone_iff {options : ProjectOptions} {mediaType : MediaType} {text : Text}
    {program : Program} (h : text.Unrelated options.migration mediaType program) :
    (∀ location, ∃ file, transform options.migration location mediaType text = .ok file ∧
      file.report = {} ∧ (file.text = text ↔ ¬text.HasMark)) ∧
    ∀ (files : FileSystem) (path root : Path), MediaType.ofFileName path.fileName = mediaType →
      files.readText path = .ok text →
      (∀ entry, (migrateFile options files path).2 = .ok entry →
        entry.report = {} ∧ (entry.changed = true ↔ text.HasMark)) ∧
      (¬text.HasMark → files.Leaves path (migrateProject options files root).1 ∧
        ∀ report, (migrateProject options files root).2 = .ok report →
          ∀ entry ∈ report.files, entry.path = path →
            entry.report = {} ∧ entry.changed = false) := by
  refine ⟨fun location => ⟨_, h.transform_eq location, rfl, Program.withoutMark_eq_self_iff⟩, ?_⟩
  rintro files path root rfl hread
  exact ⟨fun entry => changed_iff_of_unrelated h hread,
    fun hmark => leaves_migrateProject h hmark hread root⟩

/-- A file that has nothing to do with the module. -/
private def plainFile : Text := "import \x7b b \x7d from \"other\";\nexport default b(1);\n".toList

/-- The same file behind a byte order mark. -/
private def markedFile : Text := '\uFEFF' :: plainFile

private def plainPath : Path := ⟨"/p/a.ts".toList⟩

/-- A project with one file. -/
private def projectOf (content : Text) : FileSystem :=
  ({} : FileSystem).put plainPath (.text content)

private theorem plainFile_facts :
    (Program.read? ⟨true, false, true⟩ plainFile).isSome = true ∧
    (∀ program ∈ Program.read? ⟨true, false, true⟩ plainFile,
      program.Unrelated defaultModule defaultAlias) ∧
    MediaType.ofFileName plainPath.fileName = .typeScript ∧
    (projectOf plainFile).readText plainPath = .ok plainFile ∧
    (migrateProject {} (projectOf plainFile) ⟨"/p".toList⟩).2.toOption.map
      (fun report => report.files.map (·.path)) = some [plainPath] := by
  decide +kernel

/-- The file is left as it is, by itself and in a project. -/
theorem plainFile_left_alone :
    ∃ program file report, Text.Unrelated {} .typeScript plainFile program ∧
      transform {} "file:///p/a.ts" .typeScript plainFile = .ok file ∧
      file.text = plainFile ∧ file.report = {} ∧
      (migrateProject {} (projectOf plainFile) ⟨"/p".toList⟩).2 = .ok report ∧
      report.files = [⟨plainPath, false, {}⟩] ∧
      (projectOf plainFile).Leaves plainPath
        (migrateProject {} (projectOf plainFile) ⟨"/p".toList⟩).1 := by
  obtain ⟨hreads, hfacts, hmedia, hcontent, hpaths⟩ := plainFile_facts
  obtain ⟨program, hread⟩ := Option.isSome_iff_exists.mp hreads
  have hunrelated : Text.Unrelated {} .typeScript plainFile program :=
    ⟨⟨⟨true, false, true⟩, rfl, hread⟩, hfacts program hread⟩
  have hunmarked : ¬plainFile.HasMark := by
    rintro ⟨rest, hrest⟩
    exact absurd (List.cons.inj hrest).1 (by decide)
  obtain ⟨htransform, hproject⟩ := @unrelated_left_alone_iff {} _ _ _ hunrelated
  obtain ⟨file, hfile, hcounts, htext⟩ := htransform "file:///p/a.ts"
  obtain ⟨hleaves, hentries⟩ :=
    (hproject (projectOf plainFile) plainPath ⟨"/p".toList⟩ hmedia hcontent).2 hunmarked
  obtain ⟨report, hreport, hfound⟩ := Option.map_eq_some_iff.mp hpaths
  have hresult : (migrateProject {} (projectOf plainFile) ⟨"/p".toList⟩).2 = .ok report := by
    generalize (migrateProject {} (projectOf plainFile) ⟨"/p".toList⟩).2 = result at hreport
    cases result with
    | error error => cases hreport
    | ok found => exact congrArg Except.ok (Option.some.inj hreport)
  obtain ⟨entry, hfiles, hpath⟩ := List.map_eq_singleton_iff.mp hfound
  obtain ⟨hsame, hunchanged⟩ :=
    hentries report hresult entry (hfiles ▸ List.mem_singleton_self entry) hpath
  refine ⟨program, file, report, hunrelated, hfile, htext.mpr hunmarked, hcounts, hresult, ?_,
    hleaves⟩
  rw [hfiles, ← hpath, ← hsame, ← hunchanged]

private theorem markedFile_facts :
    (∀ program ∈ Program.read? ⟨true, false, true⟩ (Program.withoutMark markedFile),
      program.Unrelated defaultModule defaultAlias) ∧
    (Program.read? ⟨true, false, true⟩ (Program.withoutMark markedFile)).isSome = true ∧
    (transform {} "file:///p/a.ts" .typeScript markedFile).toOption.map (·.text) =
      some plainFile ∧
    (migrateProject {} (projectOf markedFile) ⟨"/p".toList⟩).2.toOption.map (·.files) =
      some [⟨plainPath, true, {}⟩] ∧
    (migrateProject {} (projectOf markedFile) ⟨"/p".toList⟩).1.written =
      [(plainPath, plainFile)] := by
  decide +kernel

/-- The mark is taken off the file, which is written for it in a project. -/
theorem markedFile_not_left_alone :
    ∃ program, Text.Unrelated {} .typeScript markedFile program ∧ plainFile ≠ markedFile ∧
      (transform {} "file:///p/a.ts" .typeScript markedFile).toOption.map (·.text) =
        some plainFile ∧
      (migrateProject {} (projectOf markedFile) ⟨"/p".toList⟩).2.toOption.map (·.files) =
        some [⟨plainPath, true, {}⟩] ∧
      (migrateProject {} (projectOf markedFile) ⟨"/p".toList⟩).1.written =
        [(plainPath, plainFile)] := by
  obtain ⟨hfacts, hreads, houtput⟩ := markedFile_facts
  obtain ⟨program, hread⟩ := Option.isSome_iff_exists.mp hreads
  exact ⟨program, ⟨⟨⟨true, false, true⟩, rfl, hread⟩, hfacts program hread⟩, by decide, houtput⟩

end SdkMigration
