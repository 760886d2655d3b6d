import SdkMigration.Proofs.MigratedFile
import SdkMigration.Proofs.WrittenText

/-!
# What a migration touches

Every edit of a migrated file is one of a few kinds: it replaces a reference
whose first name is bound to the module, or the end of such a reference; it
replaces or removes a declaration that imports the module; or it inserts a
comment line or the new declarations.  `LegacyEdit` lists the kinds.  There are
no others, whatever the mapping is, and the rest of the text stands in the
migrated file as it was.

The stages replace only what a lookup finds or what names an enumeration.
Both ask for a chain that starts with a bound name: the key of a replacement
starts with one, and no name in the file has a dot by which two different
chains could have the same key.
-/

namespace SdkMigration

/-! ## Kinds of edits -/

/-- The edits of a migration that found the given bindings and declarations in a
file and that writes `block` for the declarations. -/
inductive LegacyEdit (body : Text) (items : List Tree) (bindings : Bindings)
    (sites : ImportSites) (block : Text) : Edit → Prop where
  /-- A reference through a binding, or an end of it. -/
  | reference {chain : Chain} {edit : Edit} (mem : chain ∈ allReferences items)
    (tracked : bindings.tracks chain.root = true) (part : chain.HasPart edit.span) :
    LegacyEdit body items bindings sites block edit
  | declaration {span : Span} (mem : span ∈ sites.declarations) :
    LegacyEdit body items bindings sites block ⟨span, block⟩
  | removal {span wide : Span} (mem : span ∈ sites.declarations)
    (widens : wide.Widens body span) : LegacyEdit body items bindings sites block ⟨wide, []⟩
  | comment {position : Nat} (inside : position ≤ body.length) (advisory : Advisory) :
    LegacyEdit body items bindings sites block
      ⟨Span.point position, advisory.insertion body position⟩
  | prepended {position : Nat} (first : sites.firstItem = some position) :
    LegacyEdit body items bindings sites block ⟨Span.point position, block ++ ['\n']⟩

/-! ## References start with a bound name -/

/-- A chain that names an enumeration starts with a bound name. -/
theorem EnumSite.tracks {bindings : Bindings} {rules : List Rule} {chain : Chain}
    (hsite : EnumSite bindings rules chain)
    (hlocal : ∀ name ∈ bindings.localNames, DotFree name) (hroot : DotFree chain.root) :
    bindings.tracks chain.root = true := by
  cases hsite with
  | exact found changes => exact Lookups.tracks_of_find?_build hlocal hroot found
  | aliased mem last behind bound name =>
    rw [Bindings.tracks_iff, ← name]
    exact List.mem_append_right _ (List.mem_map_of_mem bound)
  | named mem longer last single bound name =>
    rw [Bindings.tracks_iff, ← name]
    exact List.mem_append_left _ (List.mem_map_of_mem bound)

theorem Program.Placed.reference {program : Program} {body : Text} (h : program.Placed body)
    {chain : Chain} (hchain : chain ∈ allReferences program.items) :
    chain.Placed body 0 body.length := by
  obtain ⟨whole, hwhole, hbegins⟩ := allReferences_begun program.items chain hchain
  exact hbegins.placed (h.landmarks.chains whole hwhole)

/-! ## The edits of a file -/

section Stages

variable {options : MigrationOptions} {dialect : Dialect} {body : Text} {program : Program}
  {block : Text}

/-- The edits that a migration may make of a program. -/
abbrev legacyEdits (options : MigrationOptions) (body : Text) (program : Program) (block : Text) :
    Edit → Prop :=
  LegacyEdit body program.items (opened options body program).bindings
    (program.importSites body options.module options.globalName) block

theorem LegacyEdit.stop_le (hplaced : program.Placed body) {edit : Edit}
    (h : legacyEdits options body program block edit) : edit.span.stop ≤ body.length := by
  have himport : ∀ span ∈ (program.importSites body options.module options.globalName).declarations,
      span.stop ≤ body.length :=
    fun span hspan => (hplaced.landmarks.imports span (Program.mem_declarations hspan)).2
  cases h with
  | reference mem tracked part =>
    have hchain := hplaced.reference mem
    exact Nat.le_trans (part.inside hchain).2 hchain.le_hi
  | declaration mem => exact himport _ mem
  | removal mem widens => exact widens.inside
  | comment inside advisory => exact inside
  | prepended first =>
    rw [Program.firstItem_eq] at first
    obtain ⟨item, hitem, rfl⟩ := Option.map_eq_some_iff.mp first
    have hmem := List.mem_of_mem_head? (Option.mem_def.mpr hitem)
    have hstart := (mem_allLandmarks hmem).2.2.1 _ (hplaced.starts item hmem)
    exact (hplaced.landmarks.points _ hstart).2

/-- A comment about a stop of a walk is a comment inside the text. -/
private theorem legacyEdit_comment (hplaced : program.Placed body) {visit : Visit}
    (hmarked : visit.Marked (allLandmarks program.items) []) (advisory : Advisory) :
    legacyEdits options body program block (visit.comment body advisory) :=
  .comment (hplaced.landmarks.insertionPoint_le body.lineIndex hmarked) advisory

/-- A reference for which a lookup finds something starts with a bound name, however
much the bindings have learned before. -/
private theorem tracks_of_found (hplaced : program.Placed body) {bindings : Bindings}
    (hlearns : (opened options body program).bindings.Learns .any bindings) {rules : List Rule}
    {chain : Chain} (hchain : chain ∈ allReferences program.items) {replacement : Replacement}
    (hfound : (Lookups.build bindings rules).1.find? chain.names = some replacement) :
    (opened options body program).bindings.tracks chain.root = true := by
  rw [← hlearns.tracks_eq]
  refine Lookups.tracks_of_find?_build ?_ ((hplaced.reference hchain).dotFree List.mem_cons_self)
    hfound
  rw [hlearns.localNames]
  exact dotFree_opened hplaced

private theorem tracks_of_enumSite (hplaced : program.Placed body) {bindings : Bindings}
    (hlearns : (opened options body program).bindings.Learns .any bindings) {rules : List Rule}
    {chain : Chain} (hchain : chain ∈ allReferences program.items)
    (hsite : EnumSite bindings rules chain) :
    (opened options body program).bindings.tracks chain.root = true := by
  rw [← hlearns.tracks_eq]
  refine hsite.tracks ?_ ((hplaced.reference hchain).dotFree List.mem_cons_self)
  rw [hlearns.localNames]
  exact dotFree_opened hplaced

/-- The stages of references write comments and replace parts of references that
start with a bound name, by any mapping. -/
theorem continues_references {allowed : Edit → Prop} (hplaced : program.Placed body)
    (hcomment : ∀ visit : Visit, program.NamedStop visit →
      ∀ advisory, allowed (visit.comment body advisory))
    (hreference : ∀ chain ∈ allReferences program.items,
      (opened options body program).bindings.tracks chain.root = true →
      ∀ edit : Edit, chain.HasPart edit.span → allowed edit) :
    (opened options body program).Continues allowed .any
      (rewritten options dialect body program) := by
  have hcalled : (opened options body program).Continues allowed .any
      ((opened options body program).rewriteCalls body program options.mappings.functions) :=
    Draft.continues_rewriteCalls (allows_any _) hcomment fun chain hchain _ hfound _ =>
      have hmem := (allSites_subset program.items).1 hchain
      hreference chain hmem (tracks_of_found hplaced (.refl _) hmem hfound) _ .whole
  simp only [rewritten, Draft.rewriteReferences]
  split
  · have htyped := hcalled.trans (Draft.continues_rewriteTypes
      (allows_any options.mappings.interfaces) fun chain hchain _ hfound _ =>
        have hmem := (allSites_subset program.items).2 hchain
        hreference chain hmem (tracks_of_found hplaced hcalled.bindings hmem hfound) _ .whole)
    exact htyped.trans (Draft.continues_rewriteEnums (allowsEnums_any _)
      fun chain hchain hsite => hreference chain hchain
        (tracks_of_enumSite hplaced htyped.bindings hchain hsite))
  · exact hcalled

/-- All edits of a file are ones that a migration may make, and no two of them
overlap. -/
theorem finalDraft_legacyEdits (hplaced : program.Placed body) :
    let final := finalDraft options dialect body program
    let sites := program.importSites body options.module options.globalName
    (∀ edit ∈ final.edits.held,
      legacyEdits options body program (final.importBlock sites options.module) edit) ∧
      final.edits.Consistent := by
  intro final sites
  have hblock : ((referenceDraft options dialect body program).flagLeftovers body
      program).importBlock sites options.module = final.importBlock sites options.module := by
    unfold Draft.importBlock
    rw [← finalDraft_bindings]
  generalize final.importBlock sites options.module = block at hblock ⊢
  have hrewritten : (opened options body program).Continues
      (legacyEdits options body program block) .any (rewritten options dialect body program) :=
    continues_references hplaced (fun _ hstop => legacyEdit_comment hplaced hstop.marked)
      fun _ hchain htracked _ => .reference hchain htracked
  have hflagged : (referenceDraft options dialect body program).Continues
      (legacyEdits options body program block) .any
      ((referenceDraft options dialect body program).flagLeftovers body program) :=
    Draft.continues_flagLeftovers trivial fun _ hstop => legacyEdit_comment hplaced hstop.marked
  have hallows : Draft.AllowsImports (legacyEdits options body program block) body sites
      block := by
    refine ⟨fun _ => .declaration, fun span hspan => .removal hspan (wholeLines_widens ?_),
      fun _ => .prepended, fun load hload advisory => ?_⟩
    · exact (hplaced.landmarks.imports span (Program.mem_declarations hspan)).2
    · obtain ⟨visit, hmarked, hposition⟩ := Program.exists_visit_of_load hload
      rw [hposition]
      exact legacyEdit_comment hplaced hmarked advisory
  rw [← hblock] at hallows
  have himports : ((referenceDraft options dialect body program).flagLeftovers body
      program).Continues _ .any final := Draft.continues_rewriteImports hallows
  rw [hblock] at himports
  have hopened := @opened_edits options body program
  constructor
  · refine (hflagged.trans himports).forall_held ?_ fun _ h => h
    rw [referenceDraft_edits]
    refine hrewritten.forall_held ?_ fun _ h => h
    rw [hopened]
    exact fun _ h => absurd h List.not_mem_nil
  · refine finalDraft_consistent hplaced (hrewritten.consistent ?_)
    rw [hopened]
    exact Edits.consistent_nil

end Stages

/-- A text that is a program is migrated as one. -/
theorem transform_of_read {options : MigrationOptions} {location : String} {mediaType : MediaType}
    {text : Text} {dialect : Dialect} {program : Program}
    (hdialect : mediaType.dialect? = some dialect)
    (hread : Program.read? dialect (Program.withoutMark text) = some program) :
    transform options location mediaType text =
      .ok (migrateProgram options dialect (Program.withoutMark text) program) := by
  unfold transform
  simp only [hdialect, hread]

/-- A text that is no program is refused. -/
theorem transform_of_unreadable {options : MigrationOptions} {location : String}
    {mediaType : MediaType} {text : Text} {dialect : Dialect}
    (hdialect : mediaType.dialect? = some dialect)
    (hread : Program.read? dialect (Program.withoutMark text) = none) :
    transform options location mediaType text = .error .unreadable := by
  unfold transform
  simp only [hdialect, hread]

/-- An accepted file is one in a dialect that was read and migrated. -/
theorem transform_eq_ok {options : MigrationOptions} {location : String} {mediaType : MediaType}
    {text : Text} {file : MigratedFile} (h : transform options location mediaType text = .ok file) :
    ∃ dialect program, mediaType.dialect? = some dialect ∧
      Program.read? dialect (Program.withoutMark text) = some program ∧
      migrateProgram options dialect (Program.withoutMark text) program = file := by
  unfold transform at h
  split at h
  · cases h
  · rename_i dialect hdialect
    simp only at h
    split at h
    · cases h
    · rename_i program hread
      exact ⟨dialect, program, hdialect, hread, Except.ok.inj h⟩

/-- A file that is accepted has what can be seen of it. -/
theorem exists_of_toOption {α : Type} {result : Except TransformError MigratedFile}
    {read : MigratedFile → α} {value : α} (h : result.toOption.map read = some value) :
    ∃ file, result = .ok file ∧ read file = value := by
  cases result with
  | error e => cases h
  | ok file => exact ⟨file, rfl, Option.some.inj h⟩

/-- Whatever the mapping is, the edits of an accepted file are replacements of
references that start with a name bound to the module, or of their ends,
changes of the declarations that import it, comment lines, and the new
declarations.  The migrated file is what they write, and so holds all other
characters in their order. -/
theorem transform_touches_legacy {options : MigrationOptions} {location : String}
    {mediaType : MediaType} {text : Text} {file : MigratedFile}
    (h : transform options location mediaType text = .ok file) :
    let body := Program.withoutMark text
    ∃ dialect program, mediaType.dialect? = some dialect ∧
      Program.read? dialect body = some program ∧
      let final := finalDraft options dialect body program
      let sites := program.importSites body options.module options.globalName
      (∀ edit ∈ final.edits.held,
        LegacyEdit body program.items (opened options body program).bindings sites
          (final.importBlock sites options.module) edit) ∧
      final.edits.Consistent ∧ file.text = Edits.written final.edits.held 0 body := by
  intro body
  obtain ⟨dialect, program, hdialect, hread, rfl⟩ := transform_eq_ok h
  have hplaced := Program.placed_of_read hread
  obtain ⟨hedits, hconsistent⟩ := @finalDraft_legacyEdits options dialect body program hplaced
  refine ⟨dialect, program, hdialect, hread, hedits, hconsistent, ?_⟩
  exact hconsistent.apply_eq_written fun edit hedit =>
    LegacyEdit.stop_le hplaced (hedits edit hedit)

/-- A mapping with one enumeration. -/
private def enumMapping : MigrationOptions where
  module := "legacy"
  mappings := { enums := [⟨⟨"shapes", ["Kind"]⟩, ⟨"forms", ["Kind"]⟩, none⟩] }

/-- A file that names an enumeration far behind an alias. -/
private def enumFile : Text :=
  "import * as t from \"legacy\"; // t\nt.more.shapes.Kind.Round;\n".toList

private theorem enumFile_facts :
    ((transform enumMapping "file:///mod.ts" .typeScript enumFile).toOption.map (·.text)) =
      some "import * as t from \"legacy\"; // t\nt.more.forms.Kind.Round;\n".toList := by
  decide +kernel

/-- The edits of the file are of the kinds that are listed. -/
theorem enumFile_touches :
    ∃ program file, Program.read? ⟨true, false, true⟩ enumFile = some program ∧
      transform enumMapping "file:///mod.ts" .typeScript enumFile = .ok file ∧
      (∀ edit ∈ (finalDraft enumMapping ⟨true, false, true⟩ enumFile program).edits.held,
        legacyEdits enumMapping enumFile program
          "import * as t from \"legacy\";".toList edit) ∧
      file.text = "import * as t from \"legacy\"; // t\nt.more.forms.Kind.Round;\n".toList := by
  have htext := enumFile_facts
  cases hfile : transform enumMapping "file:///mod.ts" .typeScript enumFile with
  | error e =>
    rw [hfile] at htext
    cases htext
  | ok file =>
    rw [hfile] at htext
    obtain ⟨dialect, program, hdialect, hread, hedits, -⟩ := transform_touches_legacy hfile
    obtain rfl := Option.some.inj hdialect
    refine ⟨program, file, hread, rfl, ?_, Option.some.inj htext⟩
    have hblock : ∀ program ∈ Program.read? ⟨true, false, true⟩ enumFile,
        (finalDraft enumMapping ⟨true, false, true⟩ enumFile program).importBlock
          (program.importSites enumFile "legacy" defaultAlias) "legacy" =
        "import * as t from \"legacy\";".toList := by
      decide +kernel
    rw [← hblock program hread]
    exact hedits

end SdkMigration
