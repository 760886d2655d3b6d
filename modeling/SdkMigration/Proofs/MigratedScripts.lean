import SdkMigration.Proofs.Grammar.Scripts
import SdkMigration.Proofs.ImplicitAlias

/-!
# Migrated scripts

A script imports nothing, so all that a migration can find in it is the global name of the module
and loads.  Where a function is called through that name and the call is moved, the name becomes an
alias and its import is written in front of the first item.  A script cannot hold an import, so the
migrated file is none any more.  Otherwise no reference is rewritten, and a file that lacks no
comment about a load either is migrated again as it was (`transform_script_again`).
-/

namespace SdkMigration

/-! ## Edits from a position on -/

/-- A comment about a stop of a walk goes where the landmarks begin or behind it. -/
theorem Landmarks.Placed.le_insertionPoint {marks : Landmarks} {text : Text} {lo hi : Nat}
    (h : marks.Placed text lo hi) (line : Nat → Nat) {visit : Visit}
    (hvisit : visit.Marked marks []) : lo ≤ insertionPoint line visit.outer visit.start := by
  rcases insertionPoint_mem line visit.outer visit.start with hplace | hplace
  · rw [hplace]
    rcases hvisit.start with hpoint | ⟨chain, hchain, hstart⟩
    · exact (h.points _ hpoint).1
    · exact hstart ▸ (h.chains chain hchain).lo_le
  · rcases hvisit.outer _ hplace with hnil | hpoint
    · cases hnil
    · exact (h.points _ hpoint).1

/-- What an insertion in front of all other edits writes. -/
theorem Edits.apply_of_prepended {edits : Edits} {text newText : Text} {position : Nat}
    {others : List Edit} (hconsistent : edits.Consistent)
    (hheld : edits.held = ⟨Span.point position, newText⟩ :: others)
    (hfrom : ∀ edit ∈ others, position ≤ edit.span.start)
    (hinside : ∀ edit ∈ edits.held, edit.span.stop ≤ text.length) :
    edits.apply text =
      text.take position ++ (newText ++ written others position (text.drop position)) := by
  have hposition : position ≤ text.length := hinside _ (hheld ▸ List.mem_cons_self)
  have hall : ∀ edit ∈ edits.held, position ≤ edit.span.start := by
    rw [hheld]
    exact List.forall_mem_cons.mpr ⟨Nat.le_refl _, hfrom⟩
  have hinserts : Edit.insertsAt ⟨Span.point position, newText⟩ position = true :=
    Edit.insertsAt_iff.mpr ⟨rfl, rfl⟩
  rw [hconsistent.apply_eq_written hinside,
    written_skip text (Nat.zero_le position) (by omega) hall, Nat.sub_zero, hheld,
    written_insertion _ hinserts]

section Files

variable {options : MigrationOptions} {dialect : Dialect} {body : Text} {program : Program}
  {start stop : Nat}

/-- No edit for a reference stands before the first landmark. -/
theorem le_start_flagged (hplaced : program.Placed body)
    (hfrom : (allLandmarks program.items).Placed body start stop) :
    ∀ edit ∈ (flagged options dialect body program).edits.held, start ≤ edit.span.start := by
  have hcomment : ∀ visit : Visit, program.NamedStop visit → ∀ advisory,
      start ≤ (visit.comment body advisory).span.start :=
    fun visit hstop _ => hfrom.le_insertionPoint body.lineIndex hstop.marked
  have hrewritten : (opened options body program).Continues (fun edit => start ≤ edit.span.start)
      .any (rewritten options dialect body program) := by
    refine continues_references hplaced hcomment fun chain hchain _ edit hpart => ?_
    obtain ⟨whole, hwhole, hbegins⟩ := allReferences_begun program.items chain hchain
    have hchainPlaced := hbegins.placed (hfrom.chains whole hwhole)
    exact Nat.le_trans hchainPlaced.lo_le (hpart.inside hchainPlaced).1
  have hflagged : (referenceDraft options dialect body program).Continues
      (fun edit => start ≤ edit.span.start) .any (flagged options dialect body program) :=
    Draft.continues_flagLeftovers trivial hcomment
  refine hflagged.forall_held ?_ fun _ h => h
  rw [referenceDraft_edits]
  refine hrewritten.forall_held ?_ fun _ h => h
  rw [opened_edits]
  exact fun _ h => absurd h List.not_mem_nil

/-- Where no single export is bound at the start, none is in the end. -/
theorem finalDraft_named_nil (hplaced : program.Placed body)
    (h : (opened options body program).bindings.named = []) :
    (finalDraft options dialect body program).bindings.named = [] := by
  have hrewritten : (opened options body program).Continues (fun _ => True) .any
      (rewritten options dialect body program) :=
    continues_references hplaced (fun _ _ _ => trivial) fun _ _ _ _ _ => trivial
  have hexported := (@learns_flagLeftovers options dialect body program).map_exported
  rw [referenceDraft_named, hrewritten.bindings.map_exported, h] at hexported
  exact List.map_eq_nil_iff.mp hexported

/-- The first declaration of namespaces alone is the import of a whole module. -/
theorem Bindings.block_of_namespaces {bindings : Bindings} (hnamed : bindings.named = [])
    (hstyle : ∀ whole ∈ bindings.whole, whole.style = .namespace) (hwhole : bindings.whole ≠ [])
    (module : String) (sideEffect : Bool) :
    ∃ more, ("\n".intercalate (bindings.declarations module sideEffect)).toList =
      importAll more := by
  obtain ⟨first, others, hfirst⟩ := List.exists_cons_of_ne_nil hwhole
  have hlines : ∃ lines, bindings.declarations module sideEffect =
      Declarations.wholeDeclaration module first :: lines := by
    unfold Bindings.declarations
    rw [hnamed, hfirst]
    exact ⟨_, rfl⟩
  obtain ⟨lines, hlines⟩ := hlines
  have hline : ∃ more, (Declarations.wholeDeclaration module first).toList = importAll more := by
    unfold Declarations.wholeDeclaration
    rw [hstyle first (hfirst ▸ List.mem_cons_self)]
    simp only [String.toList_append]
    exact ⟨_, rfl⟩
  obtain ⟨more, hmore⟩ := hline
  rw [String.toList_intercalate, hlines, List.map_cons, hmore]
  cases lines with
  | nil => exact ⟨more, by simp⟩
  | cons second rest =>
    rw [List.map_cons, List.intercalate_cons_cons]
    exact ⟨_, rfl⟩

/-! ## Where the file imports nothing -/

section Unimported

variable {first : Tree} {others : List Tree} (hplaced : program.Placed body)
  (himports : program.moduleImports options.module = [])
include hplaced himports

/-- The new declarations are held in front of all other edits. -/
theorem held_finalDraft_prepended (hitems : program.items = first :: others)
    (hfrom : (allLandmarks program.items).Placed body first.start stop)
    {block : Text} (hblock : (finalDraft options dialect body program).importBlock
      (program.importSites body options.module options.globalName) options.module = block)
    (hne : block ≠ []) :
    ∃ more, (finalDraft options dialect body program).edits.held =
        ⟨Span.point first.start, block ++ ['\n']⟩ :: more ∧
      ∀ edit ∈ more, first.start ≤ edit.span.start := by
  have hflagged := @le_start_flagged options dialect body program _ _ hplaced hfrom
  have hdeclarations : (program.importSites body options.module
      options.globalName).declarations = [] := by
    rw [Program.declarations_eq, himports]
    rfl
  have hposition : (program.importSites body options.module options.globalName).firstItem =
      some first.start := by
    rw [Program.firstItem_eq, hitems]
    rfl
  have hsame : (flagged options dialect body program).importBlock
      (program.importSites body options.module options.globalName) options.module = block := by
    rw [← hblock]
    unfold Draft.importBlock
    rw [finalDraft_bindings]
  have hempty : block.isEmpty = false := by simpa using hne
  have hfree : ∀ held ∈ (flagged options dialect body program).edits.held,
      held.overlaps ⟨Span.point first.start, block ++ ['\n']⟩ = false := by
    intro held hheld
    rw [Edit.overlaps_comm]
    exact Edit.not_overlaps_of_le (hflagged held hheld)
  have hrewritten : ((flagged options dialect body program).rewriteDeclarations body
      (program.importSites body options.module options.globalName) options.module).edits.held =
      ⟨Span.point first.start, block ++ ['\n']⟩ ::
        (flagged options dialect body program).edits.held := by
    unfold Draft.rewriteDeclarations
    simp only [hdeclarations, hposition, hsame, hempty, Bool.false_eq_true, if_false,
      Draft.prependDeclarations, Draft.tryEdit_of_free hfree]
    rfl
  obtain ⟨comments, hcomments, -⟩ := Draft.held_flagLoads body
    (program.importSites body options.module options.globalName).opaqueLoads
    ((flagged options dialect body program).rewriteDeclarations body
      (program.importSites body options.module options.globalName) options.module)
  change (finalDraft options dialect body program).edits.held = _ at hcomments
  rw [hrewritten, List.cons_append] at hcomments
  refine ⟨(flagged options dialect body program).edits.held ++ comments, hcomments, ?_⟩
  -- Comments about loads stand behind the start as well.
  have hallows : Draft.AllowsImports (fun edit => first.start ≤ edit.span.start) body
      (program.importSites body options.module options.globalName) block := by
    refine ⟨?_, ?_, fun position h => ?_, fun load hload _ => ?_⟩
    · rw [hdeclarations]
      exact fun _ h => absurd h List.not_mem_nil
    · rw [hdeclarations]
      exact fun _ h => absurd h List.not_mem_nil
    · rw [hposition] at h
      exact Nat.le_of_eq (Option.some.inj h)
    · obtain ⟨visit, hmarked, hvisit⟩ := Program.exists_visit_of_load hload
      rw [hvisit]
      exact hfrom.le_insertionPoint body.lineIndex hmarked
  have hfinal : (flagged options dialect body program).Continues
      (fun edit => first.start ≤ edit.span.start) .any
      (finalDraft options dialect body program) := by
    rw [← hsame] at hallows
    exact Draft.continues_rewriteImports hallows
  have hall := hfinal.forall_held hflagged fun _ h => h
  rw [hcomments] at hall
  exact (List.forall_mem_cons.mp hall).2

/-- A file that needs the alias for the global name comes to have the import of the module as a
whole in front of its first item. -/
theorem text_of_needs (hbuiltIn : options.mappings = .builtIn)
    (huses : (program.importSites body options.module options.globalName).usesImplicitAlias = true)
    (hneeds : program.NeedsAlias options dialect body) (hitems : program.items = first :: others)
    (hfrom : (allLandmarks program.items).Placed body first.start stop) :
    ∃ more, (migrateProgram options dialect body program).text =
      body.take first.start ++ importAll more := by
  have hdot : anyMentions "." program.items = false :=
    hplaced.not_mentioned fun h => h (by decide)
  have hrecorded := ((@rewritten_cases options dialect body program _ hplaced hbuiltIn huses
    hdot).resolve_right fun h => h.1 hneeds).2
  have himported := (declares_of_recorded hplaced hbuiltIn huses hrecorded).1
  have hfound : found options body program = {} := by
    unfold found
    exact congrArg₂ Bindings.mk (Program.named_eq.trans (by rw [himports]; rfl))
      (Program.whole_eq.trans (by rw [himports]; rfl))
  have hopened := opened_of_uses huses
  rw [hfound] at hopened
  have hnamed := @finalDraft_named_nil options dialect body program hplaced
    (by rw [hopened]; rfl)
  have hstyle : ∀ whole ∈ (finalDraft options dialect body program).bindings.whole,
      whole.style = .namespace := by
    intro whole hwhole
    obtain ⟨origin, horigin, hlearned⟩ := exists_opened_whole hplaced hwhole
    rw [hopened] at horigin
    obtain rfl := List.mem_singleton.mp horigin
    exact hlearned.style
  have hwhole : (finalDraft options dialect body program).bindings.whole ≠ [] := by
    rw [Bindings.imports_module_iff] at himported
    exact fun hnil => by rw [hnil] at himported; cases himported
  obtain ⟨more, hblock⟩ := Bindings.block_of_namespaces hnamed hstyle hwhole options.module
    (program.importSites body options.module options.globalName).sideEffect
  obtain ⟨edits, hheld, hbehind⟩ := held_finalDraft_prepended hplaced himports hitems hfrom hblock
    (List.cons_ne_nil _ _)
  obtain ⟨hedits, hconsistent⟩ := @finalDraft_legacyEdits options dialect body program hplaced
  have htext := Edits.apply_of_prepended hconsistent hheld hbehind fun edit hedit =>
    LegacyEdit.stop_le hplaced (hedits edit hedit)
  rw [importAll_append, importAll_append] at htext
  exact ⟨_, htext⟩

omit hplaced in
/-- A file that the global name does not stand for the module in stays as it is. -/
theorem text_of_unused
    (hloads : ∀ load ∈ (program.importSites body options.module options.globalName).opaqueLoads,
      load.kind.advisory ∈ Advisory.above body load.position)
    (huses :
      (program.importSites body options.module options.globalName).usesImplicitAlias = false) :
    (migrateProgram options dialect body program).text = body := by
  have hedits : (finalDraft options dialect body program).edits = {} := by
    rw [finalDraft_of_imports himports huses]
    exact Draft.edits_flagLoads _ hloads
  show (finalDraft options dialect body program).edits.apply body = body
  rw [hedits]
  rfl

/-- A file that does not need the alias stays as it is, unless a comment is missing above one of
its loads. -/
theorem text_of_not_needs (hbuiltIn : options.mappings = .builtIn)
    (hloads : ∀ load ∈ (program.importSites body options.module options.globalName).opaqueLoads,
      load.kind.advisory ∈ Advisory.above body load.position)
    (hneeds : ¬((program.importSites body options.module
      options.globalName).usesImplicitAlias = true ∧ program.NeedsAlias options dialect body)) :
    (migrateProgram options dialect body program).text = body := by
  cases huses : (program.importSites body options.module options.globalName).usesImplicitAlias with
  | false => exact text_of_unused himports hloads huses
  | true =>
    have hdot : anyMentions "." program.items = false :=
      hplaced.not_mentioned fun h => h (by decide)
    have hdrops := (drops_of_beside hplaced huses (fun name hname =>
      ((@rewritten_cases options dialect body program _ hplaced hbuiltIn huses
        hname).resolve_left fun h => hneeds ⟨huses, h.1⟩).2) hdot).2
    rw [hdrops.text "." hdot]
    have hsame : ∀ load ∈ (program.importSites body options.module ".").opaqueLoads,
        load.kind.advisory ∈ Advisory.above body load.position := by
      rw [Program.opaqueLoads_eq] at hloads ⊢
      exact hloads
    exact @text_of_unused (options.underName ".") _ _ _ himports hsame (opened_underName hdot).2

end Unimported

end Files

/-! ## Scripts -/

/-- A letter behind the front of a text without a mark starts no mark either. -/
theorem withoutMark_take {text : Text} {position : Nat} {letter : Char} {more : Text}
    (h : ¬text.HasMark) (hletter : letter ≠ '\uFEFF') :
    Program.withoutMark (text.take position ++ letter :: more) =
      text.take position ++ letter :: more := by
  rw [Program.withoutMark_eq_self_iff]
  rintro ⟨rest, hrest⟩
  cases position with
  | zero => exact hletter (List.cons.inj hrest).1
  | succ position =>
    cases text with
    | nil => exact hletter (List.cons.inj hrest).1
    | cons c others => exact h ⟨others, by rw [(List.cons.inj hrest).1]⟩

/-- No dialect without modules has types. -/
theorem MediaType.types_of_script {mediaType : MediaType} {dialect : Dialect}
    (hdialect : mediaType.dialect? = some dialect) (hmodules : dialect.modules = false) :
    dialect.types = false := by
  have hscripts : ∀ found ∈ mediaType.dialect?, found.modules = false → found.types = false := by
    cases mediaType <;> decide
  exact hscripts dialect hdialect hmodules

/-- Without types only calls need an alias. -/
theorem Program.needsAlias_iff {program : Program} {options : MigrationOptions} {dialect : Dialect}
    {body : Text} (htypes : dialect.types = false) :
    program.NeedsAlias options dialect body ↔ ∃ chain ∈ allCallChains program.items,
      chain.NamesSource options.globalName options.mappings.functions := by
  constructor
  · rintro (⟨hmem, hsource⟩ | ⟨hother, -, -⟩ | ⟨hother, -, -, -, -, -⟩)
    · exact ⟨_, hmem, hsource⟩
    · rw [htypes] at hother
      cases hother
    · rw [htypes] at hother
      cases hother
  · rintro ⟨chain, hmem, hsource⟩
    exact .call hmem hsource

section Scripts

variable {options : MigrationOptions} {location : String} {mediaType : MediaType} {dialect : Dialect}
  {body : Text} {program : Program} (hbuiltIn : options.mappings = .builtIn)
  (hdialect : mediaType.dialect? = some dialect) (hmodules : dialect.modules = false)
  (hread : Program.read? dialect body = some program) (hmark : ¬body.HasMark)
include hbuiltIn hdialect hmodules hread hmark

/-- The migrated script is none any more if the import of the alias is written into it. -/
theorem transform_of_needs
    (huses : (program.importSites body options.module options.globalName).usesImplicitAlias = true)
    (hneeds : program.NeedsAlias options dialect body) :
    transform options location mediaType (migrateProgram options dialect body program).text =
      .error .unreadable := by
  obtain ⟨first, others, hitems⟩ : ∃ first others, program.items = first :: others := by
    refine List.exists_cons_of_ne_nil fun hnil => ?_
    unfold ImportSites.usesImplicitAlias at huses
    rw [Program.aliasMentioned_eq, hnil] at huses
    cases huses
  obtain rfl : program = ⟨first :: others⟩ := congrArg Program.mk hitems
  obtain ⟨stop, hfrom⟩ := Program.itemsPlaced_from_first hmodules hread
  obtain ⟨more, htext⟩ := text_of_needs (Program.placed_of_read hread)
    (Program.moduleImports_of_script hmodules hread _) hbuiltIn huses hneeds hitems hfrom.landmarks
  have hunmarked : Program.withoutMark (body.take first.start ++ importAll more) =
      body.take first.start ++ importAll more := withoutMark_take hmark (by decide)
  rw [htext]
  refine transform_of_unreadable hdialect ?_
  rw [hunmarked, Program.read?_prepended hmodules hread more]

/-- Otherwise it is migrated as before. -/
theorem transform_of_not_needs
    (hloads : ∀ load ∈ (program.importSites body options.module options.globalName).opaqueLoads,
      load.kind.advisory ∈ Advisory.above body load.position)
    (hneeds : ¬((program.importSites body options.module
      options.globalName).usesImplicitAlias = true ∧ program.NeedsAlias options dialect body)) :
    transform options location mediaType (migrateProgram options dialect body program).text =
      .ok (migrateProgram options dialect body program) := by
  have hbody : Program.withoutMark body = body := Program.withoutMark_eq_self_iff.mpr hmark
  rw [text_of_not_needs (Program.placed_of_read hread)
    (Program.moduleImports_of_script hmodules hread _) hbuiltIn hloads hneeds]
  exact (transform_of_read hdialect (by rw [hbody, hread])).trans (by rw [hbody])

end Scripts

/-- A script that mentions the global name and calls no function of the table. -/
private def mentioningScript : Text := "microsoftTeams.foo();\n".toList

private theorem mentioningScript_facts :
    ((transform {} "file:///mod.cjs" .cjs mentioningScript).toOption.map (·.text)) =
        some mentioningScript ∧
      ∀ program ∈ Program.read? ⟨false, false, false⟩ (Program.withoutMark mentioningScript),
        let sites := program.importSites (Program.withoutMark mentioningScript) defaultModule
          defaultAlias
        sites.usesImplicitAlias = true ∧
          (∀ load ∈ sites.opaqueLoads,
            load.kind.advisory ∈ Advisory.above (Program.withoutMark mentioningScript)
              load.position) ∧
          ¬∃ chain ∈ allCallChains program.items, ∃ rule ∈ BuiltIn.functions,
            chain.names = defaultAlias :: rule.source.names := by
  decide +kernel

/-- A script that calls a function of the table through the global name. -/
private def callingScript : Text := "microsoftTeams.initialize();\n".toList

/-- The script when it is migrated. -/
private def callingScriptOnce : Text :=
  ("import * as microsoftTeams from \"@microsoft/teams-js\";\n" ++
    "microsoftTeams.app.initialize();\n").toList

private theorem callingScript_facts :
    ((transform {} "file:///mod.cjs" .cjs callingScript).toOption.map (·.text)) =
        some callingScriptOnce ∧
      Program.read? ⟨false, false, false⟩ (Program.withoutMark callingScriptOnce) = none := by
  decide +kernel

end SdkMigration
