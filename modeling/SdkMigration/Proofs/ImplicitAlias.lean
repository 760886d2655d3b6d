import SdkMigration.Proofs.EditRequests
import SdkMigration.Proofs.MergedImports
import SdkMigration.Proofs.Stages.ExtraAlias
import SdkMigration.Proofs.Stages.Unmatched
import SdkMigration.Proofs.UnrelatedFiles

/-!
# The alias for the global name

Where the global name of the module stands for it, the run starts with a tentative alias.
The run is compared with one that starts without it: the same file, migrated under a
global name that it does not use.

Either a reference through the alias is moved, and then the alias has learned of that and
is declared in the end, or the two runs are beside each other up to the last stage of
references (`rewritten_cases`).  Then the alias is dropped, and the runs end with the same
edits and the same bindings.
-/

namespace SdkMigration

/-- The options under another global name. -/
def MigrationOptions.underName (options : MigrationOptions) (name : String) : MigrationOptions :=
  { options with globalName := name }

/-- The alias that stands for the global name of the module. -/
def MigrationOptions.tentative (options : MigrationOptions) : WholeImport :=
  { name := options.globalName, style := .namespace, tentative := true }

/-- What a program binds from the module. -/
abbrev found (options : MigrationOptions) (body : Text) (program : Program) : Bindings :=
  (program.importSites body options.module options.globalName).bindings

/-- The draft when the stage of calls has run. -/
def beforeTypes (options : MigrationOptions) (body : Text) (program : Program) : Draft :=
  (opened options body program).rewriteCalls body program options.mappings.functions

/-- The draft when the stage of types has run, too. -/
def beforeEnums (options : MigrationOptions) (body : Text) (program : Program) : Draft :=
  (beforeTypes options body program).rewriteTypes program options.mappings.interfaces

/-- Whether a program needs the global name as an alias: it calls a function that a rule
is for, names a type that a rule is for, or a part of a reference is replaced in the stage
of enumerations, each through the global name.  The last two ask for a dialect with
types. -/
inductive Program.NeedsAlias (program : Program) (options : MigrationOptions)
    (dialect : Dialect) (body : Text) : Prop where
  | call {chain : Chain} (mem : chain ∈ allCallChains program.items)
    (source : chain.NamesSource options.globalName options.mappings.functions)
  | type {chain : Chain} (types : dialect.types = true) (mem : chain ∈ allTypeChains program.items)
    (source : chain.NamesSource options.globalName options.mappings.interfaces)
  | enum {chain : Chain} {edit : Edit} (types : dialect.types = true)
    (mem : chain ∈ allReferences program.items) (root : chain.root = options.globalName)
    (part : chain.HasPart edit.span)
    (made : edit ∈ (rewritten options dialect body program).edits.held)
    (new : edit ∉ (beforeEnums options body program).edits.held)

/-! ## The two runs at the start -/

/-- A name that items import is one that they declare. -/
theorem Tree.declares_of_moduleImport {item : Tree} {module name : String} {found : ModuleImport}
    (h : item.moduleImport? module = some found)
    (hname : name ∈ (Bindings.mk found.named found.whole).localNames) :
    item.declares name = true := by
  have hcore : item.core.declares name = item.declares name := by
    cases item <;> rfl
  rw [← hcore]
  unfold Tree.moduleImport? at h
  cases hitem : item.core with
  | importDeclaration declared =>
    rw [hitem] at h
    simp only at h
    split at h
    · obtain rfl := Option.some.inj h
      rw [Tree.declares, List.any_eq_true]
      rcases List.mem_append.mp hname with hname | hname
      · obtain ⟨named, hnamed, rfl⟩ := List.mem_map.mp hname
        obtain ⟨specifier, hspecifier, hbinds⟩ := List.mem_filterMap.mp hnamed
        exact ⟨specifier, hspecifier, beq_iff_eq.mpr (ImportSites.localName_of_named? hbinds).symm⟩
      · obtain ⟨whole, hwhole, rfl⟩ := List.mem_map.mp hname
        obtain ⟨specifier, hspecifier, hbinds⟩ := List.mem_filterMap.mp hwhole
        exact ⟨specifier, hspecifier, beq_iff_eq.mpr (ImportSites.name_of_whole? hbinds).symm⟩
    · cases h
  | importEquals header source =>
    rw [hitem] at h
    cases source with
    | text value span =>
      simp only at h
      split at h
      · obtain rfl := Option.some.inj h
        exact beq_iff_eq.mpr (List.mem_singleton.mp hname).symm
      · cases h
    | _ => cases h
  | _ =>
    rw [hitem] at h
    cases h

theorem anyDeclares_of_mem {name : String} {items : List Tree} {item : Tree} (hmem : item ∈ items)
    (h : item.declares name = true) : anyDeclares name items = true := by
  induction items with
  | nil => cases hmem
  | cons first rest ih =>
    rw [anyDeclares, Bool.or_eq_true]
    rcases List.mem_cons.mp hmem with rfl | hmem
    · exact Or.inl h
    · exact Or.inr (ih hmem)

section Stages

variable {options : MigrationOptions} {dialect : Dialect} {body : Text} {program : Program}
  {name : String}

/-- No import binds the global name where it stands for the module. -/
theorem globalName_notMem
    (huses : (program.importSites body options.module options.globalName).usesImplicitAlias =
      true) :
    options.globalName ∉
      (program.importSites body options.module options.globalName).bindings.localNames := by
  intro hmem
  have hundeclared : anyDeclares options.globalName program.items = false := by
    rw [← @Program.aliasDeclared_eq body program options.module]
    unfold ImportSites.usesImplicitAlias at huses
    simp only [Bool.and_eq_true, Bool.not_eq_true'] at huses
    exact huses.1.2
  unfold Bindings.localNames at hmem
  rw [Program.named_eq, Program.whole_eq] at hmem
  have hfound : ∃ found ∈ program.moduleImports options.module,
      options.globalName ∈ (Bindings.mk found.named found.whole).localNames := by
    rcases List.mem_append.mp hmem with hmem | hmem
    · obtain ⟨named, hnamed, hname⟩ := List.mem_map.mp hmem
      obtain ⟨found, hfound, hnamed⟩ := List.mem_flatMap.mp hnamed
      exact ⟨found, hfound, List.mem_append_left _ (hname ▸ List.mem_map_of_mem hnamed)⟩
    · obtain ⟨whole, hwhole, hname⟩ := List.mem_map.mp hmem
      obtain ⟨found, hfound, hwhole⟩ := List.mem_flatMap.mp hwhole
      exact ⟨found, hfound, List.mem_append_right _ (hname ▸ List.mem_map_of_mem hwhole)⟩
  obtain ⟨found, hfound, hname⟩ := hfound
  obtain ⟨item, hitem, hcontributes⟩ := List.mem_filterMap.mp hfound
  rw [anyDeclares_of_mem hitem (Tree.declares_of_moduleImport hcontributes hname)] at hundeclared
  cases hundeclared

/-- What a file binds does not depend on the global name. -/
theorem sites_underName (body : Text) (program : Program) (module name other : String) :
    (program.importSites body module name).bindings =
      (program.importSites body module other).bindings := by
  have hnamed := @Program.named_eq program body module name
  have hwhole := @Program.whole_eq program body module name
  rw [← @Program.named_eq program body module other] at hnamed
  rw [← @Program.whole_eq program body module other] at hwhole
  cases hfound : (program.importSites body module name).bindings
  cases hother : (program.importSites body module other).bindings
  rw [hfound, hother] at hnamed hwhole
  exact congrArg₂ Bindings.mk hnamed hwhole

/-- A run under a name that is not used starts with what the file binds. -/
theorem opened_underName (hname : anyMentions name program.items = false) :
    (opened (options.underName name) body program).bindings =
        (program.importSites body options.module options.globalName).bindings ∧
      (program.importSites body options.module name).usesImplicitAlias = false := by
  have hunused : (program.importSites body options.module name).usesImplicitAlias = false := by
    unfold ImportSites.usesImplicitAlias
    rw [Program.aliasMentioned_eq, hname]
    rfl
  refine ⟨?_, hunused⟩
  rw [sites_underName body program options.module options.globalName name]
  unfold opened openDraft MigrationOptions.underName
  simp only [hunused, Bool.false_eq_true, if_false]

/-- A run under a name that stands for the module starts with an alias of that name. -/
theorem opened_of_uses (huses :
      (program.importSites body options.module options.globalName).usesImplicitAlias = true) :
    (opened options body program).bindings =
      (found options body program).withAliases [options.tentative] := by
  have htracks : (found options body program).tracks options.globalName = false := by
    rw [← Bool.not_eq_true, Bindings.tracks_iff]
    exact globalName_notMem huses
  unfold opened openDraft
  simp only [huses, if_true, Bindings.addTentative, htracks, Bool.false_eq_true, if_false]
  rfl

/-- At the start the run has one more alias than the one under another name. -/
theorem beside_opened
    (huses : (program.importSites body options.module options.globalName).usesImplicitAlias = true)
    (hname : anyMentions name program.items = false) :
    (opened options body program).Beside (found options body program) [options.tentative]
      (opened (options.underName name) body program) := by
  refine ⟨opened_edits.trans opened_edits.symm, ?_, ?_⟩
  · rw [(opened_underName hname).1]
    exact opened_of_uses huses
  · rw [(opened_underName hname).1]
    exact .refl _

/-! ## The run without the alias leaves the global name alone -/

/-- Whether a chain starts with the global name. -/
def Program.Through (program : Program) (globalName : String) (chain : Chain) : Prop :=
  (allLandmarks program.items).Begun chain ∧ chain.root = globalName

/-- No edit of the run without the alias touches a reference through the global name. -/
theorem not_overlaps_underName (hplaced : program.Placed body)
    (huses : (program.importSites body options.module options.globalName).usesImplicitAlias = true)
    (hname : anyMentions name program.items = false) {chain : Chain}
    (hchain : program.Through options.globalName chain) (newText : Text) :
    ∀ edit ∈ (finalDraft (options.underName name) dialect body program).edits.held,
      edit.overlaps ⟨chain.span, newText⟩ = false := by
  obtain ⟨⟨whole, hwhole, hbegins⟩, hroot⟩ := hchain
  have hsame : whole.root = options.globalName := by
    obtain ⟨more, hmore⟩ := hbegins.names_prefix
    rw [← hroot]
    exact (List.cons.inj hmore).1.symm
  have hcontinues : (opened (options.underName name) body program).Continues
      ((allLandmarks program.items).Within (· ≠ whole)) .any
      (rewritten (options.underName name) dialect body program) := by
    refine continues_references hplaced
      (fun _ hstop => hplaced.landmarks.within_comment hstop.marked) ?_
    intro other hother htracks edit hpart
    obtain ⟨longer, hlonger, hbeginsOther⟩ := allReferences_begun program.items other hother
    have hplacedOther := hplaced.landmarks.chains longer hlonger
    obtain ⟨hstart, hstop⟩ := hpart.inside (hbeginsOther.placed hplacedOther)
    refine .name hlonger (fun heq => ?_) (hbeginsOther.start_eq ▸ hstart)
      (Nat.le_trans hstop (hbeginsOther.stop_le hplacedOther))
    -- The other chain starts with a bound name, and the global name is not bound.
    obtain ⟨more, hmore⟩ := hbeginsOther.names_prefix
    have hotherRoot : other.root = longer.root := (List.cons.inj hmore).1
    rw [Bindings.tracks_iff, (opened_underName hname).1, hotherRoot, heq, hsame] at htracks
    exact globalName_notMem huses htracks
  have hheld : ∀ held ∈ (rewritten (options.underName name) dialect body program).edits.held,
      (allLandmarks program.items).Within (· ≠ whole) held := by
    refine hcontinues.forall_held ?_ fun _ h => h
    rw [opened_edits]
    exact fun _ h => absurd h List.not_mem_nil
  intro edit hedit
  refine Edit.not_overlaps_of_inside (finalDraft_untouched hplaced hwhole hheld [] edit hedit)
    (Nat.le_of_eq hbegins.start_eq.symm) ?_ newText
  exact hbegins.stop_le (hplaced.landmarks.chains whole hwhole)

/-- A part of a reference through the global name is not among the edits of the run without
the alias. -/
theorem notMem_underName (hplaced : program.Placed body)
    (huses : (program.importSites body options.module options.globalName).usesImplicitAlias = true)
    (hname : anyMentions name program.items = false) {chain : Chain}
    (hchain : chain ∈ allReferences program.items) (hroot : chain.root = options.globalName)
    {edit : Edit} (hpart : chain.HasPart edit.span) :
    edit ∉ (rewritten (options.underName name) dialect body program).edits.held := by
  intro hedit
  have hbegun := allReferences_begun program.items chain hchain
  have hspan := hplaced.reference hchain
  obtain ⟨hstart, hstop⟩ := hpart.inside hspan
  have hself := Edit.not_overlaps_of_inside (not_overlaps_underName hplaced huses hname
    ⟨hbegun, hroot⟩ [] edit (finalDraft_kept hplaced hedit)) hstart hstop []
  have hlt := hpart.start_lt_stop hspan
  rw [Edit.overlaps_eq_false_iff] at hself
  exact hself (Or.inr (Or.inr ⟨edit.span.start, by simp [Span.covers, hlt]⟩))

/-! ## The stages of references -/

section Runs

variable (hplaced : program.Placed body) (hbuiltIn : options.mappings = .builtIn)
  (huses : (program.importSites body options.module options.globalName).usesImplicitAlias = true)
  (hname : anyMentions name program.items = false)
include hplaced hbuiltIn huses

private theorem noDots_tentative {bindings : Bindings} {rules : List Rule}
    (hlearns : (found options body program).Learns .any bindings)
    (hrules : ∀ rule ∈ rules, rule ∈ options.mappings.rules) :
    NoDots (bindings.withAliases [options.tentative]) rules := by
  refine ⟨fun name hname => ?_, fun rule hrule name => ?_⟩
  · rw [Bindings.localNames_withAliases, hlearns.localNames, List.mem_append] at hname
    rcases hname with hname | hname
    · exact hplaced.dotFree_localNames hname
    · rw [List.mem_singleton.mp hname]
      exact hplaced.dotFree_globalName huses
  · exact BuiltIn.dotFree_source (hbuiltIn ▸ hrules rule hrule)

include hname

/-- Either a call goes through the alias and is recorded, or the runs stay beside each
other. -/
private theorem beforeTypes_cases :
    ((∃ chain ∈ allCallChains program.items,
        chain.NamesSource options.globalName options.mappings.functions) ∧
      (beforeTypes options body program).bindings.Recorded
        (.whole (found options body program).whole.length)) ∨
    ((¬∃ chain ∈ allCallChains program.items,
        chain.NamesSource options.globalName options.mappings.functions) ∧
      (beforeTypes options body program).Beside (found options body program) [options.tentative]
        (beforeTypes (options.underName name) body program)) := by
  have hopened := beside_opened huses hname
  have hother := (@opened_underName options body program name hname).1
  have hdots := noDots_tentative hplaced hbuiltIn huses (.refl _)
    fun rule hrule => List.mem_append_left _ (List.mem_append_left _ hrule)
  have hfree : ∀ chain ∈ allCallChains program.items, ∀ name ∈ chain.names, DotFree name :=
    fun chain hchain name =>
      (hplaced.landmarks.chains chain (Draft.mem_chains_of_call hchain)).dotFree
  have hnew := globalName_notMem huses
  by_cases hsource : ∃ chain ∈ allCallChains program.items,
      chain.NamesSource options.globalName options.mappings.functions
  · left
    refine ⟨hsource, ?_⟩
    obtain ⟨chain, hchain, hsource⟩ := hsource
    obtain ⟨replacement, hfound, horigin⟩ :=
      @find?_through _ options.tentative _ chain hnew hdots (hfree chain hchain) hsource
    rw [← hother, ← hopened.bindings] at hfound
    rw [← horigin]
    refine (@Draft.rewriteCalls_replaces .any _ _ _ _ _ _ _ _ hplaced.landmarks
      (allows_any _) hchain hfound ?_).1
    rw [opened_edits]
    exact fun _ h => absurd h List.not_mem_nil
  · right
    refine ⟨hsource, ?_⟩
    have hcalled : (beforeTypes options body program).Beside
        (opened (options.underName name) body program).bindings [options.tentative]
        (beforeTypes (options.underName name) body program) := by
      refine hopened.rewriteCalls fun chain hchain => ?_
      rw [hopened.bindings, hother]
      exact @find?_withAlias _ options.tentative _ chain hnew hdots (hfree chain hchain)
        fun h => hsource ⟨chain, hchain, h⟩
    rwa [hother] at hcalled

/-- Where no call goes through the alias, either a name of a type does and is recorded, or
the runs stay beside each other. -/
private theorem beforeEnums_cases
    (hcalls : ¬∃ chain ∈ allCallChains program.items,
      chain.NamesSource options.globalName options.mappings.functions) :
    ((∃ chain ∈ allTypeChains program.items,
        chain.NamesSource options.globalName options.mappings.interfaces) ∧
      (beforeEnums options body program).bindings.Recorded
        (.whole (found options body program).whole.length)) ∨
    ((¬∃ chain ∈ allTypeChains program.items,
        chain.NamesSource options.globalName options.mappings.interfaces) ∧
      (beforeEnums options body program).Beside (found options body program) [options.tentative]
        (beforeEnums (options.underName name) body program)) := by
  have hcalled := ((beforeTypes_cases hplaced hbuiltIn huses hname).resolve_left
    fun h => hcalls h.1).2
  have hdots := noDots_tentative hplaced hbuiltIn huses hcalled.learns
    fun rule hrule => List.mem_append_left _ (List.mem_append_right _ hrule)
  have hfree : ∀ chain ∈ allTypeChains program.items, ∀ name ∈ chain.names, DotFree name :=
    fun chain hchain name =>
      (hplaced.landmarks.chains chain (Draft.mem_chains_of_type hchain)).dotFree
  have hnew : options.tentative.name ∉
      (beforeTypes (options.underName name) body program).bindings.localNames := by
    rw [hcalled.learns.localNames]
    exact globalName_notMem huses
  have hlength : (beforeTypes (options.underName name) body program).bindings.whole.length =
      (found options body program).whole.length := by
    simpa using congrArg List.length hcalled.learns.map_name
  by_cases hsource : ∃ chain ∈ allTypeChains program.items,
      chain.NamesSource options.globalName options.mappings.interfaces
  · left
    refine ⟨hsource, ?_⟩
    obtain ⟨chain, hchain, hsource⟩ := hsource
    obtain ⟨replacement, hfound, horigin⟩ := find?_through hnew hdots (hfree chain hchain) hsource
    rw [← hcalled.bindings] at hfound
    rw [← hlength, ← horigin]
    refine (@Draft.rewriteTypes_replaces .any _ _ _ _ _ _ _ _ hplaced.landmarks
      (allows_any _) hchain hfound ?_).1
    -- The stage of calls has replaced other chains.
    have hcontinues : (opened options body program).Continues
        ((allLandmarks program.items).Within (· ≠ chain)) .any (beforeTypes options body program) :=
      Draft.continues_rewriteCalls_within hplaced.landmarks (allows_any _)
        fun other hother _ _ _ hsame =>
          Draft.not_type_of_call hplaced.landmarks hother (hsame ▸ hchain)
    refine hcontinues.forall_held ?_ fun _ h => h
    rw [opened_edits]
    exact fun _ h => absurd h List.not_mem_nil
  · right
    refine ⟨hsource, ?_⟩
    refine (Draft.Beside.rewriteTypes hcalled fun chain hchain => ?_).since hcalled.learns
    rw [hcalled.bindings]
    exact find?_withAlias hnew hdots (hfree chain hchain) fun h => hsource ⟨chain, hchain, h⟩

omit hplaced hbuiltIn huses hname in
private theorem rewritten_of_types (htypes : dialect.types = true) :
    rewritten options dialect body program =
      (beforeEnums options body program).rewriteEnums body program options.mappings.enums := by
  simp only [rewritten, Draft.rewriteReferences, htypes, if_true]
  rfl

omit hplaced hbuiltIn huses hname in
private theorem continues_enums_any (options : MigrationOptions) (body : Text) (program : Program)
    (htypes : dialect.types = true) : (beforeEnums options body program).Continues (fun _ => True)
      .any (rewritten options dialect body program) := by
  rw [rewritten_of_types htypes]
  exact Draft.continues_rewriteEnums (allowsEnums_any _)
    fun _ _ _ _ _ => trivial

omit hplaced hbuiltIn huses hname in
private theorem continues_behind_calls (options : MigrationOptions) (dialect : Dialect)
    (body : Text) (program : Program) : (beforeTypes options body program).Continues
      (fun _ => True) .any (rewritten options dialect body program) := by
  cases htypes : dialect.types with
  | true =>
    have hnames : (beforeTypes options body program).Continues (fun _ => True) .any
        (beforeEnums options body program) :=
      Draft.continues_rewriteTypes (allows_any _) fun _ _ _ _ _ => trivial
    exact hnames.trans (continues_enums_any options body program htypes)
  | false =>
    simp only [rewritten, Draft.rewriteReferences, htypes, Bool.false_eq_true, if_false]
    exact .refl _

/-- Where the runs come to the stage of enumerations beside each other, either a part of a
reference through the alias is replaced there and is recorded, or they stay so. -/
private theorem enums_cases (htypes : dialect.types = true)
    (hbeside : (beforeEnums options body program).Beside (found options body program)
      [options.tentative] (beforeEnums (options.underName name) body program)) :
    ((∃ chain ∈ allReferences program.items, chain.root = options.globalName ∧
        ∃ edit ∈ (rewritten options dialect body program).edits.held, chain.HasPart edit.span ∧
          edit ∉ (beforeEnums options body program).edits.held) ∧
      (rewritten options dialect body program).bindings.Recorded
        (.whole (found options body program).whole.length)) ∨
    (rewritten options dialect body program).Beside (found options body program)
      [options.tentative] (rewritten (options.underName name) dialect body program) := by
  have hdots := noDots_tentative hplaced hbuiltIn huses hbeside.learns
    fun rule hrule => List.mem_append_right _ hrule
  have hnew : options.tentative.name ∉
      (beforeEnums (options.underName name) body program).bindings.localNames := by
    rw [hbeside.learns.localNames]
    exact globalName_notMem huses
  have hlength : (beforeEnums (options.underName name) body program).bindings.whole.length =
      (found options body program).whole.length := by
    simpa using congrArg List.length hbeside.learns.map_name
  have htogether := @Draft.together_rewriteEnums _ body _ _ _ _ _ hnew hdots
    (fun chain hchain name => (hplaced.reference hchain).dotFree) hbeside
  rcases htogether with halike | hmoved
  · right
    rw [rewritten_of_types htypes, rewritten_of_types htypes]
    exact halike.since hbeside.learns
  · left
    obtain ⟨chain, hchain, hroot, edit, hedit, hpart⟩ := hmoved.replaced
    rw [rewritten_of_types htypes, ← hlength]
    refine ⟨⟨chain, hchain, hroot, edit, hedit, hpart, ?_⟩, hmoved.recorded⟩
    -- The other run has collected no such edit, neither before the stage nor in it.
    intro hbefore
    rw [hbeside.edits] at hbefore
    exact notMem_underName hplaced huses hname hchain hroot hpart
      ((continues_enums_any (options.underName name) body program htypes).kept edit hbefore)

/-- Either the file needs the alias, which has learned that it was used, or the runs are
beside each other when all references have been dealt with. -/
theorem rewritten_cases :
    (program.NeedsAlias options dialect body ∧
      (rewritten options dialect body program).bindings.Recorded
        (.whole (found options body program).whole.length)) ∨
    (¬program.NeedsAlias options dialect body ∧
      (rewritten options dialect body program).Beside (found options body program)
        [options.tentative] (rewritten (options.underName name) dialect body program)) := by
  rcases beforeTypes_cases hplaced hbuiltIn huses hname with
    ⟨⟨chain, hchain, hsource⟩, hrecorded⟩ | ⟨hcalls, hcalled⟩
  · exact Or.inl ⟨.call hchain hsource,
      (continues_behind_calls options dialect body program).bindings.recorded hrecorded⟩
  cases htypes : dialect.types with
  | false =>
    refine Or.inr ⟨fun hneeds => ?_, ?_⟩
    · cases hneeds with
      | call mem source => exact hcalls ⟨_, mem, source⟩
      | type types _ _ => exact Bool.false_ne_true (htypes.symm.trans types)
      | enum types _ _ _ _ _ => exact Bool.false_ne_true (htypes.symm.trans types)
    · simp only [rewritten, Draft.rewriteReferences, htypes, Bool.false_eq_true, if_false]
      exact hcalled
  | true =>
    rcases beforeEnums_cases hplaced hbuiltIn huses hname hcalls with
      ⟨⟨chain, hchain, hsource⟩, hrecorded⟩ | ⟨hnames, hbeside⟩
    · exact Or.inl ⟨.type htypes hchain hsource,
        (continues_enums_any options body program htypes).bindings.recorded hrecorded⟩
    rcases enums_cases hplaced hbuiltIn huses hname htypes hbeside with
      ⟨⟨chain, hchain, hroot, edit, hmade, hpart, hnew⟩, hrecorded⟩ | hbeside
    · exact Or.inl ⟨.enum htypes hchain hroot hpart hmade hnew, hrecorded⟩
    · refine Or.inr ⟨fun hneeds => ?_, hbeside⟩
      cases hneeds with
      | call mem source => exact hcalls ⟨_, mem, source⟩
      | type _ mem source => exact hnames ⟨_, mem, source⟩
      | enum _ mem root part made _ =>
        exact notMem_underName hplaced huses hname mem root part (hbeside.edits ▸ made)

end Runs

/-! ## The end of the runs -/

/-- Settling drops an alias that is tentative and not used. -/
theorem Bindings.settle_withAlias {bindings : Bindings} {extra : WholeImport}
    (hfixed : ∀ whole ∈ bindings.whole, whole.tentative = false)
    (htentative : extra.tentative = true) (hunused : extra.matched = false) :
    (bindings.withAliases [extra]).settle = bindings := by
  have hdropped : (!extra.tentative || extra.matched) = false := by rw [htentative, hunused]; rfl
  unfold settle withAliases
  simp only [List.filter_append, List.filter_cons, hdropped, Bool.false_eq_true, if_false,
    List.filter_nil, List.append_nil]
  exact Bindings.settle_eq_self hfixed

/-- Runs that are beside each other are the same once the alias is settled. -/
private theorem beside_referenceDraft
    (huses : (program.importSites body options.module options.globalName).usesImplicitAlias = true)
    (hname : anyMentions name program.items = false)
    (h : (rewritten options dialect body program).Beside (found options body program)
      [options.tentative] (rewritten (options.underName name) dialect body program)) :
    (referenceDraft options dialect body program).Beside (found options body program) []
      (referenceDraft (options.underName name) dialect body program) := by
  have hfixed : ∀ whole ∈ (rewritten (options.underName name) dialect body program).bindings.whole,
      whole.tentative = false := by
    intro whole hwhole
    obtain ⟨index, hindex⟩ := List.mem_iff_getElem?.mp hwhole
    obtain ⟨first, hfirst, hlearned⟩ := h.learns.whole_before hindex
    rw [hlearned.tentative]
    exact (Program.freshWhole_importSites (List.mem_of_getElem? hfirst)).tentative
  have hother : referenceDraft (options.underName name) dialect body program =
      rewritten (options.underName name) dialect body program := by
    have hunused := (@opened_underName options body program name hname).2
    simp only [referenceDraft]
    rw [if_neg (by rw [Bool.not_eq_true]; exact hunused)]
  have hsettled : (referenceDraft options dialect body program).bindings =
      (rewritten options dialect body program).bindings.settle := by
    simp only [referenceDraft, huses, if_true]
    rfl
  refine ⟨by rw [referenceDraft_edits, hother, h.edits], ?_, by rw [hother]; exact h.learns⟩
  rw [hsettled, h.bindings, hother, Bindings.settle_withAlias hfixed rfl rfl, Bindings.withAliases,
    List.append_nil]

/-- The runs end the same then. -/
private theorem beside_finalDraft
    (h : (referenceDraft options dialect body program).Beside (found options body program) []
      (referenceDraft (options.underName name) dialect body program)) :
    (finalDraft options dialect body program).Beside (found options body program) []
      (finalDraft (options.underName name) dialect body program) := by
  refine h.flagLeftovers.rewriteImports ?_ ?_ ?_ ?_ options.module
  · rw [Program.declarations_eq, Program.declarations_eq]
    rfl
  · rw [Program.sideEffect_eq, Program.sideEffect_eq]
    rfl
  · rw [Program.firstItem_eq, Program.firstItem_eq]
  · rw [Program.opaqueLoads_eq, Program.opaqueLoads_eq]
    rfl

/-- The new declarations declare the module as a whole by the names of its aliases. -/
theorem Bindings.imports_module_iff {bindings : Bindings} {name : String} :
    bindings.Imports name [] ↔ name ∈ bindings.whole.map WholeImport.name := by
  rw [← Declarations.mem_distinctAliases_names]
  constructor
  · intro h
    cases h with
    | whole mem => exact List.mem_map_of_mem mem
  · intro h
    obtain ⟨whole, hwhole, rfl⟩ := List.mem_map.mp h
    exact .whole hwhole

/-- Every alias in the end is one of those at the start, which has learned. -/
theorem exists_opened_whole (hplaced : program.Placed body) {whole : WholeImport}
    (h : whole ∈ (finalDraft options dialect body program).bindings.whole) :
    ∃ first ∈ (opened options body program).bindings.whole, first.Learns whole := by
  have hrewritten : (opened options body program).Continues (fun _ => True) .any
      (rewritten options dialect body program) :=
    continues_references hplaced (fun _ _ _ => trivial) fun _ _ _ _ _ => trivial
  obtain ⟨index, hindex⟩ := List.mem_iff_getElem?.mp h
  obtain ⟨settled, hsettled, hlast⟩ := learns_flagLeftovers.whole_before hindex
  have hmem : settled ∈ (rewritten options dialect body program).bindings.whole := by
    have hmem := List.mem_of_getElem? hsettled
    simp only [referenceDraft] at hmem
    split at hmem
    · exact (List.mem_filter.mp hmem).1
    · exact hmem
  obtain ⟨place, hplace⟩ := List.mem_iff_getElem?.mp hmem
  obtain ⟨first, hfirst, hlearned⟩ := hrewritten.bindings.whole_before hplace
  exact ⟨first, List.mem_of_getElem? hfirst, hlearned.trans hlast⟩

/-! ## Declared or dropped -/

/-- Whether the new declarations of a draft declare a name as the namespace of the module,
in the declarations that stand in a text. -/
structure Draft.DeclaresNamespace (final : Draft) (sites : ImportSites) (module name : String)
    (text : Text) : Prop where
  line : Declarations.wholeDeclaration module { name, style := .namespace } ∈
    final.bindings.declarations module sites.sideEffect
  block : final.importBlock sites module <:+: text

/-- Whether a file is migrated as if there were no alias for the global name: the aliases
are those that it declares, no reference through the global name is changed, and the new
declarations and the text are those that it would get under a global name that it does not
use. -/
structure Program.DropsAlias (options : MigrationOptions) (dialect : Dialect) (body : Text)
    (program : Program) : Prop where
  whole : (referenceDraft options dialect body program).bindings.whole.map WholeImport.declared =
    (found options body program).whole.map WholeImport.declared
  references : ∀ chain, program.Through options.globalName chain →
    (finalDraft options dialect body program).edits.Reads body chain.span (body.slice chain.span)
  declarations : ∀ name, anyMentions name program.items = false →
    (finalDraft options dialect body program).bindings.declarations options.module
        (program.importSites body options.module options.globalName).sideEffect =
      (finalDraft (options.underName name) dialect body program).bindings.declarations
        options.module (program.importSites body options.module name).sideEffect
  text : ∀ name, anyMentions name program.items = false →
    (migrateProgram options dialect body program).text =
      (migrateProgram (options.underName name) dialect body program).text

/-- An alias of the global name is a namespace, because nothing else has the name. -/
private theorem style_of_name (hplaced : program.Placed body)
    (huses : (program.importSites body options.module options.globalName).usesImplicitAlias = true)
    {whole : WholeImport} (h : whole ∈ (finalDraft options dialect body program).bindings.whole)
    (hname : whole.name = options.globalName) : whole.style = .namespace := by
  obtain ⟨origin, horigin, hlearned⟩ := exists_opened_whole hplaced h
  rw [opened_of_uses huses] at horigin
  rcases List.mem_append.mp horigin with hfound | halias
  · have hmem : origin.name ∈ (found options body program).localNames :=
      List.mem_append_right _ (List.mem_map_of_mem hfound)
    rw [← hlearned.name, hname] at hmem
    exact absurd hmem (globalName_notMem huses)
  · rw [hlearned.style, List.mem_singleton.mp halias]
    rfl

/-- An alias that was used is declared as a namespace. -/
theorem declares_of_recorded (hplaced : program.Placed body)
    (hbuiltIn : options.mappings = .builtIn)
    (huses : (program.importSites body options.module options.globalName).usesImplicitAlias = true)
    (h : (rewritten options dialect body program).bindings.Recorded
      (.whole (found options body program).whole.length)) :
    (finalDraft options dialect body program).bindings.Imports options.globalName [] ∧
      (finalDraft options dialect body program).DeclaresNamespace
        (program.importSites body options.module options.globalName) options.module
        options.globalName (migrateProgram options dialect body program).text := by
  have hopened := opened_of_uses huses
  have hrewritten : (opened options body program).Continues (fun _ => True) .any
      (rewritten options dialect body program) :=
    continues_references hplaced (fun _ _ _ => trivial) fun _ _ _ _ _ => trivial
  -- The alias is bound in the end.
  obtain ⟨used, hused, hmatched⟩ := h
  obtain ⟨first, hfirst, hlearned⟩ := hrewritten.bindings.whole_before hused
  have hsame : first = options.tentative := by
    rw [hopened] at hfirst
    simpa [Bindings.withAliases] using hfirst.symm
  obtain ⟨index, hindex⟩ := List.mem_iff_getElem?.mp
    (referenceDraft_whole (List.mem_of_getElem? hused) hmatched)
  obtain ⟨last, hlast, hkept⟩ := learns_flagLeftovers.whole_after hindex
  have hlastName : last.name = options.globalName := by
    rw [hkept.name, hlearned.name, hsame]
    rfl
  have himports : (finalDraft options dialect body program).bindings.Imports
      options.globalName [] :=
    hlastName ▸ Bindings.imports_of_whole (List.mem_of_getElem? hlast)
  obtain ⟨declared, hdeclared, hname⟩ := List.mem_map.mp
    (Declarations.mem_distinctAliases_names.mpr (Bindings.imports_module_iff.mp himports))
  have hstyle := style_of_name hplaced huses (Declarations.mem_of_distinctAliases hdeclared).1 hname
  have hitems : program.items ≠ [] := by
    intro hnil
    unfold ImportSites.usesImplicitAlias at huses
    rw [Program.aliasMentioned_eq, hnil] at huses
    cases huses
  refine ⟨himports, ?_, importBlock_infix hplaced hbuiltIn hitems himports⟩
  obtain ⟨head, hlines, -⟩ :=
    (finalDraft options dialect body program).bindings.declarations_eq_append options.module
      (program.importSites body options.module options.globalName).sideEffect
  have hline : Declarations.wholeDeclaration options.module declared =
      Declarations.wholeDeclaration options.module
        { name := options.globalName, style := .namespace } := by
    unfold Declarations.wholeDeclaration
    rw [hname, hstyle]
  rw [hlines, ← hline]
  exact List.mem_append_right _ (List.mem_map_of_mem hdeclared)

/-- Where the runs end the same, the alias has been dropped. -/
theorem drops_of_beside (hplaced : program.Placed body)
    (huses : (program.importSites body options.module options.globalName).usesImplicitAlias = true)
    (hneeds : ∀ name, anyMentions name program.items = false →
      (rewritten options dialect body program).Beside (found options body program)
        [options.tentative] (rewritten (options.underName name) dialect body program))
    {unused : String} (hunused : anyMentions unused program.items = false) :
    ¬(finalDraft options dialect body program).bindings.Imports options.globalName [] ∧
      program.DropsAlias options dialect body := by
  have hreferences := fun name hname => beside_referenceDraft huses hname (hneeds name hname)
  have hfinal := fun name hname => beside_finalDraft (hreferences name hname)
  have hbindings : ∀ name, anyMentions name program.items = false →
      (finalDraft options dialect body program).bindings =
        (finalDraft (options.underName name) dialect body program).bindings := by
    intro name hname
    rw [(hfinal name hname).bindings, Bindings.withAliases, List.append_nil]
  refine ⟨?_, ?_, ?_, ?_, ?_⟩
  · rw [Bindings.imports_module_iff, hbindings unused hunused,
      (hfinal unused hunused).learns.map_name]
    exact fun hmem => globalName_notMem huses (List.mem_append_right _ hmem)
  · have hsettled := hreferences unused hunused
    rw [hsettled.bindings, Bindings.withAliases, List.append_nil]
    exact hsettled.learns.map_whole fun whole learned h => by
      simp only [WholeImport.declared, h.name, h.style]
  · intro chain hchain
    obtain ⟨whole, hwhole, hbegins⟩ := hchain.1
    have hconsistent := (@finalDraft_legacyEdits options dialect body program hplaced).2
    refine hconsistent.reads_untouched body
      (hbegins.placed (hplaced.landmarks.chains whole hwhole)).start_lt_stop ?_
    rw [(hfinal unused hunused).edits]
    exact not_overlaps_underName hplaced huses hunused hchain []
  · intro name hname
    rw [hbindings name hname, Program.sideEffect_eq, Program.sideEffect_eq]
  · intro name hname
    show (finalDraft options dialect body program).edits.apply body = _
    rw [(hfinal name hname).edits]
    rfl

end Stages

/-- A name with a dot is no identifier. -/
theorem Program.Placed.not_mentioned {program : Program} {body : Text} (h : program.Placed body)
    {name : String} (hname : ¬DotFree name) : anyMentions name program.items = false := by
  rw [← Bool.not_eq_true]
  intro hmentioned
  obtain ⟨chain, hchain, hroot⟩ := root_of_anyMentions name program.items hmentioned
  exact hname (hroot ▸ (h.landmarks.chains chain hchain).dotFree List.mem_cons_self)

/-- Where the global name stands for the module, the migrated file declares it as a
namespace of the module exactly when it needs that: when a call, a name of a type or a part
of a reference to an enumeration is migrated through it.  Otherwise the file is migrated as
if the global name had no meaning. -/
theorem transform_declares_globalName_iff {options : MigrationOptions} {location : String}
    {mediaType : MediaType} {text : Text} {file : MigratedFile}
    (h : transform options location mediaType text = .ok file)
    (hbuiltIn : options.mappings = .builtIn) :
    let body := Program.withoutMark text
    ∃ dialect program, mediaType.dialect? = some dialect ∧
      Program.read? dialect body = some program ∧
      let sites := program.importSites body options.module options.globalName
      let final := finalDraft options dialect body program
      (sites.usesImplicitAlias = true →
        (final.bindings.Imports options.globalName [] ↔
          program.NeedsAlias options dialect body) ∧
        (program.NeedsAlias options dialect body →
          final.DeclaresNamespace sites options.module options.globalName file.text) ∧
        (¬program.NeedsAlias options dialect body →
          program.DropsAlias options dialect body)) := by
  intro body
  obtain ⟨dialect, program, hdialect, hread, rfl⟩ := transform_eq_ok h
  have hplaced := Program.placed_of_read hread
  refine ⟨dialect, program, hdialect, hread, fun huses => ?_⟩
  have hdot : ¬DotFree "." := fun h => h (by decide)
  have hcases := fun name hname =>
    @rewritten_cases options dialect body program name hplaced hbuiltIn huses hname
  have hunused := hplaced.not_mentioned hdot
  rcases hcases "." hunused with ⟨hneeds, hrecorded⟩ | ⟨hneedless, -⟩
  · obtain ⟨himports, hdeclares⟩ := declares_of_recorded hplaced hbuiltIn huses hrecorded
    exact ⟨⟨fun _ => hneeds, fun _ => himports⟩, fun _ => hdeclares, fun h => absurd hneeds h⟩
  · obtain ⟨himports, hdrops⟩ := drops_of_beside hplaced huses
      (fun name hname => ((hcases name hname).resolve_left fun h => hneedless h.1).2) hunused
    exact ⟨⟨fun h => absurd h himports, fun h => absurd h hneedless⟩,
      fun h => absurd h hneedless, fun _ => hdrops⟩

/-- A file that calls a function through the global name. -/
private def globalCallFile : Text := "microsoftTeams.initialize();\n".toList

private theorem globalCallFile_facts :
    ((transform {} "file:///mod.ts" .typeScript globalCallFile).toOption.map (·.text)) =
        some ("import * as microsoftTeams from \"@microsoft/teams-js\";\n" ++
          "microsoftTeams.app.initialize();\n").toList ∧
      ∀ program ∈ Program.read? ⟨true, false, true⟩ globalCallFile,
        (program.importSites globalCallFile defaultModule defaultAlias).usesImplicitAlias = true ∧
          (finalDraft {} ⟨true, false, true⟩ globalCallFile program).bindings.whole.map
            WholeImport.name = [defaultAlias] := by
  decide +kernel

/-- The file needs the alias and declares it. -/
theorem globalCallFile_declares :
    ∃ program file, Program.read? ⟨true, false, true⟩ globalCallFile = some program ∧
      transform {} "file:///mod.ts" .typeScript globalCallFile = .ok file ∧
      program.NeedsAlias {} ⟨true, false, true⟩ globalCallFile ∧
      (finalDraft {} ⟨true, false, true⟩ globalCallFile program).DeclaresNamespace
        (program.importSites globalCallFile defaultModule defaultAlias) defaultModule defaultAlias
        file.text ∧
      file.text = ("import * as microsoftTeams from \"@microsoft/teams-js\";\n" ++
        "microsoftTeams.app.initialize();\n").toList := by
  obtain ⟨htext, hfacts⟩ := globalCallFile_facts
  cases hfile : transform {} "file:///mod.ts" .typeScript globalCallFile with
  | error e =>
    rw [hfile] at htext
    cases htext
  | ok file =>
    rw [hfile] at htext
    obtain ⟨dialect, program, hdialect, hread, halias⟩ :=
      transform_declares_globalName_iff hfile rfl
    obtain rfl := Option.some.inj hdialect
    obtain ⟨huses, hnames⟩ := hfacts program hread
    obtain ⟨hneeds, hdeclares, -⟩ := halias huses
    have himports : (finalDraft {} ⟨true, false, true⟩ globalCallFile program).bindings.Imports
        defaultAlias [] := by
      rw [Bindings.imports_module_iff, hnames]
      exact List.mem_singleton_self _
    exact ⟨program, file, hread, rfl, hneeds.mp himports, hdeclares (hneeds.mp himports),
      Option.some.inj htext⟩

end SdkMigration
