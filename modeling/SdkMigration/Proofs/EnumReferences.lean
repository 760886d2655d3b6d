import SdkMigration.Proofs.SpelledChains
import SdkMigration.Proofs.Stages.EnumNests
import SdkMigration.Proofs.TouchedText

/-!
# References to enumerations

A reference to an enumeration is replaced and its binding learns the target, both
at once.  The stages before do not touch the reference, because no function and no
interface lies inside an enumeration, and the text at its place is never that of
the replacement already.

There are two exceptions.  Behind an alias a longer reference that ends like an
enumeration hides the one that it starts with.  And a reference that reads the same
afterwards is left alone without its binding learning anything, so that the new
declarations import the target only when a single import has learned it from
another reference.
-/

namespace SdkMigration

/-! ## What is found for names -/

namespace Bindings

variable {bindings : Bindings}

/-- Names behind which others come denote another member than all of them together. -/
theorem Denotes.eq_of_prefix (hdistinct : bindings.localNames.Nodup) {short long path : List String}
    (hshort : bindings.Denotes short path) (hlong : bindings.Denotes long path)
    (h : short <+: long) : short = long := by
  cases hshort with
  | @named a ha rest =>
    generalize hpath : a.exported :: rest = path at hlong
    cases hlong with
    | @named b hb others =>
      rw [(List.cons_prefix_cons.mp h).1, (List.cons.inj hpath).2]
    | @whole b hb others =>
      exact absurd (List.cons_prefix_cons.mp h).1 (named_ne_whole hdistinct ha hb)
  | @whole a ha =>
    cases hlong with
    | @named b hb others =>
      exact absurd (List.cons_prefix_cons.mp h).1.symm (named_ne_whole hdistinct hb ha)
    | @whole b hb => rw [(List.cons_prefix_cons.mp h).1]

/-- Names that denote a member start with a bound name. -/
theorem Denotes.tracks {name : String} {rest path : List String}
    (h : bindings.Denotes (name :: rest) path) : bindings.tracks name = true := by
  rw [tracks_iff]
  cases h with
  | named mem => exact List.mem_append_left _ (List.mem_map_of_mem mem)
  | whole mem => exact List.mem_append_right _ (List.mem_map_of_mem mem)

end Bindings

theorem NamePath.names_inj {a b : NamePath} : a.names = b.names ↔ a = b := by
  constructor
  · intro h
    obtain ⟨hfirst, hrest⟩ := List.cons.inj h
    cases a
    cases b
    exact congrArg₂ NamePath.mk hfirst hrest
  · rintro rfl
    rfl

namespace BuiltIn

variable {rule : Rule}

/-- The first rule for an enumeration is the only one. -/
theorem find?_enums (h : rule ∈ enums) :
    (enums.find? fun other => other.source.names == rule.source.names) = some rule := by
  cases hfound : enums.find? fun other => other.source.names == rule.source.names with
  | none =>
    have hno := List.find?_eq_none.mp hfound rule h
    simp at hno
  | some other =>
    have hsame : other.source.names = rule.source.names := by simpa using List.find?_some hfound
    have hmem := List.mem_of_find?_eq_some hfound
    rw [(moved_of_mem hmem).alone rule h (hsame ▸ List.prefix_rfl)]

end BuiltIn

section Replacements

variable {bindings : Bindings} {rule : Rule} {names : List String} {replacement : Replacement}

/-- A replacement for an enumeration changes nothing when its names are those of the target. -/
theorem Replacement.For.isIdentity_iff (h : replacement.For bindings rule names)
    (hrule : rule ∈ BuiltIn.enums) :
    replacement.isIdentity = true ↔ names = rule.target.names := by
  have hmoved := BuiltIn.moved_of_mem hrule
  have hnames := h.source_names
  unfold Replacement.isIdentity
  rw [beq_iff_eq, ← NamePath.names_inj, hnames]
  cases h with
  | named entry source same => exact Iff.rfl
  | @whole index whole entry same =>
    -- Behind an alias the names are longer than those of the target.
    have hlength : rule.source.names.length = rule.target.names.length := by
      simp [NamePath.names, hmoved.rest_eq]
    constructor
    · intro hsame
      rw [same] at hsame
      exact absurd (List.cons.inj (List.cons.inj hsame).2).1 hmoved.first_ne
    · intro hsame
      have hlong := congrArg List.length (same.symm.trans hsame)
      rw [List.length_cons] at hlong
      omega

/-- The place of a chain does not read like the replacement that a rule for an enumeration has
for it, unless that changes nothing. -/
theorem slice_ne_render {text : Text} {lo hi : Nat} {chain : Chain}
    (hplaced : chain.Placed text lo hi) (hrule : rule ∈ BuiltIn.enums)
    (h : replacement.For bindings rule chain.names) (hchanges : chain.names ≠ rule.target.names)
    (other : Chain) : text.slice chain.span ≠ other.render replacement.target := by
  have hmoved := BuiltIn.moved_of_mem hrule
  have hletter : ∀ {name : String} {c : Char}, name ∈ rule.target.names → c ∈ name.toList →
      NameChars.canContinue c = true := fun hname hc => hmoved.letters _ hname _ hc
  intro hslice
  unfold Chain.render at hslice
  cases h with
  | @named index named entry source same =>
    -- The place starts with the namespace of the target, so the reference does.
    refine hchanges ?_
    have hhead : chain.head.name = rule.target.first := by
      refine hplaced.head_name_eq hslice hmoved.first_ne_empty (fun c => hletter List.mem_cons_self)
        (Chain.renderRest_ne_nil _ _ _ hmoved.rest_ne_nil) (fun c hc => ?_) ?_
      · rcases Chain.head?_renderRest _ _ _ hc with rfl | rfl <;> decide
      · rw [hslice, List.mem_append]
        rintro (hc | hc)
        · exact absurd (hletter List.mem_cons_self hc) (by decide)
        · rcases Chain.mem_renderRest _ _ _ hc with hc | hc | ⟨name, hname, hc⟩
          · cases hc
          · cases hc
          · exact absurd (hletter (List.mem_cons_of_mem _ hname) hc) (by decide)
    have hnames : chain.names = chain.head.name :: chain.rest.map (·.name) := rfl
    have hrest : chain.rest.map (·.name) = rule.source.rest := (List.cons.inj same).2
    rw [hnames, hhead, hrest, hmoved.rest_eq]
    rfl
  | @whole index whole entry same =>
    -- Behind the alias there is no room for the names of the source.
    let tokens := (rule.target.under whole.name).names
    obtain ⟨hroot, hrest⟩ := List.cons.inj same
    have hhead : chain.head.name = whole.name := hroot
    have hslice' : text.slice chain.span =
        chain.head.name.toList ++ other.renderRest tokens 1 rule.target.names := by
      rw [hhead]
      exact hslice
    have hfits := hplaced.rest_length_le hslice' fun c hc => by
      rcases Chain.mem_renderRest _ _ _ hc with rfl | rfl | ⟨name, hname, hc⟩
      · decide
      · decide
      · have hcontinues := hletter hname hc
        refine ⟨?_, ?_, ?_⟩ <;> (rintro rfl; revert hcontinues; decide)
    have hroom := @Chain.length_renderRest_le other tokens 1 rule.target.names
    have hshorter := hmoved.shorter
    rw [← hrest, List.map_map] at hshorter
    have hsame : (fun name : String => name.toList.length) ∘ (fun segment : Segment => segment.name)
        = fun segment => segment.name.toList.length := rfl
    rw [hsame] at hshorter
    exact absurd (Nat.le_trans hfits hroom) (Nat.not_le.mpr hshorter)

end Replacements

/-! ## The stages -/

section Stages

variable {options : MigrationOptions} {dialect : Dialect} {body : Text} {program : Program}
  {site whole : Chain} {rule : Rule}

/-- Whether a chain that the stage of enumerations looks at denotes the source of a rule for an
enumeration, and no look hides it. -/
structure EnumReference (options : MigrationOptions) (body : Text) (program : Program)
    (site : Chain) (rule : Rule) : Prop where
  look : site ∈ (allEnumLooks program.items).map EnumLook.chain
  mem : rule ∈ BuiltIn.enums
  denotes : (opened options body program).bindings.Denotes site.names rule.source.names
  visible : ∀ look ∈ allEnumLooks program.items,
    ¬ look.Hides (opened options body program).bindings BuiltIn.enums site

/-- What is looked at stands in the text. -/
theorem Program.Placed.look (hplaced : program.Placed body) {chain : Chain}
    (hchain : chain ∈ (allEnumLooks program.items).map EnumLook.chain) :
    chain.Placed body 0 body.length := by
  obtain ⟨look, hlook, rfl⟩ := List.mem_map.mp hchain
  exact hplaced.reference (mem_allReferences_of_look program.items look hlook)

/-- The stage of enumerations is the last one of those that rewrite references. -/
theorem rewriteEnums_typed (hbuiltIn : options.mappings = .builtIn)
    (htypes : dialect.types = true) :
    (typed options body program).rewriteEnums body program MappingTable.builtIn.enums =
      rewritten options dialect body program := by
  simp only [rewritten, Draft.rewriteReferences, hbuiltIn, htypes, if_true]
  rfl

/-- A single export that is imported in the end has what it had when the references had been
rewritten. -/
theorem exists_rewritten_of_final {named : NamedImport}
    (h : named ∈ (finalDraft options dialect body program).bindings.named) :
    ∃ before ∈ (rewritten options dialect body program).bindings.named,
      named.exported = before.exported ∧ named.localName = before.localName ∧
        named.target = before.target := by
  rw [finalDraft_bindings] at h
  obtain ⟨index, hindex⟩ := List.mem_iff_getElem?.mp h
  rw [Draft.named_flagLeftovers, referenceDraft_named] at hindex
  obtain ⟨before, hbefore, rfl⟩ := Option.map_eq_some_iff.mp hindex
  exact ⟨before, List.mem_of_getElem? hbefore, rfl, rfl, rfl⟩

namespace EnumReference

/-- A reference to an enumeration begins a landmark. -/
theorem begun (h : EnumReference options body program site rule) :
    ∃ whole ∈ (allLandmarks program.items).chains, site.Begins whole := by
  obtain ⟨look, hlook, rfl⟩ := List.mem_map.mp h.look
  exact allReferences_begun program.items _ (mem_allReferences_of_look program.items look hlook)

/-- The reference around a reference to an enumeration is none that a rule for a function or an
interface is for. -/
theorem ne_of_found (h : EnumReference options body program site rule)
    (hplaced : program.Placed body)
    (hdistinct : (opened options body program).bindings.localNames.Nodup)
    (hbegins : site.Begins whole) {bindings : Bindings}
    (hlearns : (opened options body program).bindings.Learns MappingTable.builtIn.lessons bindings)
    {rules : List Rule} (hrules : rules ⊆ BuiltIn.functions ++ BuiltIn.interfaces)
    {other : Chain} (hother : other ∈ (allLandmarks program.items).chains)
    {replacement : Replacement}
    (hfound : (Lookups.build bindings rules).1.find? other.names = some replacement) :
    other ≠ whole := by
  rintro rfl
  have hdots : NoDots bindings rules :=
    noDots hplaced hlearns fun _ hrule => List.mem_append_left _ (hrules hrule)
  obtain ⟨found, hmem, hdenotes⟩ := denotes_of_find? hdots (by simp [Chain.names, Chain.segments])
    (fun name => (hplaced.landmarks.chains other hother).dotFree) hfound
  exact BuiltIn.enum_not_prefix (hrules hmem) h.mem ((hlearns.denotes h.denotes).path_starts
    (by rw [hlearns.localNames]; exact hdistinct) hdenotes hbegins.names_prefix)

/-- The stages before do not touch the reference around a reference to an enumeration. -/
theorem continues_typed (h : EnumReference options body program site rule)
    (hplaced : program.Placed body)
    (hdistinct : (opened options body program).bindings.localNames.Nodup)
    (hbegins : site.Begins whole) :
    (opened options body program).Continues ((allLandmarks program.items).Within (· ≠ whole))
      MappingTable.builtIn.lessons (typed options body program) := by
  have hcalled := continues_called (· ≠ whole) hplaced fun chain hchain _ hfound _ =>
    h.ne_of_found hplaced hdistinct hbegins (.refl _) (List.subset_append_left _ _)
      (Draft.mem_chains_of_call hchain) hfound
  exact hcalled.trans (SdkMigration.continues_typed (· ≠ whole) fun chain hchain _ hfound _ =>
    h.ne_of_found hplaced hdistinct hbegins hcalled.bindings (List.subset_append_right _ _)
      (Draft.mem_chains_of_type hchain) hfound)

/-- The stage of enumerations reaches a reference to an enumeration. -/
theorem reached (h : EnumReference options body program site rule) (hplaced : program.Placed body)
    (hdistinct : (opened options body program).bindings.localNames.Nodup) {bindings : Bindings}
    (hlearns :
      (opened options body program).bindings.Learns MappingTable.builtIn.lessons bindings) :
    ∃ replacement, replacement.For bindings rule site.names ∧
      EnumReached bindings BuiltIn.enums program.items site replacement := by
  have hdots : NoDots bindings BuiltIn.enums := noDots hplaced hlearns fun _ => mem_rules_of_enum
  have hdenotes := hlearns.denotes h.denotes
  rw [← hlearns.localNames] at hdistinct
  obtain ⟨replacement, hfound, hfor⟩ := find?_of_denotes hdistinct hdots
    (fun name => (hplaced.look h.look).dotFree) hdenotes (BuiltIn.find?_enums h.mem)
  refine ⟨replacement, hfor, h.look, hdenotes.tracks, hfound, fun look hlook hbegins hne => ?_,
    fun look hlook hhides => ?_⟩
  · -- A longer reference would denote a longer source.
    cases hother : (Lookups.build bindings BuiltIn.enums).1.find? look.chain.names with
    | none => rfl
    | some other =>
      obtain ⟨longer, hmem, hlonger⟩ := denotes_of_find? hdots
        (by simp [Chain.names, Chain.segments])
        (fun name => (hplaced.look (List.mem_map_of_mem hlook)).dotFree) hother
      have hfront := hbegins.names_prefix
      obtain rfl := (BuiltIn.moved_of_mem h.mem).alone longer hmem
        (hdenotes.path_starts hdistinct hlonger hfront)
      exact absurd (hdenotes.eq_of_prefix hdistinct hlonger hfront).symm hne
  · refine h.visible look hlook { hhides with behind := ?_ }
    rw [← hlearns.isAlias_eq]
    exact hhides.behind

/-- A reference to an enumeration whose names are not those of the target is migrated. -/
theorem migrated (h : EnumReference options body program site rule) (hplaced : program.Placed body)
    (hbuiltIn : options.mappings = .builtIn) (htypes : dialect.types = true)
    (hdistinct : (opened options body program).bindings.localNames.Nodup)
    (hchanges : site.names ≠ rule.target.names) :
    (finalDraft options dialect body program).Migrates body site rule.target.names := by
  obtain ⟨whole, hwhole, hbegins⟩ := h.begun
  have hbefore := h.continues_typed hplaced hdistinct hbegins
  have hrewritten := @continues_rewritten options dialect body program hplaced hbuiltIn
  obtain ⟨replacement, hfor, hreached⟩ := h.reached hplaced hdistinct hbefore.bindings
  have hidentity : replacement.isIdentity = false := by
    rw [← Bool.not_eq_true, hfor.isIdentity_iff h.mem]
    exact hchanges
  obtain ⟨hrecorded, same, hheld⟩ := Draft.rewriteEnums_replaces hplaced.landmarks
    MappingTable.builtIn.allows_enums hreached hidentity
    (fun same _ => slice_ne_render (hplaced.look h.look) h.mem hfor hchanges same) hwhole hbegins
    (hbefore.forall_held no_held fun _ h => h)
  rw [rewriteEnums_typed hbuiltIn htypes] at hrecorded hheld
  exact ⟨_, _, (consistent_finalDraft hplaced hbuiltIn).reads_held body
    (finalDraft_kept hplaced hheld) (hplaced.look h.look).start_lt_stop,
    Or.inl (spells_render same replacement.target),
    reaches_of_recorded hplaced hrewritten.bindings hbefore.bindings (mem_rules_of_enum h.mem) hfor
      hrecorded⟩

/-- A reference to an enumeration with the names of the target stands behind a single import
under the name of the target. -/
theorem exists_named (h : EnumReference options body program site rule)
    (hsame : site.names = rule.target.names) :
    ∃ named ∈ (opened options body program).bindings.named,
      named.localName = rule.target.first ∧ named.exported = rule.source.first := by
  have hmoved := BuiltIn.moved_of_mem h.mem
  have hdenotes := h.denotes
  rw [hsame] at hdenotes
  generalize hnames : rule.target.names = names at hdenotes
  generalize hpath : rule.source.names = path at hdenotes
  cases hdenotes with
  | @named named mem rest =>
    exact ⟨named, mem, (List.cons.inj hnames).1.symm, (List.cons.inj hpath).1.symm⟩
  | @whole bound mem =>
    -- The path behind an alias is shorter than the names.
    have hlength := congrArg List.length hpath
    rw [← (List.cons.inj hnames).2, ← hmoved.rest_eq] at hlength
    simp [NamePath.names] at hlength

/-- The target of a reference that has its names already is imported exactly when a single import
has learned it. -/
theorem imports_target_iff (h : EnumReference options body program site rule)
    (hplaced : program.Placed body) (hbuiltIn : options.mappings = .builtIn)
    (hdistinct : (opened options body program).bindings.localNames.Nodup)
    (hsame : site.names = rule.target.names) :
    (finalDraft options dialect body program).bindings.Imports rule.target.first
        [rule.target.first] ↔
      ∃ named ∈ (finalDraft options dialect body program).bindings.named,
        named.target = some rule.target.first := by
  have hmoved := BuiltIn.moved_of_mem h.mem
  have hlearns := (@continues_rewritten options dialect body program hplaced hbuiltIn).bindings
  constructor
  · intro himports
    generalize hpath : [rule.target.first] = path at himports
    generalize hname : rule.target.first = name at himports
    cases himports with
    | whole mem => cases hpath
    | @named specifier name exported mem binds =>
      obtain rfl := (List.cons.inj hpath).1
      obtain ⟨named, hnamed, hcalls⟩ :=
        Declarations.mem_specifiers.mp (List.mem_map_of_mem mem)
      obtain ⟨before, hbefore, hexported, hlocal, htarget⟩ := exists_rewritten_of_final hnamed
      rcases Declarations.mem_specifiersOf.mp hcalls with hlearned | ⟨hself, -⟩
      · refine ⟨named, hnamed, ?_⟩
        rw [← referenceDraft_named] at hbefore
        have hplain := (learned_referenceDraft hlearns hbefore).2 _ (htarget.symm.trans hlearned)
        rw [hlearned, ((Declarations.specifierBinds_plain hplain).mp binds).1]
      · -- The import that is bound to the name of the target is one of the source.
        rw [hself, Declarations.specifierBinds_sameBinding] at binds
        obtain ⟨first, hfirst, hfirstLocal, hfirstExported⟩ := h.exists_named hsame
        obtain ⟨index, hindex⟩ := List.mem_iff_getElem?.mp hbefore
        obtain ⟨other, hother, hlearnsOther⟩ := hlearns.named_before hindex
        obtain rfl := Bindings.named_unique hdistinct hfirst (List.mem_of_getElem? hother)
          (by rw [hfirstLocal, ← hlearnsOther.localName, ← hlocal, binds.1, hname])
        refine absurd ?_ hmoved.first_ne
        rw [← hfirstExported, ← hlearnsOther.exported, ← hexported, binds.2.1]
  · rintro ⟨named, hnamed, htarget⟩
    exact Bindings.imports_of_target hnamed htarget
      (BuiltIn.isPlainName_target (mem_rules_of_enum h.mem))

/-- A reference to an enumeration with the names of the target is left as it is, and it denotes
the target exactly when a single import has learned that from another reference. -/
theorem left (h : EnumReference options body program site rule) (hplaced : program.Placed body)
    (hbuiltIn : options.mappings = .builtIn) (htypes : dialect.types = true)
    (hdistinct : (opened options body program).bindings.localNames.Nodup)
    (hsame : site.names = rule.target.names) :
    let final := finalDraft options dialect body program
    final.edits.Reads body site.span (body.slice site.span) ∧
      (final.bindings.Reaches site.names rule.target.names ↔
        ∃ named ∈ final.bindings.named, named.target = some rule.target.first) := by
  intro final
  obtain ⟨whole, hwhole, hbegins⟩ := h.begun
  have hbefore := h.continues_typed hplaced hdistinct hbegins
  obtain ⟨replacement, hfor, hreached⟩ := h.reached hplaced hdistinct hbefore.bindings
  have hstage := Draft.continues_rewriteEnums_identity hplaced.landmarks
    MappingTable.builtIn.allows_enums hreached ((hfor.isIdentity_iff h.mem).mpr hsame) hwhole
    hbegins
  rw [rewriteEnums_typed hbuiltIn htypes] at hstage
  have huntouched := finalDraft_untouched hplaced hwhole
    ((hbefore.trans hstage).forall_held no_held fun _ h => h) []
  refine ⟨(consistent_finalDraft hplaced hbuiltIn).reads_untouched body
    (hplaced.look h.look).start_lt_stop fun edit hedit => ?_, ?_⟩
  · exact Edit.not_overlaps_of_inside (huntouched edit hedit) (Nat.le_of_eq hbegins.start_eq.symm)
      (hbegins.stop_le (hplaced.landmarks.chains whole hwhole)) []
  · rw [← h.imports_target_iff hplaced hbuiltIn hdistinct hsame, hsame]
    constructor
    · rintro ⟨name, rest, beginning, hnames, hpath, himports⟩
      obtain ⟨rfl, rfl⟩ := List.cons.inj hnames
      have hfirst : [rule.target.first] = beginning := List.append_cancel_right hpath
      rwa [hfirst]
    · intro himports
      exact ⟨_, _, [rule.target.first], rfl, rfl, himports⟩

end EnumReference

end Stages

/-! ## Files -/

/-- In an accepted file of a dialect with types every reference to an enumeration that no look
hides is migrated to the target of its rule, as long as its names change.  One whose names are
those of the target already reads as before, and it denotes the target when a single import
has learned that.  The declarations that import it stand in the migrated file. -/
theorem transform_migrates_enums {options : MigrationOptions} {location : String}
    {mediaType : MediaType} {dialect : Dialect} {text : Text} {program : Program}
    (hdialect : mediaType.dialect? = some dialect) (htypes : dialect.types = true)
    (hread : Program.read? dialect (Program.withoutMark text) = some program)
    (hbuiltIn : options.mappings = .builtIn)
    (hdistinct :
      (opened options (Program.withoutMark text) program).bindings.localNames.Nodup) :
    let body := Program.withoutMark text
    let final := finalDraft options dialect body program
    let sites := program.importSites body options.module options.globalName
    ∃ file, transform options location mediaType text = .ok file ∧
      file.text = final.edits.apply body ∧
      ∀ site rule, EnumReference options body program site rule →
        (site.names ≠ rule.target.names →
          final.Migrates body site rule.target.names ∧
            final.importBlock sites options.module <:+: file.text) ∧
        (site.names = rule.target.names →
          final.edits.Reads body site.span (body.slice site.span) ∧
            (final.bindings.Reaches site.names rule.target.names ∧
                final.importBlock sites options.module <:+: file.text ↔
              ∃ named ∈ final.bindings.named, named.target = some rule.target.first)) := by
  intro body final sites
  have hplaced := Program.placed_of_read hread
  refine ⟨migrateProgram options dialect body program, ?_, rfl, fun site rule h => ?_⟩
  · unfold transform
    simp only [hdialect, body, hread]
  · have hitems : program.items ≠ [] := by
      intro hnone
      have hlook := h.look
      rw [hnone] at hlook
      cases hlook
    constructor
    · intro hchanges
      have hmigrated := h.migrated hplaced hbuiltIn htypes hdistinct hchanges
      obtain ⟨name, beginning, himports⟩ := hmigrated.imports
      exact ⟨hmigrated, importBlock_infix hplaced hbuiltIn hitems himports⟩
    · intro hsame
      obtain ⟨hreads, hreaches⟩ := h.left hplaced hbuiltIn htypes hdistinct hsame
      refine ⟨hreads, fun hreached => hreaches.mp hreached.1, fun hlearned => ?_⟩
      have hreached := hreaches.mpr hlearned
      obtain ⟨name, _, beginning, _, _, himports⟩ := hreached
      exact ⟨hreaches.mpr hlearned, importBlock_infix hplaced hbuiltIn hitems himports⟩

/-- A file with a reference to an enumeration under another name. -/
private def reasonFile : Text :=
  ("import \x7b appInitialization as s \x7d from \"@microsoft/teams-js\";\n" ++
    "const r = s.FailedReason.Timeout;\n").toList

private theorem reasonFile_facts :
    ∀ program ∈ Program.read? ⟨true, false, true⟩ reasonFile,
      (opened {} reasonFile program).bindings.localNames.Nodup ∧
      ({ exported := "appInitialization", renamed := some "s" } : NamedImport) ∈
        (opened {} reasonFile program).bindings.named ∧
      (opened {} reasonFile program).bindings.isAlias "s" = false ∧
      ∃ site ∈ (allEnumLooks program.items).map EnumLook.chain,
        site.names = ["s", "FailedReason"] := by
  decide +kernel

/-- The reference of the file is migrated. -/
theorem reasonFile_migrates :
    ∃ program site file, Program.read? ⟨true, false, true⟩ reasonFile = some program ∧
      transform {} "file:///mod.ts" .typeScript reasonFile = .ok file ∧
      site ∈ (allEnumLooks program.items).map EnumLook.chain ∧ site.names = ["s", "FailedReason"] ∧
      (finalDraft {} ⟨true, false, true⟩ reasonFile program).Migrates reasonFile site
        ["app", "FailedReason"] := by
  have hreads : (Program.read? ⟨true, false, true⟩ reasonFile).isSome = true := by decide +kernel
  obtain ⟨program, hread⟩ := Option.isSome_iff_exists.mp hreads
  obtain ⟨hdistinct, hnamed, halias, site, hsite, hnames⟩ := reasonFile_facts program hread
  let rule : Rule :=
    ⟨⟨"appInitialization", ["FailedReason"]⟩, ⟨"app", ["FailedReason"]⟩, none⟩
  have hreference : EnumReference {} reasonFile program site rule := by
    refine ⟨hsite, List.mem_cons_self, ?_, fun look _ hhides => ?_⟩
    · rw [hnames]
      exact .named hnamed ["FailedReason"]
    · have hroot : site.root = "s" := (List.cons.inj hnames).1
      have hbehind := hhides.behind
      rw [hroot, halias] at hbehind
      cases hbehind
  obtain ⟨file, hfile, _, hmigrates⟩ := @transform_migrates_enums {} "file:///mod.ts" .typeScript
    ⟨true, false, true⟩ reasonFile program rfl rfl hread rfl hdistinct
  have hchanges : site.names ≠ rule.target.names := by
    rw [hnames]
    decide
  exact ⟨program, site, file, hread, hfile, hsite, hnames,
    ((hmigrates site rule hreference).1 hchanges).1⟩

/-- A file in which a reference to an enumeration has the names of the target already. -/
private def renamedFile : Text :=
  ("import \x7b appInitialization as app \x7d from \"@microsoft/teams-js\";\n" ++
    "const r = app.FailedReason.Timeout;\n").toList

private theorem renamedFile_facts :
    ∀ program ∈ Program.read? ⟨true, false, true⟩ renamedFile,
      (opened {} renamedFile program).bindings.localNames.Nodup ∧
      ({ exported := "appInitialization", renamed := some "app" } : NamedImport) ∈
        (opened {} renamedFile program).bindings.named ∧
      (finalDraft {} ⟨true, false, true⟩ renamedFile program).bindings =
        ⟨[{ exported := "appInitialization", renamed := some "app" }], []⟩ ∧
      ∃ site ∈ (allEnumLooks program.items).map EnumLook.chain,
        site.names = ["app", "FailedReason"] := by
  decide +kernel

/-- The reference of the file is left without an import of the target: nothing that the new
declarations bind makes names denote it. -/
theorem renamedFile_not_migrated :
    ∃ program, Program.read? ⟨true, false, true⟩ renamedFile = some program ∧
      (opened {} renamedFile program).bindings.localNames.Nodup ∧
      ∃ site ∈ (allEnumLooks program.items).map EnumLook.chain, ∃ rule ∈ BuiltIn.enums,
        (opened {} renamedFile program).bindings.Denotes site.names rule.source.names ∧
          ¬ (finalDraft {} ⟨true, false, true⟩ renamedFile program).Migrates renamedFile site
            rule.target.names := by
  have hreads : (Program.read? ⟨true, false, true⟩ renamedFile).isSome = true := by decide +kernel
  obtain ⟨program, hread⟩ := Option.isSome_iff_exists.mp hreads
  obtain ⟨hdistinct, hnamed, hfinal, site, hsite, hnames⟩ := renamedFile_facts program hread
  refine ⟨program, hread, hdistinct, site, hsite, _, List.mem_cons_self, ?_, ?_⟩
  · rw [hnames]
    exact .named hnamed ["FailedReason"]
  · rintro ⟨names, _, _, _, name, rest, beginning, _, hpath, himports⟩
    rw [hfinal] at himports
    cases himports with
    | whole mem => cases mem
    | named mem binds =>
      obtain ⟨named, hmem, hcalls⟩ := Declarations.mem_specifiers.mp (List.mem_map_of_mem mem)
      obtain rfl := List.mem_singleton.mp hmem
      rcases Declarations.mem_specifiersOf.mp hcalls with htarget | ⟨hself, -⟩
      · cases htarget
      · rw [hself, Declarations.specifierBinds_sameBinding] at binds
        obtain ⟨-, rfl, -⟩ := binds
        exact absurd (List.cons.inj hpath).1 (by decide)

end SdkMigration
