import SdkMigration.Proofs.ImplicitAlias
import SdkMigration.Proofs.Stages.Ledger
import SdkMigration.Proofs.TouchedText

/-!
# What the report of a file accounts for

The counts of rewritten references in a report are numbers of replacements: each stage of
references counts those that it has made, and what one stage has replaced no other one
replaces again (`ReplacedBy`).  Each of them is what the migrated file reads in its place.

Conversely nothing is written that no count tells of: where nothing is counted, the file is
the one that was read (`transform_accounts`).
-/

namespace SdkMigration

/-! ## Replacements -/

/-- The edits that put something in the place of characters. -/
def replacing (edits : List Edit) : List Edit := edits.filter fun edit => !edit.isInsertion

/-- The replacements that a draft holds. -/
def Draft.replaced (draft : Draft) : List Edit := replacing draft.edits.held

theorem mem_replacing {edits : List Edit} {edit : Edit} :
    edit ∈ replacing edits ↔ edit ∈ edits ∧ edit.isInsertion = false := by
  simp [replacing]

theorem replacing_eq_nil {edits : List Edit} (h : ∀ edit ∈ edits, edit.isInsertion = true) :
    replacing edits = [] :=
  List.filter_eq_nil_iff.mpr fun edit hedit => by simp [h edit hedit]

theorem replacing_singleton {edit : Edit} (h : edit.span.start < edit.span.stop) :
    replacing [edit] = [edit] := by
  have hedit : edit.isInsertion = false := beq_eq_false_iff_ne.mpr (Nat.ne_of_lt h)
  simp [replacing, hedit]

/-- The replacements that each stage has made of a file. -/
structure ReplacedBy (options : MigrationOptions) (dialect : Dialect) (body : Text)
    (program : Program) (calls types enums imports : List Edit) : Prop where
  afterCalls : (beforeTypes options body program).replaced.Perm calls
  afterTypes : (if dialect.types then beforeEnums options body program
    else beforeTypes options body program).replaced.Perm (calls ++ types)
  afterEnums : (rewritten options dialect body program).replaced.Perm (calls ++ types ++ enums)
  afterImports : (finalDraft options dialect body program).replaced.Perm
    (calls ++ types ++ enums ++ imports)
  /-- In the stage of calls, called chains are replaced. -/
  ofCalls : ∀ edit ∈ calls, ∃ chain ∈ allCallChains program.items, ∃ replacement ∈
    replacements (opened options body program).bindings options.mappings.functions,
      edit = ⟨chain.span, chain.render replacement.target⟩
  /-- Each called chain that a rule changes is one of them, whatever it is besides. -/
  everyCall : ∀ chain ∈ allCallChains program.items, ∀ replacement,
    (Lookups.build (opened options body program).bindings options.mappings.functions).1.find?
      chain.names = some replacement → replacement.isIdentity = false →
    ⟨chain.span, chain.render replacement.target⟩ ∈ calls
  ofTypes : ∀ edit ∈ types, ∃ chain ∈ allTypeChains program.items, ∃ replacement ∈
    replacements (beforeTypes options body program).bindings options.mappings.interfaces,
      edit = ⟨chain.span, replacement.target.dotted.toList⟩
  everyType : dialect.types = true → ∀ chain ∈ allTypeChains program.items, ∀ replacement,
    (Lookups.build (beforeTypes options body program).bindings options.mappings.interfaces).1.find?
      chain.names = some replacement → replacement.isIdentity = false →
    ⟨chain.span, replacement.target.dotted.toList⟩ ∈ types
  ofEnums : ∀ edit ∈ enums, ∃ chain ∈ allReferences program.items, chain.HasPart edit.span
  ofImports : ∀ edit ∈ imports, ∃ span ∈
    (program.importSites body options.module options.globalName).declarations,
      edit.span.Widens body span
  /-- No two of them are for the same characters. -/
  apart : (calls ++ types ++ enums ++ imports).Pairwise fun a b => a.span.Apart b.span
  reads : ∀ edit ∈ calls ++ types ++ enums,
    (finalDraft options dialect body program).edits.Reads body edit.span edit.newText

/-! ## Entries of the stages -/

namespace Entry

/-- The replacements of an entry. -/
def replaced (entry : Entry) : List Edit := replacing entry.edits

section Stages

variable {body : Text} {program : Program} {bindings : Bindings} {rules : List Rule}
  {declarations : List Span} {entry : Entry}

/-- An entry of the stage of calls counts the chain that it replaces. -/
theorem OfCalls.counts (hplaced : program.Placed body)
    (h : Entry.OfCalls program.items bindings rules entry) :
    entry.replaced.length = entry.report.rewrittenCalls ∧
      entry.report.rewrittenTypes = 0 ∧ entry.report.rewrittenEnums = 0 ∧
      ∀ edit ∈ entry.replaced, ∃ chain ∈ allCallChains program.items,
        ∃ replacement ∈ replacements bindings rules,
          edit = ⟨chain.span, chain.render replacement.target⟩ := by
  cases h with
  | @call chain replacement mem rule =>
    have hchain := hplaced.landmarks.chains chain (Draft.mem_chains_of_call mem)
    have hreplaced : replaced (.call ⟨chain.span, chain.render replacement.target⟩) =
        [⟨chain.span, chain.render replacement.target⟩] :=
      replacing_singleton hchain.start_lt_stop
    refine ⟨congrArg List.length hreplaced, rfl, rfl, fun edit hedit => ?_⟩
    rw [hreplaced, List.mem_singleton] at hedit
    exact ⟨chain, mem, replacement, rule, hedit⟩
  | flagged inserts =>
    have hreplaced : replaced (.flaggedCall _) = [] := replacing_eq_nil inserts
    exact ⟨congrArg List.length hreplaced, rfl, rfl, by simp [hreplaced]⟩
  | unmatched => exact ⟨rfl, rfl, rfl, nofun⟩

theorem OfTypes.counts (hplaced : program.Placed body)
    (h : Entry.OfTypes program.items bindings rules entry) :
    entry.replaced.length = entry.report.rewrittenTypes ∧
      entry.report.rewrittenCalls = 0 ∧ entry.report.rewrittenEnums = 0 ∧
      ∀ edit ∈ entry.replaced, ∃ chain ∈ allTypeChains program.items,
        ∃ replacement ∈ replacements bindings rules,
          edit = ⟨chain.span, replacement.target.dotted.toList⟩ := by
  obtain @⟨chain, replacement, mem, rule⟩ := h
  have hchain := hplaced.landmarks.chains chain (Draft.mem_chains_of_type mem)
  have hreplaced : replaced (.type ⟨chain.span, replacement.target.dotted.toList⟩) =
      [⟨chain.span, replacement.target.dotted.toList⟩] :=
    replacing_singleton hchain.start_lt_stop
  refine ⟨congrArg List.length hreplaced, rfl, rfl, fun edit hedit => ?_⟩
  rw [hreplaced, List.mem_singleton] at hedit
  exact ⟨chain, mem, replacement, rule, hedit⟩

theorem OfEnums.counts (hplaced : program.Placed body)
    (h : Entry.OfEnums program.items entry) :
    entry.replaced.length = entry.report.rewrittenEnums ∧
      entry.report.rewrittenCalls = 0 ∧ entry.report.rewrittenTypes = 0 ∧
      ∀ edit ∈ entry.replaced, ∃ chain ∈ allReferences program.items,
        chain.HasPart edit.span := by
  obtain @⟨chain, edit, mem, part⟩ := h
  have hreplaced : replaced (.enum edit) = [edit] :=
    replacing_singleton (part.start_lt_stop (hplaced.reference mem))
  refine ⟨congrArg List.length hreplaced, rfl, rfl, fun other hother => ?_⟩
  rw [hreplaced, List.mem_singleton] at hother
  exact ⟨chain, mem, hother ▸ part⟩

theorem OfLeftovers.counts (h : Entry.OfLeftovers entry) :
    entry.replaced = [] ∧ entry.report.rewrittenCalls = 0 ∧
      entry.report.rewrittenTypes = 0 ∧ entry.report.rewrittenEnums = 0 := by
  obtain @⟨comments, inserts⟩ := h
  exact ⟨replacing_eq_nil inserts, rfl, rfl, rfl⟩

theorem OfImports.counts
    (hinside : ∀ span ∈ declarations, span.stop ≤ body.length)
    (h : Entry.OfImports body declarations entry) :
    entry.report.rewrittenCalls = 0 ∧ entry.report.rewrittenTypes = 0 ∧
      entry.report.rewrittenEnums = 0 ∧
      ∀ edit ∈ entry.replaced, ∃ span ∈ declarations, edit.span.Widens body span := by
  cases h with
  | imports places =>
    refine ⟨rfl, rfl, rfl, fun edit hedit => ?_⟩
    obtain ⟨hmem, hreplaces⟩ := mem_replacing.mp hedit
    exact (places edit hmem).resolve_left (by simp [hreplaces])
  | same stands =>
    refine ⟨rfl, rfl, rfl, fun edit hedit => ?_⟩
    have hspan := (stands edit (mem_replacing.mp hedit).1).1
    exact ⟨edit.span, hspan, hinside _ hspan, Nat.le_refl _, Nat.le_refl _,
      body.isAllBlank_slice_point _, body.isAllBlank_slice_point _⟩
  | load inserts =>
    have hreplaced : replaced (.load _) = [] := replacing_eq_nil inserts
    exact ⟨rfl, rfl, rfl, by simp [hreplaced]⟩

/-- Whether declarations that an entry says to be written as they stand are. -/
def Stands (body : Text) : Entry → Prop
  | .sameImports edits => ∀ edit ∈ edits, edit.newText = body.slice edit.span
  | _ => True

theorem OfCalls.stands (h : Entry.OfCalls program.items bindings rules entry) :
    entry.Stands body := by
  cases h <;> trivial

theorem OfTypes.stands (h : Entry.OfTypes program.items bindings rules entry) :
    entry.Stands body := by
  cases h; trivial

theorem OfEnums.stands (h : Entry.OfEnums program.items entry) : entry.Stands body := by
  cases h; trivial

theorem OfLeftovers.stands (h : Entry.OfLeftovers entry) : entry.Stands body := by
  cases h; trivial

theorem OfImports.stands (h : Entry.OfImports body declarations entry) : entry.Stands body := by
  cases h with
  | imports places => trivial
  | same stands => exact fun edit hedit => (stands edit hedit).2
  | load inserts => trivial

/-- An entry that no count tells of writes what stands there. -/
theorem same_of_silent (h : entry.Stands body) (hsilent : entry.report.Silent) :
    ∀ edit ∈ entry.edits, edit.newText = body.slice edit.span := by
  cases entry with
  | call edit => cases hsilent.rewrittenCalls
  | flaggedCall comments => cases hsilent.flaggedCalls
  | unmatchedCall => exact nofun
  | type edit => cases hsilent.rewrittenTypes
  | enum edit => cases hsilent.rewrittenEnums
  | leftReference comments => cases hsilent.flaggedReferences
  | imports edits => cases hsilent.rewrittenImports
  | sameImports edits => exact h
  | load comments => cases hsilent.opaqueSites

end Stages

end Entry

/-! ## Stage after stage -/

/-- The replacements of a draft are those of its entries. -/
theorem perm_replaced {draft : Draft} {entries : List Entry}
    (h : draft.edits.held.Perm (entries.flatMap Entry.edits)) :
    draft.replaced.Perm (entries.flatMap Entry.replaced) := by
  have hfilter := h.filter fun edit => !edit.isInsertion
  rw [List.filter_flatMap] at hfilter
  exact hfilter

/-- A replacement that a draft holds is one of its entries. -/
theorem mem_flatMap_replaced {draft : Draft} {entries : List Entry} {edit : Edit}
    (h : draft.edits.held.Perm (entries.flatMap Entry.edits)) (hedit : edit ∈ draft.edits.held)
    (hspan : edit.span.start < edit.span.stop) : edit ∈ entries.flatMap Entry.replaced :=
  (perm_replaced h).mem_iff.mp
    (mem_replacing.mpr ⟨hedit, beq_eq_false_iff_ne.mpr (Nat.ne_of_lt hspan)⟩)

/-- What only the entries of one stage count, each with its replacements, is the number of the
replacements of the stage. -/
theorem count_of_stage {count : Report → Nat} (hadd : ∀ a b, count (a.add b) = count a + count b)
    (hzero : count {} = 0) {before own behind : List Entry}
    (hbefore : ∀ entry ∈ before, count entry.report = 0)
    (hown : ∀ entry ∈ own, entry.replaced.length = count entry.report)
    (hbehind : ∀ entry ∈ behind, count entry.report = 0) :
    count (({} : Report).enter (before ++ own ++ behind)) =
      (own.flatMap Entry.replaced).length := by
  have hnone : ∀ entries : List Entry, (∀ entry ∈ entries, count entry.report = 0) →
      (entries.map fun entry => count entry.report).sum = 0 := by
    intro entries hentries
    rw [List.map_congr_left hentries]
    simp
  rw [Report.count_enter count hadd, hzero, List.map_append, List.map_append, List.sum_append,
    List.sum_append, hnone before hbefore, hnone behind hbehind, List.length_flatMap,
    List.map_congr_left hown]
  omega

section Files

variable {options : MigrationOptions} {dialect : Dialect} {body : Text} {program : Program}

theorem opened_report : (opened options body program).report = {} := by
  unfold opened openDraft
  split <;> rfl

theorem referenceDraft_report :
    (referenceDraft options dialect body program).report =
      (rewritten options dialect body program).report := by
  simp only [referenceDraft]
  split <;> rfl

theorem Program.Placed.declaration_stop_le {module globalName : String}
    (hplaced : program.Placed body) :
    ∀ span ∈ (program.importSites body module globalName).declarations,
      span.stop ≤ body.length :=
  fun span hspan => (hplaced.landmarks.imports span (Program.mem_declarations hspan)).2

/-- The stages of types and enumerations go on where the dialect has types. -/
theorem enters_typed :
    (beforeTypes options body program).Enters (Entry.OfTypes program.items
        (beforeTypes options body program).bindings options.mappings.interfaces)
      (if dialect.types then beforeEnums options body program
        else beforeTypes options body program) ∧
    (if dialect.types then beforeEnums options body program
        else beforeTypes options body program).Enters (Entry.OfEnums program.items)
      (rewritten options dialect body program) := by
  simp only [rewritten, Draft.rewriteReferences]
  split
  · exact ⟨Draft.enters_rewriteTypes, Draft.enters_rewriteEnums⟩
  · exact ⟨.refl _, .refl _⟩

/-- The ledger of a file: the entries of the stages, one behind the other. -/
structure Booked (options : MigrationOptions) (dialect : Dialect) (body : Text)
    (program : Program) (calls types enums left imports : List Entry) : Prop where
  ofCalls : ∀ entry ∈ calls, Entry.OfCalls program.items (opened options body program).bindings
    options.mappings.functions entry
  ofTypes : ∀ entry ∈ types, Entry.OfTypes program.items
    (beforeTypes options body program).bindings options.mappings.interfaces entry
  ofEnums : ∀ entry ∈ enums, Entry.OfEnums program.items entry
  ofLeft : ∀ entry ∈ left, Entry.OfLeftovers entry
  ofImports : ∀ entry ∈ imports, Entry.OfImports body
    (program.importSites body options.module options.globalName).declarations entry
  afterCalls : (beforeTypes options body program).edits.held.Perm (calls.flatMap Entry.edits)
  afterTypes : (if dialect.types then beforeEnums options body program
    else beforeTypes options body program).edits.held.Perm
      ((calls ++ types).flatMap Entry.edits)
  afterEnums : (rewritten options dialect body program).edits.held.Perm
    ((calls ++ types ++ enums).flatMap Entry.edits)
  afterImports : (finalDraft options dialect body program).edits.held.Perm
    ((calls ++ types ++ enums ++ left ++ imports).flatMap Entry.edits)
  report : (finalDraft options dialect body program).report =
    ({} : Report).enter (calls ++ types ++ enums ++ left ++ imports)

theorem exists_booked (hplaced : program.Placed body) :
    ∃ calls types enums left imports,
      Booked options dialect body program calls types enums left imports := by
  have hsolid : ∀ span ∈
      (program.importSites body options.module options.globalName).declarations,
      span.Solid body body.length :=
    fun span hspan => hplaced.landmarks.solid span (Program.mem_declarations hspan)
  have hcalled : (opened options body program).Enters _ (beforeTypes options body program) :=
    Draft.enters_rewriteCalls
  obtain ⟨htyped, hrewritten⟩ := @enters_typed options dialect body program
  have hflagged : (referenceDraft options dialect body program).Enters _
      ((referenceDraft options dialect body program).flagLeftovers body program) :=
    Draft.enters_flagLeftovers
  have himported : ((referenceDraft options dialect body program).flagLeftovers body
      program).Enters _ (finalDraft options dialect body program) :=
    Draft.enters_rewriteImports hsolid
  obtain ⟨calls, hcalls, hcallsHeld, hcallsReport⟩ := hcalled
  obtain ⟨types, htypes, htypesHeld, htypesReport⟩ := htyped
  obtain ⟨enums, henums, henumsHeld, henumsReport⟩ := hrewritten
  obtain ⟨left, hleft, hleftHeld, hleftReport⟩ := hflagged
  obtain ⟨imports, himports, himportsHeld, himportsReport⟩ := himported
  rw [opened_edits, List.nil_append] at hcallsHeld
  rw [referenceDraft_edits] at hleftHeld
  rw [referenceDraft_report] at hleftReport
  have hafterTypes := htypesHeld.trans (hcallsHeld.append_right _)
  have hafterEnums := henumsHeld.trans (hafterTypes.append_right _)
  have hafterImports := himportsHeld.trans
    ((hleftHeld.trans (hafterEnums.append_right _)).append_right _)
  simp only [← List.flatMap_append] at hafterTypes hafterEnums hafterImports
  refine ⟨calls, types, enums, left, imports, hcalls, htypes, henums, hleft, himports, hcallsHeld,
    hafterTypes, hafterEnums, hafterImports, ?_⟩
  rw [himportsReport, hleftReport, henumsReport, htypesReport, hcallsReport, opened_report]
  simp only [Report.enter_append]

namespace Booked

variable {calls types enums left imports : List Entry}

/-- Every edit of a silent report writes what stands there. -/
theorem same_of_silent (h : Booked options dialect body program calls types enums left imports)
    (hsilent : (finalDraft options dialect body program).report.Silent) :
    ∀ edit ∈ (finalDraft options dialect body program).edits.held,
      edit.newText = body.slice edit.span := by
  intro edit hedit
  rw [h.report] at hsilent
  have hentries := (Report.silent_enter.mp hsilent).2
  obtain ⟨entry, hentry, hmem⟩ := List.mem_flatMap.mp (h.afterImports.mem_iff.mp hedit)
  have hstands : entry.Stands body := by
    simp only [List.mem_append] at hentry
    rcases hentry with (((hentry | hentry) | hentry) | hentry) | hentry
    · exact (h.ofCalls entry hentry).stands
    · exact (h.ofTypes entry hentry).stands
    · exact (h.ofEnums entry hentry).stands
    · exact (h.ofLeft entry hentry).stands
    · exact (h.ofImports entry hentry).stands
  exact Entry.same_of_silent hstands (hentries entry hentry) edit hmem

/-- A called chain that a rule changes is replaced in the stage of calls. -/
theorem call_mem (h : Booked options dialect body program calls types enums left imports)
    (hplaced : program.Placed body) {chain : Chain} (hchain : chain ∈ allCallChains program.items)
    {replacement : Replacement}
    (hfound : (Lookups.build (opened options body program).bindings
      options.mappings.functions).1.find? chain.names = some replacement)
    (hchanges : replacement.isIdentity = false) :
    ⟨chain.span, chain.render replacement.target⟩ ∈ calls.flatMap Entry.replaced := by
  have hlt := (hplaced.landmarks.chains chain (Draft.mem_chains_of_call hchain)).start_lt_stop
  have hheld : ⟨chain.span, chain.render replacement.target⟩ ∈
      (beforeTypes options body program).edits.held :=
    (Draft.rewriteCalls_replaces hplaced.landmarks (allows_any _) hchain hfound no_held).2 hchanges
  exact mem_flatMap_replaced h.afterCalls hheld hlt

/-- A name of a type that a rule changes is replaced in the stage of types. -/
theorem type_mem (h : Booked options dialect body program calls types enums left imports)
    (hplaced : program.Placed body) (htypes : dialect.types = true) {chain : Chain}
    (hchain : chain ∈ allTypeChains program.items) {replacement : Replacement}
    (hfound : (Lookups.build (beforeTypes options body program).bindings
      options.mappings.interfaces).1.find? chain.names = some replacement)
    (hchanges : replacement.isIdentity = false) :
    ⟨chain.span, replacement.target.dotted.toList⟩ ∈ types.flatMap Entry.replaced := by
  have hmem := Draft.mem_chains_of_type hchain
  have hlt := (hplaced.landmarks.chains chain hmem).start_lt_stop
  have hfree : ∀ held ∈ (beforeTypes options body program).edits.held,
      (allLandmarks program.items).Within (· ≠ chain) held := by
    have hcalled : (opened options body program).Continues
        ((allLandmarks program.items).Within (· ≠ chain)) .any
        (beforeTypes options body program) :=
      Draft.continues_rewriteCalls_within hplaced.landmarks (allows_any _)
        fun other hother _ _ _ hsame =>
          Draft.not_type_of_call hplaced.landmarks hother (hsame ▸ hchain)
    exact hcalled.forall_held no_held fun _ hwithin => hwithin
  have hheld : ⟨chain.span, replacement.target.dotted.toList⟩ ∈
      (beforeEnums options body program).edits.held :=
    (Draft.rewriteTypes_replaces hplaced.landmarks (allows_any _) hchain hfound hfree).2 hchanges
  have hafter := h.afterTypes
  rw [if_pos htypes] at hafter
  have hentry := mem_flatMap_replaced hafter hheld hlt
  rw [List.flatMap_append, List.mem_append] at hentry
  -- The calls have left the chain alone.
  refine hentry.resolve_left fun hcall => ?_
  have hbefore := (perm_replaced h.afterCalls).mem_iff.mpr hcall
  have hoverlap := hplaced.landmarks.not_overlaps_chain hmem
    (hfree _ (mem_replacing.mp hbefore).1) []
  rcases Edits.sides_of_free hoverlap with hside | hside
  · exact absurd hlt (Nat.not_lt.mpr hside)
  · exact absurd hlt (Nat.not_lt.mpr hside)

theorem replaced_left (h : Booked options dialect body program calls types enums left imports) :
    left.flatMap Entry.replaced = [] :=
  List.flatMap_eq_nil_iff.mpr fun entry hentry => (h.ofLeft entry hentry).counts.1

/-- The replacements of the ledger are those of the stages. -/
theorem replacedBy (h : Booked options dialect body program calls types enums left imports)
    (hplaced : program.Placed body) :
    ReplacedBy options dialect body program (calls.flatMap Entry.replaced)
      (types.flatMap Entry.replaced) (enums.flatMap Entry.replaced)
      (imports.flatMap Entry.replaced) := by
  have hconsistent := (@finalDraft_legacyEdits options dialect body program hplaced).2
  have hafter := perm_replaced h.afterImports
  simp only [List.flatMap_append, h.replaced_left, List.append_nil] at hafter
  have hheld : ∀ edit ∈ calls.flatMap Entry.replaced ++ types.flatMap Entry.replaced ++
      enums.flatMap Entry.replaced, edit ∈ (finalDraft options dialect body program).replaced :=
    fun edit hedit => hafter.mem_iff.mpr (List.mem_append_left _ hedit)
  refine ⟨perm_replaced h.afterCalls, ?_, ?_, hafter, ?_, fun chain hchain replacement hfound =>
    h.call_mem hplaced hchain hfound, ?_, fun htypes chain hchain replacement hfound =>
    h.type_mem hplaced htypes hchain hfound, ?_, ?_, ?_, ?_⟩
  · simpa only [List.flatMap_append] using perm_replaced h.afterTypes
  · simpa only [List.flatMap_append] using perm_replaced h.afterEnums
  · exact List.forall_mem_flatMap.mpr fun entry hentry =>
      ((h.ofCalls entry hentry).counts hplaced).2.2.2
  · exact List.forall_mem_flatMap.mpr fun entry hentry =>
      ((h.ofTypes entry hentry).counts hplaced).2.2.2
  · exact List.forall_mem_flatMap.mpr fun entry hentry =>
      ((h.ofEnums entry hentry).counts hplaced).2.2.2
  · exact List.forall_mem_flatMap.mpr fun entry hentry =>
      ((h.ofImports entry hentry).counts hplaced.declaration_stop_le).2.2.2
  · rw [← hafter.pairwise_iff Span.Apart.symm]
    exact (hconsistent.sublist List.filter_sublist).imp fun hapart => Edits.sides_of_free hapart
  · intro edit hedit
    obtain ⟨hmem, hreplaces⟩ := mem_replacing.mp (hheld edit hedit)
    have hne := beq_eq_false_iff_ne.mp hreplaces
    exact hconsistent.reads_held body hmem (Nat.lt_of_le_of_ne edit.span.start_le_stop hne)

/-- The counts of the report are the numbers of the replacements. -/
theorem counts (h : Booked options dialect body program calls types enums left imports)
    (hplaced : program.Placed body) :
    (finalDraft options dialect body program).report.rewrittenCalls =
        (calls.flatMap Entry.replaced).length ∧
      (finalDraft options dialect body program).report.rewrittenTypes =
        (types.flatMap Entry.replaced).length ∧
      (finalDraft options dialect body program).report.rewrittenEnums =
        (enums.flatMap Entry.replaced).length := by
  have hcalls := fun entry hentry => (h.ofCalls entry hentry).counts hplaced
  have htypes := fun entry hentry => (h.ofTypes entry hentry).counts hplaced
  have henums := fun entry hentry => (h.ofEnums entry hentry).counts hplaced
  have hleft := fun entry hentry => (h.ofLeft entry hentry).counts
  have himports := fun entry hentry => (h.ofImports entry hentry).counts hplaced.declaration_stop_le
  rw [h.report]
  refine ⟨?_, ?_, ?_⟩
  · have hsplit : calls ++ types ++ enums ++ left ++ imports =
        [] ++ calls ++ (types ++ enums ++ left ++ imports) := by simp
    rw [hsplit]
    refine count_of_stage (fun _ _ => rfl) rfl nofun (fun entry h => (hcalls entry h).1) ?_
    simp only [List.mem_append]
    rintro entry (((h | h) | h) | h)
    · exact (htypes entry h).2.1
    · exact (henums entry h).2.1
    · exact (hleft entry h).2.1
    · exact (himports entry h).1
  · have hsplit : calls ++ types ++ enums ++ left ++ imports =
        calls ++ types ++ (enums ++ left ++ imports) := by simp
    rw [hsplit]
    refine count_of_stage (fun _ _ => rfl) rfl (fun entry h => (hcalls entry h).2.1)
      (fun entry h => (htypes entry h).1) ?_
    simp only [List.mem_append]
    rintro entry ((h | h) | h)
    · exact (henums entry h).2.2.1
    · exact (hleft entry h).2.2.1
    · exact (himports entry h).2.1
  · have hsplit : calls ++ types ++ enums ++ left ++ imports =
        (calls ++ types) ++ enums ++ (left ++ imports) := by simp
    rw [hsplit]
    refine count_of_stage (fun _ _ => rfl) rfl ?_ (fun entry h => (henums entry h).1) ?_
    · simp only [List.mem_append]
      rintro entry (h | h)
      · exact (hcalls entry h).2.2.1
      · exact (htypes entry h).2.2.1
    · simp only [List.mem_append]
      rintro entry (h | h)
      · exact (hleft entry h).2.2.2
      · exact (himports entry h).2.2.1

end Booked

/-- **The report accounts for the edits.**  In an accepted file the counts of calls, types and
enumerations are the numbers of chains that the stages of these have replaced, no two of which are
for the same characters, and a file in which nothing is counted is written as it was read. -/
theorem transform_accounts {location : String} {mediaType : MediaType} {text : Text}
    {file : MigratedFile} (h : transform options location mediaType text = .ok file) :
    let body := Program.withoutMark text
    ∃ dialect program, mediaType.dialect? = some dialect ∧
      Program.read? dialect body = some program ∧
      file.text = (finalDraft options dialect body program).edits.apply body ∧
      (∃ calls types enums imports,
        ReplacedBy options dialect body program calls types enums imports ∧
        file.report.rewrittenCalls = calls.length ∧ file.report.rewrittenTypes = types.length ∧
        file.report.rewrittenEnums = enums.length) ∧
      (file.report.Silent → file.text = body) := by
  intro body
  obtain ⟨dialect, program, hdialect, hread, rfl⟩ := transform_eq_ok h
  have hplaced := Program.placed_of_read hread
  obtain ⟨calls, types, enums, left, imports, hbooked⟩ :=
    @exists_booked options dialect body program hplaced
  obtain ⟨hcalls, htypes, henums⟩ := hbooked.counts hplaced
  refine ⟨dialect, program, hdialect, hread, rfl,
    ⟨_, _, _, _, hbooked.replacedBy hplaced, hcalls, htypes, henums⟩, fun hsilent => ?_⟩
  have hconsistent := (@finalDraft_legacyEdits options dialect body program hplaced).2
  exact hconsistent.apply_eq_self (hbooked.same_of_silent hsilent)

end Files

/-- A mapping with one rule of each kind. -/
private def mixedMapping : MigrationOptions where
  module := "legacy"
  mappings := {
    functions := [⟨⟨"getContext", []⟩, ⟨"app", ["getContext"]⟩, none⟩]
    interfaces := [⟨⟨"Context", []⟩, ⟨"app", ["Context"]⟩, none⟩]
    enums := [⟨⟨"shapes", ["Kind"]⟩, ⟨"forms", ["Kind"]⟩, none⟩] }

/-- A file with one reference of each kind. -/
private def mixedFile : Text :=
  "import * as t from \"legacy\";\nt.getContext(t.shapes.Kind.Round as t.Context);\n".toList

/-- A file with a call that no rule is for. -/
private def idleFile : Text := "import * as t from \"legacy\";\nt.close();\n".toList

private theorem mixedFile_facts :
    (transform mixedMapping "file:///mod.ts" .typeScript mixedFile).toOption.map (·.report) =
      some { rewrittenCalls := 1, rewrittenTypes := 1, rewrittenEnums := 1 } ∧
    (transform mixedMapping "file:///mod.ts" .typeScript idleFile).toOption.map (·.report) =
      some { unmatchedReferences := 1 } := by
  decide +kernel

/-- In the one file a replacement of each kind is counted, and the other one stays as it is. -/
theorem mixedFile_accounts :
    (∃ file program calls types enums imports,
      transform mixedMapping "file:///mod.ts" .typeScript mixedFile = .ok file ∧
      ReplacedBy mixedMapping ⟨true, false, true⟩ mixedFile program calls types enums imports ∧
      calls.length = 1 ∧ types.length = 1 ∧ enums.length = 1) ∧
    ∃ file, transform mixedMapping "file:///mod.ts" .typeScript idleFile = .ok file ∧
      file.report.unmatchedReferences = 1 ∧ file.text = idleFile := by
  obtain ⟨hmixed, hidle⟩ := mixedFile_facts
  constructor
  · cases hfile : transform mixedMapping "file:///mod.ts" .typeScript mixedFile with
    | error e =>
      rw [hfile] at hmixed
      cases hmixed
    | ok file =>
      rw [hfile] at hmixed
      have hreport : file.report =
          { rewrittenCalls := 1, rewrittenTypes := 1, rewrittenEnums := 1 } :=
        Option.some.inj hmixed
      obtain ⟨dialect, program, hdialect, -, -, ⟨calls, types, enums, imports, hreplaced, hcalls,
        htypes, henums⟩, -⟩ := transform_accounts hfile
      obtain rfl := Option.some.inj hdialect
      rw [hreport] at hcalls htypes henums
      exact ⟨file, program, calls, types, enums, imports, rfl, hreplaced, hcalls.symm,
        htypes.symm, henums.symm⟩
  · cases hfile : transform mixedMapping "file:///mod.ts" .typeScript idleFile with
    | error e =>
      rw [hfile] at hidle
      cases hidle
    | ok file =>
      rw [hfile] at hidle
      have hreport : file.report = { unmatchedReferences := 1 } := Option.some.inj hidle
      obtain ⟨-, -, -, -, -, -, hsilent⟩ := transform_accounts hfile
      exact ⟨file, rfl, by rw [hreport], hsilent (by rw [hreport]; constructor <;> rfl)⟩

end SdkMigration
