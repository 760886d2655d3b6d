import SdkMigration.Proofs.Stages.EnumAttempts
import SdkMigration.Proofs.Stages.Imports
import SdkMigration.Proofs.Stages.LeftReferences

/-!
# The ledger of a migration

Whatever a stage does is entered into a ledger: an entry has the edits that are made for it
and says how it counts in the report (`Entry`).  A stage goes on from a draft by entries of
its own (`Draft.Enters`): it holds their edits besides those held before, and its report is
the one before with the entries added.

So what holds of the entries one by one holds of the report and of the edits together.  A
stage enters one replacement at a time and counts it, and an entry that no count tells of
has no edits that change the text.
-/

namespace SdkMigration

/-- An entry of the ledger, with the edits that are made for it. -/
inductive Entry where
  | call (edit : Edit)
  | flaggedCall (comments : List Edit)
  | unmatchedCall
  | type (edit : Edit)
  | enum (edit : Edit)
  | leftReference (comments : List Edit)
  | imports (edits : List Edit)
  /-- Declarations that are written as they stand. -/
  | sameImports (edits : List Edit)
  | load (comments : List Edit)

namespace Entry

/-- The edits that are made for an entry. -/
def edits : Entry → List Edit
  | .call edit => [edit]
  | .flaggedCall comments => comments
  | .unmatchedCall => []
  | .type edit => [edit]
  | .enum edit => [edit]
  | .leftReference comments => comments
  | .imports edits => edits
  | .sameImports edits => edits
  | .load comments => comments

/-- How an entry counts. -/
def report : Entry → Report
  | .call _ => { rewrittenCalls := 1 }
  | .flaggedCall _ => { flaggedCalls := 1 }
  | .unmatchedCall => { unmatchedReferences := 1 }
  | .type _ => { rewrittenTypes := 1 }
  | .enum _ => { rewrittenEnums := 1 }
  | .leftReference _ => { flaggedReferences := 1 }
  | .imports _ => { rewrittenImports := true }
  | .sameImports _ => {}
  | .load _ => { opaqueSites := 1 }

end Entry

/-! ## Adding entries to a report -/

namespace Report

/-- A report with entries added. -/
def enter (report : Report) (entries : List Entry) : Report :=
  entries.foldl (fun report entry => report.add entry.report) report

theorem enter_append (report : Report) (entries more : List Entry) :
    report.enter (entries ++ more) = (report.enter entries).enter more :=
  List.foldl_append

/-- What adds up in reports adds up over entries. -/
theorem count_enter (count : Report → Nat) (hadd : ∀ a b, count (a.add b) = count a + count b)
    (report : Report) (entries : List Entry) :
    count (report.enter entries) =
      count report + (entries.map fun entry => count entry.report).sum := by
  unfold enter
  induction entries generalizing report with
  | nil => simp
  | cons entry rest ih => rw [List.foldl_cons, ih, hadd, List.map_cons, List.sum_cons, Nat.add_assoc]

/-- Whether a report counts nothing that changes a text. -/
structure Silent (report : Report) : Prop where
  rewrittenCalls : report.rewrittenCalls = 0
  rewrittenTypes : report.rewrittenTypes = 0
  rewrittenEnums : report.rewrittenEnums = 0
  flaggedCalls : report.flaggedCalls = 0
  flaggedReferences : report.flaggedReferences = 0
  opaqueSites : report.opaqueSites = 0
  rewrittenImports : report.rewrittenImports = false

theorem silent_add {a b : Report} : (a.add b).Silent ↔ a.Silent ∧ b.Silent := by
  constructor
  · rintro ⟨hcalls, htypes, henums, hflagged, hleft, hloads, himports⟩
    simp only [add, Nat.add_eq_zero_iff, Bool.or_eq_false_iff]
      at hcalls htypes henums hflagged hleft hloads himports
    exact ⟨⟨hcalls.1, htypes.1, henums.1, hflagged.1, hleft.1, hloads.1, himports.1⟩,
      ⟨hcalls.2, htypes.2, henums.2, hflagged.2, hleft.2, hloads.2, himports.2⟩⟩
  · rintro ⟨ha, hb⟩
    constructor <;> simp [add, ha.rewrittenCalls, ha.rewrittenTypes, ha.rewrittenEnums,
      ha.flaggedCalls, ha.flaggedReferences, ha.opaqueSites, ha.rewrittenImports,
      hb.rewrittenCalls, hb.rewrittenTypes, hb.rewrittenEnums, hb.flaggedCalls,
      hb.flaggedReferences, hb.opaqueSites, hb.rewrittenImports]

/-- A report is silent when its entries are. -/
theorem silent_enter {report : Report} {entries : List Entry} :
    (report.enter entries).Silent ↔ report.Silent ∧ ∀ entry ∈ entries, entry.report.Silent := by
  unfold enter
  induction entries generalizing report with
  | nil => simp
  | cons entry rest ih => rw [List.foldl_cons, ih, silent_add, and_assoc, List.forall_mem_cons]

end Report

/-! ## Going on by entries -/

/-- Whether a draft goes on from another one by allowed entries. -/
def Draft.Enters (allowed : Entry → Prop) (before after : Draft) : Prop :=
  ∃ entries : List Entry, (∀ entry ∈ entries, allowed entry) ∧
    after.edits.held.Perm (before.edits.held ++ entries.flatMap Entry.edits) ∧
    after.report = before.report.enter entries

namespace Draft

variable {allowed : Entry → Prop} {draft : Draft}

namespace Enters

theorem refl (draft : Draft) : draft.Enters allowed draft :=
  ⟨[], nofun, by simp, rfl⟩

theorem trans {a b c : Draft} (hab : a.Enters allowed b) (hbc : b.Enters allowed c) :
    a.Enters allowed c := by
  obtain ⟨first, hfirst, hfirstHeld, hfirstReport⟩ := hab
  obtain ⟨second, hsecond, hsecondHeld, hsecondReport⟩ := hbc
  refine ⟨first ++ second, fun entry hentry => ?_, ?_, ?_⟩
  · exact (List.mem_append.mp hentry).elim (hfirst entry) (hsecond entry)
  · rw [List.flatMap_append, ← List.append_assoc]
    exact hsecondHeld.trans (hfirstHeld.append_right _)
  · rw [Report.enter_append, ← hfirstReport, hsecondReport]

/-- A step that is made for one entry. -/
theorem one {after : Draft} {entry : Entry} (hallowed : allowed entry)
    (hheld : after.edits.held = draft.edits.held ++ entry.edits)
    (hreport : after.report = draft.report.add entry.report) : draft.Enters allowed after :=
  ⟨[entry], by simpa using hallowed, by simp [hheld], hreport⟩

theorem of_eq {after : Draft} (hheld : after.edits.held = draft.edits.held)
    (hreport : after.report = draft.report) : draft.Enters allowed after :=
  ⟨[], nofun, by simp [hheld], hreport⟩

/-- Steps that each go on by allowed entries. -/
theorem foldl {α : Type} {step : Draft → α → Draft} {list : List α}
    (h : ∀ a ∈ list, ∀ later : Draft, later.Enters allowed (step later a)) (draft : Draft) :
    draft.Enters allowed (list.foldl step draft) := by
  induction list generalizing draft with
  | nil => exact refl draft
  | cons first rest ih =>
    exact (h first List.mem_cons_self draft).trans
      (ih (fun a ha => h a (List.mem_cons_of_mem _ ha)) _)

end Enters

/-! ## Single steps -/

/-- An edit is held or refused. -/
theorem tryEdit_cases (draft : Draft) (edit : Edit) :
    ((draft.tryEdit edit).2 = false ∧ (draft.tryEdit edit).1.edits.held = draft.edits.held ∨
      (draft.tryEdit edit).2 = true ∧
        (draft.tryEdit edit).1.edits.held = draft.edits.held ++ [edit]) ∧
      (draft.tryEdit edit).1.report = draft.report := by
  unfold tryEdit
  cases draft.edits.conflict? edit with
  | some existing => exact ⟨Or.inl ⟨rfl, rfl⟩, rfl⟩
  | none => exact ⟨Or.inr ⟨rfl, rfl⟩, rfl⟩

/-- Writes the comment line of one advisory, unless it stands there already.  The second part
tells whether a line was written so far. -/
private def insertComment (body : Text) (position : Nat) (present : List Advisory)
    (state : Draft × Bool) (advisory : Advisory) : Draft × Bool :=
  if present.contains advisory then state
  else
    let (next, done) :=
      state.1.tryEdit ⟨Span.point position, advisory.insertion body position⟩
    (next, state.2 || done)

/-- A line that is written is told. -/
private theorem insertComment_adds (body : Text) (position : Nat) (present : List Advisory)
    (state : Draft × Bool) (advisory : Advisory) :
    let after := insertComment body position present state advisory
    ∃ comments : List Edit, (∀ comment ∈ comments, comment.isInsertion = true) ∧
      after.1.edits.held = state.1.edits.held ++ comments ∧
      (after.2 = false → state.2 = false ∧ comments = []) := by
  unfold insertComment
  split
  · exact ⟨[], nofun, by simp, fun h => ⟨h, rfl⟩⟩
  · obtain ⟨⟨hdone, hheld⟩ | ⟨hdone, hheld⟩, -⟩ := state.1.tryEdit_cases
      ⟨Span.point position, advisory.insertion body position⟩
    · exact ⟨[], nofun, by simpa using hheld, fun h => ⟨(Bool.or_eq_false_iff.mp h).1, rfl⟩⟩
    · refine ⟨[⟨Span.point position, advisory.insertion body position⟩], ?_, hheld, fun h => ?_⟩
      · simpa using Edit.isInsertion_point _ _
      · rw [Bool.or_eq_false_iff, hdone] at h
        cases h.2

/-- Comments only insert, and it is told when there are some. -/
theorem insertComments_adds (draft : Draft) (body : Text) (position : Nat)
    (advisories : List Advisory) :
    let after := draft.insertComments body position advisories
    ∃ comments : List Edit, (∀ comment ∈ comments, comment.isInsertion = true) ∧
      after.1.edits.held = draft.edits.held ++ comments ∧ (after.2 = false → comments = []) := by
  have hfold : ∀ state : Draft × Bool,
      let after := advisories.foldl
        (insertComment body position (Advisory.above body position)) state
      ∃ comments : List Edit, (∀ comment ∈ comments, comment.isInsertion = true) ∧
        after.1.edits.held = state.1.edits.held ++ comments ∧
        (after.2 = false → state.2 = false ∧ comments = []) := by
    induction advisories with
    | nil => exact fun state => ⟨[], nofun, by simp, fun h => ⟨h, rfl⟩⟩
    | cons advisory rest ih =>
      intro state
      obtain ⟨first, hfirst, hfirstHeld, hfirstNone⟩ := insertComment_adds body position
        (Advisory.above body position) state advisory
      obtain ⟨others, hothers, hothersHeld, hothersNone⟩ := ih
        (insertComment body position (Advisory.above body position) state advisory)
      refine ⟨first ++ others, fun comment hcomment => ?_, ?_, fun hfalse => ?_⟩
      · exact (List.mem_append.mp hcomment).elim (hfirst comment) (hothers comment)
      · rw [List.foldl_cons, hothersHeld, hfirstHeld, List.append_assoc]
      · obtain ⟨hbefore, rfl⟩ := hothersNone hfalse
        obtain ⟨hstart, rfl⟩ := hfirstNone hbefore
        exact ⟨hstart, rfl⟩
  obtain ⟨comments, hinserts, hheld, hnone⟩ := hfold (draft, false)
  exact ⟨comments, hinserts, hheld, fun hfalse => (hnone hfalse).2⟩

end Draft

/-! ## Calls and types -/

/-- The entries of the stage of calls. -/
inductive Entry.OfCalls (items : List Tree) (bindings : Bindings) (rules : List Rule) :
    Entry → Prop where
  | call {chain : Chain} {replacement : Replacement} (mem : chain ∈ allCallChains items)
    (rule : replacement ∈ replacements bindings rules) :
    OfCalls items bindings rules (.call ⟨chain.span, chain.render replacement.target⟩)
  | flagged {comments : List Edit} (inserts : ∀ comment ∈ comments, comment.isInsertion = true) :
    OfCalls items bindings rules (.flaggedCall comments)
  | unmatched : OfCalls items bindings rules .unmatchedCall

/-- The entries of the stage of types. -/
inductive Entry.OfTypes (items : List Tree) (bindings : Bindings) (rules : List Rule) :
    Entry → Prop where
  | type {chain : Chain} {replacement : Replacement} (mem : chain ∈ allTypeChains items)
    (rule : replacement ∈ replacements bindings rules) :
    OfTypes items bindings rules (.type ⟨chain.span, replacement.target.dotted.toList⟩)

namespace Draft

variable {allowed : Entry → Prop} {draft : Draft} {body : Text} {program : Program}
  {bindings : Bindings} {rules : List Rule}

theorem enters_flagCall (site : CallSite) (around : List Nat) (advisories : List Advisory)
    (h : ∀ comments : List Edit, (∀ comment ∈ comments, comment.isInsertion = true) →
      allowed (.flaggedCall comments)) :
    draft.Enters allowed (draft.flagCall body site around advisories) := by
  cases advisories with
  | nil => exact .refl draft
  | cons first rest =>
    obtain ⟨comments, hinserts, hheld, hnone⟩ := draft.insertComments_adds body
      (insertionPoint body.lineIndex around site.start) (first :: rest)
    have hreport := draft.insertComments_report body
      (insertionPoint body.lineIndex around site.start) (first :: rest)
    simp only [flagCall]
    generalize draft.insertComments body (insertionPoint body.lineIndex around site.start)
      (first :: rest) = result at hheld hnone hreport ⊢
    obtain ⟨flagged, inserted⟩ := result
    cases inserted with
    | true =>
      have hsame : flagged.report = draft.report := hreport
      exact .one (h comments hinserts) hheld (by simp [count, hsame, Report.add, Entry.report])
    | false =>
      obtain rfl := hnone rfl
      exact .of_eq (by simpa using hheld) hreport

/-- A replacement that is carried out is entered. -/
theorem enters_carryOut {edit : Edit} {tally : Report → Report} {entry : Entry}
    (replacement : Replacement) (hallowed : allowed entry) (hedits : entry.edits = [edit])
    (htally : ∀ report, tally report = report.add entry.report) :
    draft.Enters allowed (draft.carryOut edit tally replacement) := by
  unfold carryOut
  split
  · exact .of_eq rfl rfl
  · obtain ⟨⟨hdone, hheld⟩ | ⟨hdone, hheld⟩, hreport⟩ := draft.tryEdit_cases edit
    · simp only [hdone, Bool.false_eq_true, if_false]
      exact .of_eq hheld hreport
    · simp only [hdone, if_true]
      refine .one hallowed (hedits ▸ hheld) ?_
      rw [← htally, ← hreport]
      rfl

theorem enters_rewriteCall {visit : Visit}
    (hmem : ∀ chain, visit.chain? = some chain → chain ∈ allCallChains program.items) :
    draft.Enters (Entry.OfCalls program.items bindings rules)
      (draft.rewriteCall body (Lookups.build bindings rules).1 visit) := by
  cases visit with
  | identifier id around => exact .refl draft
  | call site around =>
    cases hchain : site.callee.chain? with
    | none =>
      simp only [rewriteCall, hchain]
      exact .refl draft
    | some chain =>
      cases hfound : (Lookups.build bindings rules).1.find? chain.names with
      | none =>
        simp only [rewriteCall, hchain, hfound]
        split
        · exact .one .unmatched (by simp [count, addNotes, Entry.edits])
            (by simp [count, addNotes, Report.add, Entry.report])
        · exact .refl draft
      | some replacement =>
        simp only [rewriteCall, hchain, hfound]
        refine (enters_flagCall site around _ fun _ => .flagged).trans
          (enters_carryOut replacement (.call (hmem chain hchain)
            (Lookups.mem_of_find?_build hfound)) rfl fun report => ?_)
        simp [Report.add, Entry.report]

/-- The stage of calls goes on by its entries. -/
theorem enters_rewriteCalls : draft.Enters (Entry.OfCalls program.items draft.bindings rules)
    (draft.rewriteCalls body program rules) := by
  unfold rewriteCalls
  split
  · exact .refl draft
  · refine Enters.trans (b := draft.addNotes _) (.of_eq rfl rfl)
      (Enters.foldl (fun visit hvisit later => ?_) _)
    refine enters_rewriteCall fun chain hchain => ?_
    rw [← stops_chains (Lookups.build draft.bindings rules).1 program]
    exact List.mem_filterMap.mpr ⟨visit, hvisit, hchain⟩

theorem enters_rewriteType {chain : Chain} (hmem : chain ∈ allTypeChains program.items) :
    draft.Enters (Entry.OfTypes program.items bindings rules)
      (draft.rewriteType (Lookups.build bindings rules).1 chain) := by
  cases hfound : (Lookups.build bindings rules).1.find? chain.names with
  | none =>
    simp only [rewriteType, hfound]
    exact .refl draft
  | some replacement =>
    simp only [rewriteType, hfound]
    refine enters_carryOut replacement (.type hmem (Lookups.mem_of_find?_build hfound)) rfl
      fun report => ?_
    simp [Report.add, Entry.report]

/-- The stage of types goes on by its entries. -/
theorem enters_rewriteTypes : draft.Enters (Entry.OfTypes program.items draft.bindings rules)
    (draft.rewriteTypes program rules) := by
  unfold rewriteTypes
  split
  · exact .refl draft
  · exact Enters.trans (b := draft.addNotes _) (.of_eq rfl rfl)
      (Enters.foldl (fun _ hchain _ => enters_rewriteType hchain) _)

end Draft

/-! ## Enumerations -/

/-- The entries of the stage of enumerations. -/
inductive Entry.OfEnums (items : List Tree) : Entry → Prop where
  | enum {chain : Chain} {edit : Edit} (mem : chain ∈ allReferences items)
    (part : chain.HasPart edit.span) : OfEnums items (.enum edit)

namespace Draft

variable {allowed : Entry → Prop} {draft : Draft} {rules : EnumRules} {chain : Chain}

theorem enters_replaceEnum (text : Text) {span : Span} {newText : Text} (origin : Origin)
    (target : NamePath) (hallowed : allowed (.enum ⟨span, newText⟩)) :
    draft.Enters allowed (draft.replaceEnum text span newText origin target).1 := by
  unfold replaceEnum
  split
  · exact .refl draft
  · obtain ⟨⟨hdone, hheld⟩ | ⟨hdone, hheld⟩, hreport⟩ := draft.tryEdit_cases ⟨span, newText⟩
    · simp only [hdone, Bool.false_eq_true, if_false]
      exact .of_eq hheld hreport
    · simp only [hdone, if_true]
      refine .one hallowed hheld ?_
      rw [← hreport]
      simp [count, recordMatch, addNotes, Report.add, Entry.report]

theorem enters_rewriteExactEnum (h : ∀ newText, allowed (.enum ⟨chain.span, newText⟩)) :
    draft.Enters allowed (draft.rewriteExactEnum rules chain).1 := by
  unfold rewriteExactEnum
  split
  · split
    · exact .refl draft
    · split
      · exact .refl draft
      · exact enters_replaceEnum _ _ _ (h _)
  · exact .refl draft

theorem enters_rewriteAliasedEnum (index : Nat)
    (h : ∀ edit : Edit, chain.HasPart edit.span → allowed (.enum edit)) :
    draft.Enters allowed (draft.rewriteAliasedEnum rules chain index).1 := by
  unfold rewriteAliasedEnum
  split
  · exact .refl draft
  · rename_i hrest
    split
    · exact .refl draft
    · simp only
      split
      · exact .refl draft
      · exact enters_replaceEnum _ _ _ (h _ (hasPart_suffix hrest _))

theorem enters_rewriteNamedEnum (h : ∀ newText, allowed (.enum ⟨chain.span, newText⟩)) :
    draft.Enters allowed (draft.rewriteNamedEnum rules chain).1 := by
  unfold rewriteNamedEnum
  split
  · simp only
    split
    · split
      · exact .refl draft
      · exact enters_replaceEnum _ _ _ (h _)
    · exact .refl draft
  · exact .refl draft

theorem enters_rewriteEnum (h : ∀ edit : Edit, chain.HasPart edit.span → allowed (.enum edit)) :
    draft.Enters allowed (draft.rewriteEnum rules chain).1 := by
  have hwhole : ∀ newText, allowed (.enum ⟨chain.span, newText⟩) := fun _ => h _ .whole
  unfold rewriteEnum
  split
  · have hexact : draft.Enters allowed (draft.rewriteExactEnum rules chain).1 :=
      enters_rewriteExactEnum hwhole
    simp only
    split
    · exact hexact
    · split
      · exact hexact.trans (enters_rewriteAliasedEnum _ h)
      · exact hexact.trans (enters_rewriteNamedEnum hwhole)
  · exact .refl draft

/-- A look at a chain is at most one replacement of a part of it. -/
theorem enters_rewriteLook {look : EnumLook}
    (h : ∀ edit : Edit, look.chain.HasPart edit.span → allowed (.enum edit)) :
    draft.Enters allowed (draft.rewriteLook rules look).1 := by
  unfold rewriteLook
  split
  · refine enters_rewriteExactEnum fun newText => h _ ?_
    show look.chain.HasPart look.seen.span
    rw [look.span_seen]
    exact .whole
  · exact enters_rewriteEnum h

theorem enters_rewriteLooks {looks : List EnumLook}
    (h : ∀ look ∈ looks, ∀ edit : Edit, look.chain.HasPart edit.span → allowed (.enum edit)) :
    draft.Enters allowed (rewriteLooks rules looks draft).1 := by
  induction looks generalizing draft with
  | nil => exact .refl draft
  | cons first rest ih =>
    have hfirst : draft.Enters allowed (draft.rewriteLook rules first).1 :=
      enters_rewriteLook (h first List.mem_cons_self)
    unfold rewriteLooks
    simp only
    split
    · exact hfirst
    · exact hfirst.trans (ih fun look hlook => h look (List.mem_cons_of_mem _ hlook))

/-- The stage of enumerations goes on by its entries. -/
theorem enters_rewriteEnums {body : Text} {program : Program} {rules : List Rule} :
    draft.Enters (Entry.OfEnums program.items) (draft.rewriteEnums body program rules) := by
  unfold rewriteEnums
  split
  · exact .refl draft
  · simp only [rewriteAllEnums_eq_foldl]
    refine Enters.trans (b := draft.addNotes _) (.of_eq rfl rfl)
      (Enters.foldl (fun nest hnest later => ?_) _)
    obtain ⟨whole, hisNest⟩ := isNest_of_mem_all program.items nest hnest
    rw [hisNest.rewriteEnums_eq_looks]
    exact enters_rewriteLooks fun look hlook edit hpart =>
      .enum (mem_allReferences_of_look program.items look (looks_subset hnest hlook)) hpart

end Draft

/-! ## References that are left -/

/-- The entries of the stage of references that are left. -/
inductive Entry.OfLeftovers : Entry → Prop where
  | left {comments : List Edit} (inserts : ∀ comment ∈ comments, comment.isInsertion = true) :
    OfLeftovers (.leftReference comments)

theorem Leftovers.enters_flag (body : Text) (dropped : List (String × Nat)) (state : Leftovers)
    (visit : Visit) :
    state.draft.Enters Entry.OfLeftovers (state.flag body dropped visit).draft := by
  cases hleft : visit.isLeft state.draft.edits dropped with
  | false =>
    rw [flag_of_not_left hleft]
    exact .refl _
  | true =>
    obtain ⟨hreport, -, hcomments⟩ := @flag_of_left body dropped state visit hleft
    have hcounted : ∀ comments, (state.flag body dropped visit).draft.report =
        state.draft.report.add (Entry.leftReference comments).report := fun comments => by
      rw [hreport]
      simp [Report.add, Entry.report]
    split at hcomments
    · have hnone : ∀ comment ∈ ([] : List Edit), comment.isInsertion = true := nofun
      exact .one (.left hnone) (by simpa [Entry.edits] using hcomments.2) (hcounted _)
    · obtain ⟨-, before, hbefore, hheld⟩ := hcomments
      obtain ⟨comments, hinserts, hadded, -⟩ := before.insertComments_adds body (visit.place body)
        [.unmigratedReference]
      exact .one (.left hinserts) (by rw [hheld, hadded, hbefore, Entry.edits]) (hcounted _)

/-- The stage goes on by its entries. -/
theorem Draft.enters_flagLeftovers {draft : Draft} {body : Text} {program : Program} :
    draft.Enters Entry.OfLeftovers (draft.flagLeftovers body program) := by
  unfold flagLeftovers
  split
  · exact .refl draft
  · generalize droppedNames 0 draft.bindings.named = dropped
    generalize (program.visits fun _ => false) = stops
    have hfold : ∀ state : Leftovers, state.draft.Enters Entry.OfLeftovers
        (stops.foldl (Leftovers.flag body dropped) state).draft := by
      induction stops with
      | nil => exact fun state => .refl state.draft
      | cons visit rest ih =>
        exact fun state => (state.enters_flag body dropped visit).trans (ih _)
    exact hfold { draft }

/-! ## Declarations and loads -/

/-- The entries of the stage of import declarations. -/
inductive Entry.OfImports (body : Text) (declarations : List Span) : Entry → Prop where
  | imports {edits : List Edit} (places : ∀ edit ∈ edits,
      edit.isInsertion = true ∨ ∃ span ∈ declarations, edit.span.Widens body span) :
    OfImports body declarations (.imports edits)
  | same {edits : List Edit} (stands : ∀ edit ∈ edits,
      edit.span ∈ declarations ∧ edit.newText = body.slice edit.span) :
    OfImports body declarations (.sameImports edits)
  | load {comments : List Edit} (inserts : ∀ comment ∈ comments, comment.isInsertion = true) :
    OfImports body declarations (.load comments)

namespace Draft

variable {draft : Draft} {body : Text} {sites : ImportSites} {module : String}

/-- An edit that is tried is held once, or not at all. -/
theorem tryEdit_adds (draft : Draft) (edit : Edit) :
    ∃ edits : List Edit, (∀ added ∈ edits, added = edit) ∧
      (draft.tryEdit edit).1.edits.held = draft.edits.held ++ edits ∧
      (draft.tryEdit edit).1.report = draft.report := by
  obtain ⟨⟨-, hheld⟩ | ⟨-, hheld⟩, hreport⟩ := draft.tryEdit_cases edit
  · exact ⟨[], nofun, by simpa using hheld, hreport⟩
  · exact ⟨[edit], by simp, hheld, hreport⟩

/-- Removing declarations adds edits of their lines. -/
theorem removeDeclarations_adds (body : Text) (others : List Span) (draft : Draft) :
    let after := others.foldl (fun draft span => draft.removeDeclaration body span) draft
    ∃ edits : List Edit, (∀ edit ∈ edits, ∃ span ∈ others, edit = ⟨wholeLines body span, []⟩) ∧
      after.edits.held = draft.edits.held ++ edits ∧ after.report = draft.report := by
  induction others generalizing draft with
  | nil => exact ⟨[], nofun, by simp, rfl⟩
  | cons span rest ih =>
    obtain ⟨first, hfirst, hfirstHeld, hfirstReport⟩ :=
      draft.tryEdit_adds ⟨wholeLines body span, []⟩
    obtain ⟨edits, hedits, hheld, hreport⟩ := ih (draft.removeDeclaration body span)
    refine ⟨first ++ edits, fun edit hedit => ?_, ?_, hreport.trans hfirstReport⟩
    · rcases List.mem_append.mp hedit with hedit | hedit
      · exact ⟨span, List.mem_cons_self, hfirst edit hedit⟩
      · obtain ⟨other, hother, hplace⟩ := hedits edit hedit
        exact ⟨other, List.mem_cons_of_mem _ hother, hplace⟩
    · rw [List.foldl_cons, hheld, ← List.append_assoc]
      exact congrArg (· ++ edits) hfirstHeld

/-- Replacing the declarations adds an edit of the first one, or of its lines, and edits of the
lines of the others, and the imports are marked where that changes something. -/
theorem replaceDeclarations_adds (draft : Draft) (body : Text) (first : Span) (others : List Span)
    (block : Text) :
    let after := draft.replaceDeclarations body first others block
    ∃ replaced removed : List Edit,
      (∀ edit ∈ replaced, edit =
        if block.isEmpty then ⟨wholeLines body first, []⟩ else ⟨first, block⟩) ∧
      (∀ edit ∈ removed, ∃ span ∈ others, edit = ⟨wholeLines body span, []⟩) ∧
      after.edits.held = draft.edits.held ++ (replaced ++ removed) ∧
      after.report = (if !others.isEmpty || body.slice first != block then draft.markImports
        else draft).report := by
  simp only [replaceDeclarations]
  generalize hmarked : (if !others.isEmpty || body.slice first != block then draft.markImports
    else draft) = marked
  have hmarkedHeld : marked.edits.held = draft.edits.held := by
    rw [← hmarked]
    split <;> rfl
  obtain ⟨replaced, hreplaced, hreplacedHeld, hreplacedReport⟩ :=
    marked.tryEdit_adds (if block.isEmpty then ⟨wholeLines body first, []⟩ else ⟨first, block⟩)
  have hfirst : (if block.isEmpty then marked.removeDeclaration body first
      else (marked.tryEdit ⟨first, block⟩).1) = (marked.tryEdit
        (if block.isEmpty then ⟨wholeLines body first, []⟩ else ⟨first, block⟩)).1 := by
    split <;> rfl
  rw [hfirst]
  obtain ⟨removed, hremoved, hremovedHeld, hremovedReport⟩ := removeDeclarations_adds body
    others (marked.tryEdit
      (if block.isEmpty then ⟨wholeLines body first, []⟩ else ⟨first, block⟩)).1
  refine ⟨replaced, removed, hreplaced, hremoved, ?_, hremovedReport.trans hreplacedReport⟩
  rw [hremovedHeld, hreplacedHeld, hmarkedHeld, List.append_assoc]

theorem enters_replaceDeclarations {first : Span} {others : List Span} (block : Text)
    (hsolid : ∀ span ∈ first :: others, span.Solid body body.length) :
    draft.Enters (Entry.OfImports body (first :: others))
      (draft.replaceDeclarations body first others block) := by
  obtain ⟨replaced, removed, hreplaced, hremoved, hheld, hreport⟩ :=
    draft.replaceDeclarations_adds body first others block
  cases hchanges : (!others.isEmpty || body.slice first != block) with
  | true =>
    have hwidens : ∀ span ∈ first :: others, (wholeLines body span).Widens body span :=
      fun span hspan => wholeLines_widens (hsolid span hspan).stop_le
    have hself : first.Widens body first :=
      ⟨(hsolid first List.mem_cons_self).stop_le, Nat.le_refl _, Nat.le_refl _,
        body.isAllBlank_slice_point _, body.isAllBlank_slice_point _⟩
    have hplaces : ∀ edit ∈ replaced ++ removed,
        edit.isInsertion = true ∨ ∃ span ∈ first :: others, edit.span.Widens body span := by
      intro edit hedit
      right
      rcases List.mem_append.mp hedit with hedit | hedit
      · refine ⟨first, List.mem_cons_self, ?_⟩
        rw [hreplaced edit hedit]
        split
        · exact hwidens first List.mem_cons_self
        · exact hself
      · obtain ⟨span, hspan, rfl⟩ := hremoved edit hedit
        exact ⟨span, List.mem_cons_of_mem _ hspan, hwidens span (List.mem_cons_of_mem _ hspan)⟩
    refine .one (.imports hplaces) hheld (hreport.trans ?_)
    simp [hchanges, markImports, count, Report.add, Entry.report]
  | false =>
    -- Nothing else is declared, and the first declaration reads like the block already.
    obtain ⟨hnone, hsame⟩ := Bool.or_eq_false_iff.mp hchanges
    rw [Bool.not_eq_false', List.isEmpty_iff] at hnone
    rw [bne_eq_false_iff_eq] at hsame
    have hfirst := hsolid first List.mem_cons_self
    have hblock : block.isEmpty = false := by
      have hlength : 0 < (body.slice first).length := by
        have hlt := hfirst.start_lt_stop
        have hle := hfirst.stop_le
        simp only [Text.slice, List.length_drop, List.length_take]
        omega
      rw [← hsame]
      exact List.isEmpty_eq_false_iff.mpr (List.ne_nil_of_length_pos hlength)
    have hstands : ∀ edit ∈ replaced ++ removed,
        edit.span ∈ first :: others ∧ edit.newText = body.slice edit.span := by
      intro edit hedit
      rcases List.mem_append.mp hedit with hedit | hedit
      · rw [hreplaced edit hedit, hblock]
        exact ⟨List.mem_cons_self, hsame.symm⟩
      · obtain ⟨span, hspan, -⟩ := hremoved edit hedit
        rw [hnone] at hspan
        cases hspan
    refine .one (.same hstands) hheld (hreport.trans ?_)
    simp [hchanges, Report.add, Entry.report]

theorem enters_prependDeclarations {declarations : List Span} (position : Nat) (block : Text) :
    draft.Enters (Entry.OfImports body declarations)
      (draft.prependDeclarations position block) := by
  have hreport : (draft.prependDeclarations position block).report = draft.report.add
      { rewrittenImports := true } := by
    unfold prependDeclarations tryEdit
    simp only
    split <;> simp [markImports, count, addNotes, Report.add]
  unfold prependDeclarations tryEdit at hreport ⊢
  simp only at hreport ⊢
  cases hconflict : draft.edits.conflict? ⟨Span.point position, block ++ ['\n']⟩ with
  | some existing =>
    rw [hconflict] at hreport
    have hnone : ∀ edit ∈ ([] : List Edit), edit.isInsertion = true ∨
        ∃ span ∈ declarations, edit.span.Widens body span := by simp
    exact .one (.imports hnone) (by simp [markImports, count, addNotes, Entry.edits]) hreport
  | none =>
    rw [hconflict] at hreport
    refine ⟨[.imports [⟨Span.point position, block ++ ['\n']⟩]], ?_, ?_, hreport⟩
    · simp only [List.mem_singleton, forall_eq]
      refine .imports fun edit hedit => Or.inl ?_
      rw [List.mem_singleton.mp hedit]
      exact Edit.isInsertion_point _ _
    · -- The new declarations are put before the edits that are held.
      exact List.perm_append_singleton _ _ |>.symm

theorem enters_flagLoad (load : OpaqueLoad) {declarations : List Span} :
    draft.Enters (Entry.OfImports body declarations) (draft.flagLoad body load) := by
  have hreport := (draft.count fun report =>
    { report with opaqueSites := report.opaqueSites + 1 }).insertComments_report body
      load.position [load.kind.advisory]
  obtain ⟨comments, hinserts, hheld, -⟩ := (draft.count fun report =>
    { report with opaqueSites := report.opaqueSites + 1 }).insertComments_adds body
      load.position [load.kind.advisory]
  refine .one (.load hinserts) hheld (hreport.trans ?_)
  simp [count, Report.add, Entry.report]

/-- The last stage goes on by its entries. -/
theorem enters_rewriteImports
    (hsolid : ∀ span ∈ sites.declarations, span.Solid body body.length) :
    draft.Enters (Entry.OfImports body sites.declarations)
      (draft.rewriteImports body sites module) := by
  have hdeclared : draft.Enters (Entry.OfImports body sites.declarations)
      (draft.rewriteDeclarations body sites module) := by
    unfold rewriteDeclarations
    cases hdeclarations : sites.declarations with
    | cons first others =>
      rw [hdeclarations] at hsolid
      exact enters_replaceDeclarations _ hsolid
    | nil =>
      cases sites.firstItem with
      | none => exact .refl draft
      | some position =>
        simp only
        split
        · exact .refl draft
        · exact enters_prependDeclarations position _
  rw [rewriteImports_eq]
  exact hdeclared.trans (Enters.foldl (fun load _ _ => enters_flagLoad load) _)

end Draft

end SdkMigration
