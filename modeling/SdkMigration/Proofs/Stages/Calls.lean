import Mathlib.Data.List.Forall2
import SdkMigration.Proofs.Grammar.Programs
import SdkMigration.Proofs.References
import SdkMigration.Proofs.Stages.Beside

/-!
# What the stage of calls does at each call

The stage of calls comes to every call of a program once, however deep it stands, and what it
does there depends on the call alone (`Deals`): the calls inside a call's arguments and on its
line do not get in its way.  The edits of the stage are those of the calls, one call behind the
other, none of them is refused, and the counts grow by what is done
(`Draft.rewriteCalls_deals`).
-/

namespace SdkMigration

/-- The calls of a program, at any depth and each of them once, in the order of their trees. -/
def Program.calls (program : Program) : List Visit :=
  (program.visits fun _ => false).filter Visit.isCall

/-- Whether no node around a call starts behind what it holds. -/
def Program.Nested (program : Program) : Prop :=
  ∀ visit ∈ program.calls, (visit.start :: visit.outer).Pairwise (· ≥ ·)

instance (program : Program) : Decidable program.Nested :=
  inferInstanceAs (Decidable (∀ visit ∈ program.calls,
    (visit.start :: visit.outer).Pairwise (· ≥ ·)))

/-! ## What is done at a call -/

/-- The first replacement whose source has the names of a chain. -/
def Chain.replacement? (chain : Chain) (bindings : Bindings) (rules : List Rule) :
    Option Replacement :=
  (replacements bindings rules).find? fun replacement => replacement.source.names == chain.names

/-- Whether advisories are those that a rule has about a call with a number of arguments: it
gets one when the rule converts a callback at a position that has an argument, and another one
when the function is the one whose result has changed. -/
inductive Rule.Advises (rule : Rule) (arguments : Nat) : List Advisory → Prop
  | nothing (short : ∀ position, rule.callback = some position → arguments ≤ position) :
    Advises rule arguments []
  | callback {position : Nat} (converts : rule.callback = some position)
      (passed : position < arguments) (other : rule.source.last ≠ contextFunction) :
    Advises rule arguments [.callbackToPromise]
  | context {position : Nat} (converts : rule.callback = some position)
      (passed : position < arguments) (same : rule.source.last = contextFunction) :
    Advises rule arguments [.callbackToPromise, .contextSchemaChanged]

/-- Whether a position is where the outermost node around a start begins that begins on its
line. -/
def OutermostStart (body : Text) (around : List Nat) (start position : Nat) : Prop :=
  ((start :: around).filter fun outer => body.lineIndex outer == body.lineIndex start).getLast? =
    some position

/-- The comments at a position that do not stand directly above it already. -/
def missingComments (body : Text) (position : Nat) (advisories : List Advisory) : List Edit :=
  (advisories.filter fun advisory => !(Advisory.above body position).contains advisory).map
    fun advisory => ⟨Span.point position, advisory.insertion body position⟩

/-- What is done at a call. -/
structure CallDeed where
  comments : List Edit := []
  replaced : Option Edit := none
  unmatched : Bool := false

/-- The edits at a call. -/
def CallDeed.edits (deed : CallDeed) : List Edit := deed.comments ++ deed.replaced.toList

/-- What the rules say is done at a call. -/
inductive Deals (body : Text) (bindings : Bindings) (rules : List Rule) : Visit → CallDeed → Prop
  | unnamed {site : CallSite} {around : List Nat} (callee : site.callee.chain? = none) :
    Deals body bindings rules (.call site around) {}
  | unmatched {site : CallSite} {around : List Nat} {chain : Chain}
      (callee : site.callee.chain? = some chain)
      (none : chain.replacement? bindings rules = none) :
    Deals body bindings rules (.call site around) { unmatched := bindings.tracks chain.root }
  | matched {site : CallSite} {around : List Nat} {chain : Chain} {replacement : Replacement}
      {advisories : List Advisory} {position : Nat} (callee : site.callee.chain? = some chain)
      (first : chain.replacement? bindings rules = some replacement)
      (advises : replacement.rule.Advises site.arguments.length advisories)
      (outermost : OutermostStart body around site.start position) :
    Deals body bindings rules (.call site around) {
      comments := missingComments body position advisories
      replaced := if replacement.isIdentity then Option.none
        else some ⟨chain.span, chain.render replacement.target⟩ }

/-- A report that counts what is done at calls. -/
def Report.afterCalls (report : Report) (deeds : List CallDeed) : Report :=
  { report with
    rewrittenCalls := report.rewrittenCalls + deeds.countP fun deed => deed.replaced.isSome
    flaggedCalls := report.flaggedCalls + deeds.countP fun deed => !deed.comments.isEmpty
    unmatchedReferences := report.unmatchedReferences + deeds.countP (·.unmatched) }

/-! ## Places for comments -/

theorem Text.lineIndex_mono (body : Text) {a b : Nat} (h : a ≤ b) :
    body.lineIndex a ≤ body.lineIndex b :=
  (List.take_sublist_take_left h).countP_le

/-- Around nested nodes, a comment goes to the start of the outermost node on the line. -/
theorem outermostStart_insertionPoint (body : Text) {around : List Nat} {start : Nat}
    (h : (start :: around).Pairwise (· ≥ ·)) :
    OutermostStart body around start (insertionPoint body.lineIndex around start) := by
  unfold OutermostStart
  induction around generalizing start with
  | nil => simp [insertionPoint]
  | cons outer rest ih =>
    obtain ⟨hstart, hrest⟩ := List.pairwise_cons.mp h
    have houter : outer ≤ start := hstart outer (.head rest)
    by_cases hline : body.lineIndex outer = body.lineIndex start
    · have hnext := ih hrest
      have hpoint : insertionPoint body.lineIndex (outer :: rest) start =
          insertionPoint body.lineIndex rest outer := by
        simp [insertionPoint, hline, Nat.min_eq_right houter]
      rw [hpoint, List.filter_cons_of_pos (by simp)]
      simp only [hline] at hnext
      rw [← hnext, List.filter_cons_of_pos (by simpa using hline)]
      rfl
    · -- The nodes further out begin on lines before that of this one.
      have hbefore : ∀ position ∈ outer :: rest,
          ¬((body.lineIndex position == body.lineIndex start) = true) := by
        intro position hposition
        have hle : position ≤ outer := by
          rcases List.mem_cons.mp hposition with rfl | hposition
          · exact Nat.le_refl _
          · exact (List.pairwise_cons.mp hrest).1 position hposition
        have hfirst := body.lineIndex_mono hle
        have hsecond := body.lineIndex_mono houter
        rw [beq_iff_eq]
        omega
      rw [List.filter_cons_of_pos (by simp), List.filter_eq_nil_iff.mpr hbefore]
      simp [insertionPoint, hline]

/-! ## One call -/

namespace Draft

/-- Comments at a place that no edit overlaps are all written, but for those that stand above
it. -/
theorem insertComments_of_free {draft : Draft} {body : Text} {position : Nat}
    (advisories : List Advisory) (hfree : ∀ held ∈ draft.edits.held, ∀ newText,
      held.overlaps ⟨Span.point position, newText⟩ = false) :
    draft.insertComments body position advisories =
      ({ draft with edits := ⟨draft.edits.held ++ missingComments body position advisories⟩ },
        !(missingComments body position advisories).isEmpty) := by
  unfold insertComments
  rw [← Bool.false_or (!List.isEmpty _)]
  generalize false = inserted
  induction advisories generalizing draft inserted with
  | nil => simp [missingComments]
  | cons advisory rest ih =>
    simp only [List.foldl_cons]
    by_cases hpresent : (Advisory.above body position).contains advisory = true
    · have hmissing : missingComments body position (advisory :: rest) =
          missingComments body position rest := by
        rw [missingComments, List.filter_cons_of_neg (by rw [hpresent]; decide), missingComments]
      rw [if_pos hpresent, hmissing]
      exact ih hfree inserted
    · have hmissing : missingComments body position (advisory :: rest) =
          ⟨Span.point position, advisory.insertion body position⟩ ::
            missingComments body position rest := by
        rw [missingComments, List.filter_cons_of_pos (by simpa using hpresent),
          List.map_cons, missingComments]
      have hadded : ∀ held ∈ (draft.edits.append
          ⟨Span.point position, advisory.insertion body position⟩).held, ∀ newText,
          held.overlaps ⟨Span.point position, newText⟩ = false := by
        intro held hheld newText
        rcases List.mem_append.mp hheld with hheld | hheld
        · exact hfree held hheld newText
        · rw [List.mem_singleton.mp hheld]
          exact Landmarks.point_not_overlaps _ _ (Or.inl (Nat.le_refl _))
      simp only [if_neg hpresent, tryEdit_of_free fun held hheld => hfree held hheld _]
      rw [ih hadded, hmissing]
      simp [Edits.append]

theorem advises_callAdvisories (rule : Rule) (arguments : Nat) :
    rule.Advises arguments (callAdvisories rule arguments) := by
  unfold callAdvisories
  cases hcallback : rule.callback with
  | none => exact .nothing fun position h => absurd (hcallback.symm.trans h) nofun
  | some position =>
    by_cases hpassed : position < arguments
    · simp only [if_pos hpassed]
      split
      · next hsame => exact .context hcallback hpassed hsame
      · next hother => exact .callback hcallback hpassed hother
    · simp only [if_neg hpassed]
      refine .nothing fun other hother => ?_
      obtain rfl := Option.some.inj (hcallback.symm.trans hother)
      exact Nat.not_lt.mp hpassed

section Call

variable {draft : Draft} {body : Text} {lo hi : Nat} {marks : Landmarks} {bindings : Bindings}
  {rules : List Rule}

/-- At a place that no edit overlaps, all missing comments about a call are written, and the call
counts when there are some. -/
theorem flagCall_of_free (site : CallSite) (around : List Nat) (advisories : List Advisory)
    (hfree : ∀ held ∈ draft.edits.held, ∀ newText, held.overlaps
      ⟨Span.point (insertionPoint body.lineIndex around site.start), newText⟩ = false) :
    let comments := missingComments body (insertionPoint body.lineIndex around site.start)
      advisories
    draft.flagCall body site around advisories =
      { draft with
        edits := ⟨draft.edits.held ++ comments⟩
        report := draft.report.afterCalls [{ comments := comments }] } := by
  intro comments
  cases advisories with
  | nil => simp [flagCall, comments, missingComments, Report.afterCalls]
  | cons first rest =>
    simp only [flagCall, insertComments_of_free (first :: rest) hfree]
    cases hcomments : missingComments body (insertionPoint body.lineIndex around site.start)
        (first :: rest) with
    | nil => simp [comments, hcomments, Report.afterCalls]
    | cons comment others => simp [comments, hcomments, Report.afterCalls, count]

/-- A callee that no edit overlaps is replaced, unless its replacement changes nothing, and the
call counts when it is. -/
theorem replaceCallee_of_free {chain : Chain} (replacement : Replacement)
    (hfree : ∀ held ∈ draft.edits.held,
      held.overlaps ⟨chain.span, chain.render replacement.target⟩ = false) :
    let replaced : Option Edit := if replacement.isIdentity then none
      else some ⟨chain.span, chain.render replacement.target⟩
    let after := draft.replaceCallee chain replacement
    after.edits.held = draft.edits.held ++ replaced.toList ∧
      after.report = draft.report.afterCalls [{ replaced := replaced }] := by
  cases hidentity : replacement.isIdentity with
  | true => simp [replaceCallee, hidentity, recordMatch, addNotes, Report.afterCalls]
  | false =>
    simp [replaceCallee, hidentity, tryEdit_of_free hfree, recordMatch, addNotes, count,
      Edits.append, Report.afterCalls]

/-- What is looked up for a chain is the first replacement for its names. -/
theorem find?_eq_replacement? (hdots : NoDots bindings rules) {chain : Chain}
    (hchain : chain.Placed body lo hi) :
    (Lookups.build bindings rules).1.find? chain.names = chain.replacement? bindings rules :=
  Lookups.find?_build hdots.replacements (by simp [Chain.names, Chain.segments])
    fun _ hname => hchain.dotFree hname

/-- A call is dealt with as the rules say when no edit has touched its chain. -/
theorem rewriteCall_deals (hplaced : marks.Placed body lo hi) (hdots : NoDots bindings rules)
    (hlearns : bindings.Learns .any draft.bindings) {visit : Visit} (hcall : visit.isCall = true)
    (hmarked : visit.Marked marks []) (hnested : (visit.start :: visit.outer).Pairwise (· ≥ ·))
    (hmem : ∀ chain, visit.chain? = some chain → chain ∈ marks.chains)
    (hfree : ∀ chain, visit.chain? = some chain →
      ∀ held ∈ draft.edits.held, marks.Within (· ≠ chain) held) :
    let after := draft.rewriteCall body (Lookups.build bindings rules).1 visit
    ∃ deed, Deals body bindings rules visit deed ∧
      after.edits.held = draft.edits.held ++ deed.edits ∧
      after.report = draft.report.afterCalls [deed] := by
  cases visit with
  | identifier id around => cases hcall
  | call site around =>
    cases hchain : site.callee.chain? with
    | none =>
      refine ⟨{}, .unnamed hchain, ?_, ?_⟩ <;>
        simp [rewriteCall, hchain, CallDeed.edits, Report.afterCalls]
    | some chain =>
      have hin := hmem chain hchain
      have hlookup := find?_eq_replacement? hdots (hplaced.chains chain hin)
      cases hfound : chain.replacement? bindings rules with
      | none =>
        refine ⟨_, .unmatched hchain hfound, ?_⟩
        rw [← hlearns.tracks_eq]
        simp only [rewriteCall, hchain, hlookup, hfound]
        cases draft.bindings.tracks chain.root <;>
          simp [CallDeed.edits, Report.afterCalls, addNotes, count]
      | some replacement =>
        have hheld := hfree chain hchain
        have hpoint := hplaced.free_insertionPoint body.lineIndex hmarked
        have hflagged := flagCall_of_free site around
          (callAdvisories replacement.rule site.arguments.length) fun held hmem newText =>
            Landmarks.Placed.not_overlaps_point hpoint (hheld held hmem) newText
        refine ⟨_, .matched hchain hfound (advises_callAdvisories _ _)
          (outermostStart_insertionPoint body hnested), ?_⟩
        simp only [rewriteCall, hchain, hlookup, hfound]
        have hcomments : draft.Continues (marks.Within (· ≠ chain)) .any (draft.flagCall body site
            around (callAdvisories replacement.rule site.arguments.length)) :=
          continues_flagCall _ fun advisory _ => hplaced.within_comment hmarked advisory
        have hwithin := hcomments.forall_held hheld fun _ h => h
        obtain ⟨hedits, hreport⟩ := replaceCallee_of_free replacement
          fun held hmem => hplaced.not_overlaps_chain hin (hwithin held hmem) _
        rw [hedits, hreport, hflagged]
        constructor
        · simp [CallDeed.edits]
        · simp [Report.afterCalls]

end Call

/-! ## All calls -/

theorem afterCalls_cons (report : Report) (deed : CallDeed) (deeds : List CallDeed) :
    (report.afterCalls [deed]).afterCalls deeds = report.afterCalls (deed :: deeds) := by
  simp only [Report.afterCalls, List.countP_cons, List.countP_nil, Report.mk.injEq, and_true,
    true_and]
  omega

/-- Whether a stop of a walk is a call among landmarks that nested nodes stand around. -/
structure CallAt (marks : Landmarks) (visit : Visit) : Prop where
  call : visit.isCall = true
  marked : visit.Marked marks []
  nested : (visit.start :: visit.outer).Pairwise (· ≥ ·)
  chain : ∀ chain, visit.chain? = some chain → chain ∈ marks.chains

/-- What is done at one call touches no other chain. -/
theorem within_rewriteCall {draft : Draft} {body : Text} {lo hi : Nat} {marks : Landmarks}
    {bindings : Bindings} (rules : List Rule) (hplaced : marks.Placed body lo hi)
    (hlearns : bindings.Learns .any draft.bindings) {visit : Visit} (hcall : CallAt marks visit) :
    draft.Continues (marks.Within fun chain => visit.chain? = some chain) .any
      (draft.rewriteCall body (Lookups.build bindings rules).1 visit) :=
  continues_rewriteCall (allows_any rules) hlearns
    (fun _ => hplaced.within_comment hcall.marked) fun chain hchain _ _ _ =>
      .name (hcall.chain chain hchain) hchain (Nat.le_refl _) (Nat.le_refl _)

theorem within_imp {marks : Landmarks} {inside other : Chain → Prop} {edit : Edit}
    (h : marks.Within inside edit) (himp : ∀ chain, inside chain → other chain) :
    marks.Within other edit := by
  cases h with
  | comment newText free => exact .comment newText free
  | name mem hinside start_le le_stop => exact .name mem (himp _ hinside) start_le le_stop

/-- Calls of different chains are dealt with one after the other, each as the rules say. -/
theorem foldl_rewriteCall_deals {draft : Draft} {body : Text} {lo hi : Nat} {marks : Landmarks}
    {bindings : Bindings} {rules : List Rule} (hplaced : marks.Placed body lo hi)
    (hdots : NoDots bindings rules) {calls : List Visit}
    (hcalls : ∀ visit ∈ calls, CallAt marks visit)
    (hnodup : (calls.filterMap Visit.chain?).Nodup) (hlearns : bindings.Learns .any draft.bindings)
    (hfree : ∀ chain ∈ calls.filterMap Visit.chain?,
      ∀ held ∈ draft.edits.held, marks.Within (· ≠ chain) held) :
    let after := calls.foldl (rewriteCall body (Lookups.build bindings rules).1) draft
    ∃ deeds, List.Forall₂ (Deals body bindings rules) calls deeds ∧
      after.edits.held = draft.edits.held ++ deeds.flatMap CallDeed.edits ∧
      after.report = draft.report.afterCalls deeds := by
  induction calls generalizing draft with
  | nil => exact ⟨[], .nil, by simp, by simp [Report.afterCalls]⟩
  | cons visit rest ih =>
    have hcall := hcalls visit (.head rest)
    have hown : ∀ chain, visit.chain? = some chain →
        chain ∈ (visit :: rest).filterMap Visit.chain? := fun chain hchain =>
      List.mem_filterMap.mpr ⟨visit, .head rest, hchain⟩
    have hrest : ∀ chain ∈ rest.filterMap Visit.chain?,
        chain ∈ (visit :: rest).filterMap Visit.chain? ∧ visit.chain? ≠ some chain := by
      intro chain hmem
      rw [List.filterMap_cons] at hnodup ⊢
      cases hchain : visit.chain? with
      | none => exact ⟨hmem, nofun⟩
      | some first =>
        rw [hchain] at hnodup
        refine ⟨.tail first hmem, ?_⟩
        rintro ⟨⟩
        exact (List.nodup_cons.mp hnodup).1 hmem
    obtain ⟨deed, hdeed, hedits, hreport⟩ := rewriteCall_deals hplaced hdots hlearns hcall.call
      hcall.marked hcall.nested hcall.chain fun chain hchain => hfree chain (hown chain hchain)
    have hstep := within_rewriteCall rules hplaced hlearns hcall
    obtain ⟨deeds, hdeeds, hlater, hcount⟩ := ih
      (fun other hother => hcalls other (.tail visit hother))
      (hnodup.sublist ((List.sublist_cons_self visit rest).filterMap _))
      (hlearns.trans hstep.bindings) fun chain hchain =>
        hstep.forall_held (hfree chain (hrest chain hchain).1) fun edit hedit =>
          within_imp hedit fun found hfound hsame => (hrest chain hchain).2 (hsame ▸ hfound)
    refine ⟨deed :: deeds, .cons hdeed hdeeds, ?_, ?_⟩
    · rw [List.foldl_cons, hlater, hedits, List.flatMap_cons, List.append_assoc]
    · rw [List.foldl_cons, hcount, hreport, afterCalls_cons]

end Draft

/-! ## The stage -/

section Stage

variable {draft : Draft} {body : Text} {program : Program} {rules : List Rule}

theorem Program.filterMap_calls (program : Program) :
    program.calls.filterMap Visit.chain? = allCallChains program.items := by
  have hwalk : (program.visits fun _ => false).filterMap Visit.chain? =
      allCallChains program.items := visitsAll_chains (by simp) program.items []
  rw [← hwalk, Program.calls, List.filterMap_filter]
  congr 1
  funext visit
  cases visit with
  | call site around => rfl
  | identifier id around => rfl

theorem Program.callAt (hnested : program.Nested) {visit : Visit} (h : visit ∈ program.calls) :
    Draft.CallAt (allLandmarks program.items) visit where
  call := (List.mem_filter.mp h).2
  marked := visitsAll_marked _ program.items [] visit (List.mem_filter.mp h).1
  nested := hnested visit h
  chain chain hchain := by
    refine Draft.mem_chains_of_call ?_
    rw [← program.filterMap_calls]
    exact List.mem_filterMap.mpr ⟨visit, h, hchain⟩

theorem Draft.consistent_rewriteCalls (rules : List Rule) (hplaced : program.Placed body)
    (hconsistent : draft.edits.Consistent) :
    (draft.rewriteCalls body program rules).edits.Consistent := by
  have hstage : draft.Continues ((allLandmarks program.items).Within fun _ => True) .any
      (draft.rewriteCalls body program rules) :=
    continues_rewriteCalls_within hplaced.landmarks (allows_any rules) fun _ _ _ _ _ => trivial
  exact hstage.consistent hconsistent

/-- A chain that is looked up in vain, or whose replacement changes nothing, is not touched. -/
theorem Draft.reads_rewriteCalls_untouched (hplaced : program.Placed body)
    (hedits : draft.edits.held = []) {chain : Chain}
    (hchain : chain ∈ (allLandmarks program.items).chains) (hnone : ∀ replacement,
      (Lookups.build draft.bindings rules).1.find? chain.names = some replacement →
        replacement.isIdentity = true) :
    (draft.rewriteCalls body program rules).edits.Reads body chain.span
      (body.slice chain.span) := by
  have hconsistent :=
    consistent_rewriteCalls rules hplaced (Edits.consistent_of_held_eq_nil hedits)
  refine hconsistent.reads_untouched body
    (hplaced.landmarks.chains chain hchain).start_lt_stop fun held hheld => ?_
  have hstage : draft.Continues ((allLandmarks program.items).Within (· ≠ chain)) .any
      (draft.rewriteCalls body program rules) :=
    continues_rewriteCalls_within hplaced.landmarks (allows_any rules)
      fun other _ replacement hfound hchanges hsame => by
        rw [hnone replacement (hsame ▸ hfound)] at hchanges
        cases hchanges
  have hother := hstage.forall_held (by simp [hedits]) (fun _ h => h) held hheld
  exact hplaced.landmarks.not_overlaps_chain hchain hother []

/-- Behind the stage, a called chain reads as what is done at its call says. -/
theorem Draft.reads_of_deals (hplaced : program.Placed body) (hnested : program.Nested)
    (hdots : NoDots draft.bindings rules) (hedits : draft.edits.held = []) {visit : Visit}
    (hvisit : visit ∈ program.calls) {deed : CallDeed}
    (hdeals : Deals body draft.bindings rules visit deed)
    (hheld : ∀ edit ∈ deed.edits, edit ∈ (draft.rewriteCalls body program rules).edits.held)
    {chain : Chain} (hchain : visit.chain? = some chain) :
    (draft.rewriteCalls body program rules).edits.Reads body chain.span
      ((deed.replaced.map Edit.newText).getD (body.slice chain.span)) := by
  have hmem := (Program.callAt hnested hvisit).chain chain hchain
  have hlookup := find?_eq_replacement? hdots (hplaced.landmarks.chains chain hmem)
  cases hdeals with
  | unnamed callee => exact absurd (callee.symm.trans hchain) nofun
  | unmatched callee none =>
    obtain rfl := Option.some.inj (callee.symm.trans hchain)
    refine reads_rewriteCalls_untouched hplaced hedits hmem fun replacement hfound => ?_
    rw [hlookup, none] at hfound
    cases hfound
  | @matched site around found replacement advisories position callee first advises outermost =>
    obtain rfl := Option.some.inj (callee.symm.trans hchain)
    cases hidentity : replacement.isIdentity with
    | true =>
      refine reads_rewriteCalls_untouched hplaced hedits hmem fun other hfound => ?_
      rw [hlookup, first] at hfound
      exact Option.some.inj hfound ▸ hidentity
    | false =>
      have hreplaced : (⟨found.span, found.render replacement.target⟩ : Edit) ∈
          (draft.rewriteCalls body program rules).edits.held :=
        hheld _ (by simp [CallDeed.edits, hidentity])
      have hconsistent :=
        consistent_rewriteCalls rules hplaced (Edits.consistent_of_held_eq_nil hedits)
      exact hconsistent.reads_held body hreplaced
        (hplaced.landmarks.chains found hmem).start_lt_stop

/-- **What the stage of calls does.**  Suppose that the nodes around calls are nested and that no
bound name and no source of a rule has a dot.  Then everything that the stage does is what the
rules say about the calls of the program one by one: its edits are those of the calls, none of
which is refused, its counts grow by what is done at the calls, and the chain that is called reads
as its replacement, or as before where there is none or it changes nothing. -/
theorem Draft.rewriteCalls_deals (hplaced : program.Placed body) (hnested : program.Nested)
    (hdots : NoDots draft.bindings rules) (hedits : draft.edits.held = []) :
    let after := draft.rewriteCalls body program rules
    ∃ deeds, List.Forall₂ (fun visit deed => Deals body draft.bindings rules visit deed ∧
        ∀ chain, visit.chain? = some chain → after.edits.Reads body chain.span
          ((deed.replaced.map Edit.newText).getD (body.slice chain.span))) program.calls deeds ∧
      after.edits.held = deeds.flatMap CallDeed.edits ∧ after.edits.Consistent ∧
      after.report = draft.report.afterCalls deeds := by
  intro after
  have hcalls : after = program.calls.foldl
      (rewriteCall body (Lookups.build draft.bindings rules).1)
      (draft.addNotes (Lookups.build draft.bindings rules).2) := rewriteCalls_eq_calls
  have hnodup : (program.calls.filterMap Visit.chain?).Nodup := by
    rw [program.filterMap_calls]
    exact (List.nodup_append.mp (nodup_sites hplaced.landmarks)).1
  have hlearns : draft.bindings.Learns .any
      (draft.addNotes (Lookups.build draft.bindings rules).2).bindings := .refl _
  obtain ⟨deeds, hdeeds, hheld, hreport⟩ := foldl_rewriteCall_deals hplaced.landmarks hdots
    (fun visit => Program.callAt hnested) hnodup hlearns
    fun chain _ held hmem => by simp [addNotes, hedits] at hmem
  rw [← hcalls] at hheld hreport
  rw [show (draft.addNotes (Lookups.build draft.bindings rules).2).edits.held = [] from hedits,
    List.nil_append] at hheld
  refine ⟨deeds, ?_, hheld,
    consistent_rewriteCalls rules hplaced (Edits.consistent_of_held_eq_nil hedits), hreport⟩
  obtain ⟨hlength, hpairs⟩ := List.forall₂_iff_zip.mp hdeeds
  refine List.forall₂_iff_zip.mpr ⟨hlength, fun {visit deed} hzip => ?_⟩
  obtain ⟨hvisit, hdeed⟩ := List.of_mem_zip hzip
  refine ⟨hpairs hzip, fun chain hchain => ?_⟩
  refine reads_of_deals hplaced hnested hdots hedits hvisit (hpairs hzip) (fun edit hedit => ?_)
    hchain
  have hmem : edit ∈ deeds.flatMap CallDeed.edits := List.mem_flatMap.mpr ⟨deed, hdeed, hedit⟩
  rwa [← hheld] at hmem

end Stage

/-- A draft of a file that imports the module under one name, before anything is rewritten. -/
def namespaceDraft : Draft := { bindings.whole := [{ name := "teams", style := .namespace }] }

theorem namespaceDraft_noDots {rules : List Rule} (h : rules ⊆ MappingTable.builtIn.rules) :
    NoDots namespaceDraft.bindings rules where
  localNames := by simp [namespaceDraft, Bindings.localNames, DotFree]
  sources _ hrule _ := BuiltIn.dotFree_source (h hrule)

/-- A file with calls in the arguments of calls. -/
private def nestedCalls : Text :=
  ("teams?.getContext((c) => \x7b teams.settings.setValidityState(teams.close()); \x7d);\n" ++
    "import * as teams from \"@microsoft/teams-js\";\n").toList

private theorem nestedCalls_facts :
    ∃ program ∈ Program.read? ⟨true, false, true⟩ nestedCalls, program.Nested ∧
      (namespaceDraft.rewriteCalls nestedCalls program BuiltIn.functions).report =
        { rewrittenCalls := 2, flaggedCalls := 1, unmatchedReferences := 1 } := by
  decide +kernel

/-- The calls of the file are dealt with one by one: two are rewritten, one gets comments, and
one is not known. -/
theorem nestedCalls_deals :
    ∃ program deeds, Program.read? ⟨true, false, true⟩ nestedCalls = some program ∧
      program.Placed nestedCalls ∧ program.Nested ∧
      NoDots namespaceDraft.bindings BuiltIn.functions ∧ namespaceDraft.edits.held = [] ∧
      List.Forall₂ (Deals nestedCalls namespaceDraft.bindings BuiltIn.functions) program.calls
        deeds ∧
      namespaceDraft.report.afterCalls deeds =
        { rewrittenCalls := 2, flaggedCalls := 1, unmatchedReferences := 1 } := by
  obtain ⟨program, hread, hnested, hreport⟩ := nestedCalls_facts
  have hdots := namespaceDraft_noDots BuiltIn.functions_subset
  obtain ⟨deeds, hdeeds, -, -, hcounts⟩ :=
    Draft.rewriteCalls_deals (Program.placed_of_read hread) hnested hdots rfl
  exact ⟨program, deeds, hread, Program.placed_of_read hread, hnested, hdots, rfl,
    hdeeds.imp fun _ _ h => h.1, hcounts ▸ hreport⟩

end SdkMigration
