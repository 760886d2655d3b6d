import SdkMigration.Proofs.Checked.Basic
import SdkMigration.Proofs.ImportSites
import SdkMigration.Proofs.Stages.Leftovers

/-!
# The stages at stops of a walk, with their checks

The stages of calls, types and leftovers, and the search for loads that cannot be
followed, go from stop to stop.  At each of them the places of comments are in the text,
because the stops and the nodes around them are, and a match is recorded for a binding
that was there when the lookups were built and still is.
-/

namespace SdkMigration

/-! ## Stops in the text -/

/-- Whether a stop and the nodes around it start in a text. -/
structure Visit.Inside (text : Text) (visit : Visit) : Prop where
  start : visit.start ≤ text.length
  outer : ∀ outer ∈ visit.outer, outer ≤ text.length

section Stops

variable {body : Text} {program : Program}

theorem Program.Placed.inside (h : program.Placed body) {consumes : CallSite → Bool}
    {visit : Visit} (hvisit : visit ∈ program.visits consumes) : visit.Inside body := by
  have hmarked := visitsAll_marked consumes program.items [] visit hvisit
  refine ⟨h.landmarks.start_le hmarked, fun outer houter => ?_⟩
  rcases hmarked.outer outer houter with hnil | hpoint
  · cases hnil
  · exact (h.landmarks.points outer hpoint).2

theorem Visit.Inside.insertionPoint?_eq {visit : Visit} (h : visit.Inside body) :
    insertionPoint? body visit.outer visit.start =
      some (insertionPoint body.lineIndex visit.outer visit.start) :=
  SdkMigration.insertionPoint?_eq h.start h.outer

theorem Visit.Inside.place_le {visit : Visit} (h : visit.Inside body) :
    insertionPoint body.lineIndex visit.outer visit.start ≤ body.length :=
  Nat.le_trans (insertionPoint_le_start _ _ _) h.start

end Stops

/-! ## Loads -/

/-- The load of the module at a stop of a walk, if there is one. -/
def checkedLoad? (text : Text) (module : String) : Visit → Option (Option OpaqueLoad)
  | .call site around =>
    match site.loadKind? with
    | some kind =>
      if firstText? site.arguments = some module then do
        let position ← insertionPoint? text around site.start
        return some ⟨kind, position⟩
      else some none
    | none => some none
  | .identifier _ _ => some none

/-- Where a program meets the module. -/
def Program.importSites? (program : Program) (text : Text) (module globalName : String) :
    Option ImportSites := do
  let found ← (program.visits fun _ => false).mapM (checkedLoad? text module)
  let start : ImportSites :=
    { opaqueLoads := found.filterMap id
      aliasMentioned := anyMentions globalName program.items
      aliasDeclared := anyDeclares globalName program.items
      firstItem := program.items.head?.map Tree.start }
  return program.items.foldl (ImportSites.addItem module) start

theorem checkedLoad?_eq {body : Text} {visit : Visit} (h : visit.Inside body) (module : String) :
    checkedLoad? body module visit = some (opaqueLoad? body module visit) := by
  cases visit with
  | identifier id around => rfl
  | call site around =>
    have hplace : insertionPoint? body around site.start =
        some (insertionPoint body.lineIndex around site.start) := h.insertionPoint?_eq
    cases hkind : site.loadKind? with
    | none => simp only [checkedLoad?, opaqueLoad?, hkind]
    | some kind =>
      simp only [checkedLoad?, opaqueLoad?, hkind, hplace, Option.bind_eq_bind, Option.bind_some]
      split <;> rfl

theorem Program.importSites?_eq {body : Text} {program : Program} (hplaced : program.Placed body)
    (module globalName : String) : program.importSites? body module globalName =
      some (program.importSites body module globalName) := by
  have hfound : ∀ visits : List Visit, (∀ visit ∈ visits, visit.Inside body) →
      visits.mapM (checkedLoad? body module) = some (visits.map (opaqueLoad? body module)) := by
    intro visits
    induction visits with
    | nil => exact fun _ => rfl
    | cons first rest ih =>
      intro hinside
      simp only [List.mapM_cons, checkedLoad?_eq (hinside first List.mem_cons_self),
        ih fun visit hvisit => hinside visit (List.mem_cons_of_mem _ hvisit), List.map_cons]
      rfl
  simp only [importSites?, hfound _ fun visit hvisit => hplaced.inside hvisit,
    Option.bind_eq_bind, Option.bind_some, List.filterMap_map, Function.id_comp]
  rfl

/-! ## Calls and types -/

namespace Draft

/-- Writes the comments for a call. -/
def flagCall? (draft : Draft) (text : Text) (site : CallSite) (around : List Nat)
    (advisories : List Advisory) : Option Draft :=
  match advisories with
  | [] => some draft
  | _ => do
    let position ← insertionPoint? text around site.start
    let (flagged, inserted) ← draft.insertComments? text position advisories
    return if inserted then
      flagged.count fun report => { report with flaggedCalls := report.flaggedCalls + 1 }
    else flagged

/-- Carries out a replacement by an edit, unless it changes nothing. -/
def carryOut? (draft : Draft) (edit : Edit) (tally : Report → Report)
    (replacement : Replacement) : Option Draft :=
  if replacement.isIdentity then
    draft.recordMatch? replacement.origin replacement.target
  else
    let (edited, done) := draft.tryEdit edit
    if done then (edited.count tally).recordMatch? replacement.origin replacement.target
    else some edited

/-- Deals with a call. -/
def rewriteCall? (text : Text) (lookups : Lookups) (draft : Draft) (visit : Visit) :
    Option Draft :=
  match visit with
  | .identifier _ _ => some draft
  | .call site around =>
    match site.callee.chain? with
    | none => some draft
    | some chain =>
      match lookups.find? chain.names with
      | some replacement => do
        let flagged ← draft.flagCall? text site around
          (callAdvisories replacement.rule site.arguments.length)
        let span ← chain.span?
        let newText ← chain.render? replacement.target
        flagged.carryOut? ⟨span, newText⟩
          (fun report => { report with rewrittenCalls := report.rewrittenCalls + 1 }) replacement
      | none => do
        let root ← chain.root?
        return if draft.bindings.tracks root then
          (draft.addNotes [.noFunctionRule chain.dotted]).count fun report =>
            { report with unmatchedReferences := report.unmatchedReferences + 1 }
        else draft

/-- Deals with all calls of a program. -/
def rewriteCalls? (draft : Draft) (text : Text) (program : Program) (rules : List Rule) :
    Option Draft :=
  if draft.bindings.isEmpty then some draft
  else do
    let (lookups, notes) ← Lookups.build? draft.bindings rules
    let stops := program.visits fun site => (lookups.forCall? site).isSome
    stops.foldlM (rewriteCall? text lookups) (draft.addNotes notes)

/-- Deals with a name of a type. -/
def rewriteType? (lookups : Lookups) (draft : Draft) (chain : Chain) : Option Draft :=
  match lookups.find? chain.names with
  | none => some draft
  | some replacement => do
    let span ← chain.span?
    draft.carryOut? ⟨span, replacement.target.dotted.toList⟩
      (fun report => { report with rewrittenTypes := report.rewrittenTypes + 1 }) replacement

/-- Deals with all names of types in a program. -/
def rewriteTypes? (draft : Draft) (program : Program) (rules : List Rule) : Option Draft :=
  if draft.bindings.isEmpty then some draft
  else do
    let (lookups, notes) ← Lookups.build? draft.bindings rules
    (allTypeChains program.items).foldlM (rewriteType? lookups) (draft.addNotes notes)

section Sites

variable {body : Text} {program : Program} {draft : Draft} {bindings : Bindings}
  {rules : List Rule}

theorem flagCall?_eq (draft : Draft) {site : CallSite} {around : List Nat}
    (h : (Visit.call site around).Inside body) (advisories : List Advisory) :
    draft.flagCall? body site around advisories =
      some (draft.flagCall body site around advisories) := by
  cases advisories with
  | nil => rfl
  | cons first rest =>
    have hpoint : insertionPoint? body around site.start =
        some (insertionPoint body.lineIndex around site.start) := h.insertionPoint?_eq
    have hcomments : draft.insertComments? body
        (insertionPoint body.lineIndex around site.start) (first :: rest) = some _ :=
      insertComments?_eq draft h.place_le _
    simp only [flagCall?, hpoint, hcomments, Option.bind_eq_bind, Option.bind_some]
    rfl

/-- A match is recorded for a binding that the lookups were built from. -/
theorem carryOut?_eq (edit : Edit) (tally : Report → Report) {replacement : Replacement}
    (h : replacement ∈ replacements bindings rules)
    (hlearns : bindings.Learns .any draft.bindings) :
    draft.carryOut? edit tally replacement = some (draft.carryOut edit tally replacement) := by
  have hhas := hlearns.has (has_origin h)
  unfold carryOut? carryOut
  split
  · exact recordMatch?_eq hhas _
  · have hbindings : (draft.tryEdit edit).1.bindings = draft.bindings :=
      tryEdit_bindings draft edit _
    generalize draft.tryEdit edit = result at hbindings ⊢
    obtain ⟨edited, done⟩ := result
    cases done with
    | false => rfl
    | true =>
      refine recordMatch?_eq ?_ _
      show edited.bindings.Has replacement.origin
      rw [hbindings]
      exact hhas

theorem rewriteCall?_eq (hlearns : bindings.Learns .any draft.bindings) {visit : Visit}
    (hinside : visit.Inside body)
    (hchains : ∀ chain, visit.chain? = some chain → ∃ lo hi, chain.Placed body lo hi) :
    rewriteCall? body (Lookups.build bindings rules).1 draft visit =
      some (draft.rewriteCall body (Lookups.build bindings rules).1 visit) := by
  cases visit with
  | identifier id around => rfl
  | call site around =>
    cases hchain : site.callee.chain? with
    | none => simp only [rewriteCall?, rewriteCall, hchain]
    | some chain =>
      cases hfound : (Lookups.build bindings rules).1.find? chain.names with
      | none =>
        simp only [rewriteCall?, rewriteCall, hchain, hfound, chain.root?_eq]
        rfl
      | some replacement =>
        obtain ⟨lo, hi, hplaced⟩ := hchains chain hchain
        have hflagged : draft.Continues (fun _ => True) .any (draft.flagCall body site around
            (callAdvisories replacement.rule site.arguments.length)) :=
          continues_flagCall _ fun _ _ => trivial
        simp only [rewriteCall?, rewriteCall, hchain, hfound, flagCall?_eq draft hinside,
          Chain.span?_eq hplaced, Chain.render?_eq, Option.bind_eq_bind, Option.bind_some]
        exact carryOut?_eq _ _ (Lookups.mem_of_find?_build hfound)
          (hlearns.trans hflagged.bindings)

/-- The stage of calls keeps to its checks. -/
theorem rewriteCalls?_eq (hplaced : program.Placed body) (draft : Draft) (rules : List Rule) :
    draft.rewriteCalls? body program rules = some (draft.rewriteCalls body program rules) := by
  unfold rewriteCalls? rewriteCalls
  split
  · rfl
  · simp only [Lookups.build?_eq, Option.bind_eq_bind, Option.bind_some]
    refine foldlM_eq_some (fun later => draft.bindings.Learns .any later.bindings)
      (.refl draft.bindings) fun later hlearns visit hvisit => ⟨?_, ?_⟩
    · refine rewriteCall?_eq hlearns (hplaced.inside hvisit) fun chain hchain => ?_
      refine ⟨_, _, hplaced.landmarks.chains chain (mem_chains_of_call ?_)⟩
      rw [← stops_chains (Lookups.build draft.bindings rules).1 program]
      exact List.mem_filterMap.mpr ⟨visit, hvisit, hchain⟩
    · have hstep : later.Continues (fun _ => True) .any
          (later.rewriteCall body (Lookups.build draft.bindings rules).1 visit) :=
        continues_rewriteCall (allows_any rules) hlearns (fun _ _ => trivial)
          fun _ _ _ _ _ => trivial
      exact hlearns.trans hstep.bindings

theorem rewriteType?_eq (hlearns : bindings.Learns .any draft.bindings) {chain : Chain}
    {lo hi : Nat} (hplaced : chain.Placed body lo hi) :
    rewriteType? (Lookups.build bindings rules).1 draft chain =
      some (draft.rewriteType (Lookups.build bindings rules).1 chain) := by
  cases hfound : (Lookups.build bindings rules).1.find? chain.names with
  | none => simp only [rewriteType?, rewriteType, hfound]
  | some replacement =>
    simp only [rewriteType?, rewriteType, hfound, Chain.span?_eq hplaced, Option.bind_eq_bind,
      Option.bind_some]
    exact carryOut?_eq _ _ (Lookups.mem_of_find?_build hfound) hlearns

/-- The stage of types keeps to its checks. -/
theorem rewriteTypes?_eq (hplaced : program.Placed body) (draft : Draft) (rules : List Rule) :
    draft.rewriteTypes? program rules = some (draft.rewriteTypes program rules) := by
  unfold rewriteTypes? rewriteTypes
  split
  · rfl
  · simp only [Lookups.build?_eq, Option.bind_eq_bind, Option.bind_some]
    refine foldlM_eq_some (fun later => draft.bindings.Learns .any later.bindings)
      (.refl draft.bindings) fun later hlearns chain hchain => ⟨?_, ?_⟩
    · exact rewriteType?_eq hlearns
        (hplaced.landmarks.chains chain (mem_chains_of_type hchain))
    · have hstep : later.Continues (fun _ => True) .any
          (later.rewriteType (Lookups.build draft.bindings rules).1 chain) :=
        continues_rewriteType (allows_any rules) hlearns fun _ _ _ => trivial
      exact hlearns.trans hstep.bindings

end Sites

end Draft

/-! ## References that are left -/

namespace Leftovers

/-- Deals with an identifier. -/
def flag? (text : Text) (dropped : List (String × Nat)) (state : Leftovers) (visit : Visit) :
    Option Leftovers :=
  match visit with
  | .call _ _ => some state
  | .identifier id around =>
    match dropped.lookup id.name with
    | none => some state
    | some index =>
      if state.draft.edits.covers id.span.start then some state
      else do
        let noted := state.draft.addNotes [.unmigratedReference id.name id.span.start]
        let counted := noted.count fun report =>
          { report with flaggedReferences := report.flaggedReferences + 1 }
        let bindings ← counted.bindings.keepLocal? index
        let kept := { counted with bindings }
        let position ← insertionPoint? text around id.span.start
        if state.commented.contains position then return { state with draft := kept }
        else
          let (commented, _) ← kept.insertComments? text position [.unmigratedReference]
          return ⟨commented, position :: state.commented⟩

end Leftovers

/-- Deals with all references that are left in a program. -/
def Draft.flagLeftovers? (draft : Draft) (text : Text) (program : Program) : Option Draft :=
  match droppedNames 0 draft.bindings.named with
  | [] => some draft
  | dropped =>
    ((program.visits fun _ => false).foldlM (Leftovers.flag? text dropped)
      ({ draft } : Leftovers)).map (·.draft)

section Left

variable {body : Text} {program : Program} {bindings : Bindings}

/-- The positions that stand by the names are positions of exports. -/
theorem has_of_mem_droppedNames {list : List NamedImport} {index : Nat} {name : String}
    {position : Nat} (h : (name, position) ∈ droppedNames index list) :
    index ≤ position ∧ position < index + list.length := by
  induction list generalizing index with
  | nil => cases h
  | cons named rest ih =>
    have hrest : (name, position) ∈ droppedNames (index + 1) rest →
        index ≤ position ∧ position < index + (named :: rest).length := by
      intro hmem
      obtain ⟨hle, hlt⟩ := ih hmem
      rw [List.length_cons]
      omega
    simp only [droppedNames] at h
    split at h
    · rcases List.mem_cons.mp h with hfirst | hlater
      · obtain ⟨-, rfl⟩ := Prod.mk.inj hfirst
        rw [List.length_cons]
        omega
      · exact hrest hlater
    · exact hrest h

theorem Bindings.has_of_dropped {name : String} {index : Nat}
    (h : (droppedNames 0 bindings.named).lookup name = some index) :
    bindings.Has (.named index) := by
  have hmem : (name, index) ∈ droppedNames 0 bindings.named := by
    obtain ⟨before, after, hlist, -⟩ := List.lookup_eq_some_iff.mp h
    rw [hlist]
    exact List.mem_append_right _ List.mem_cons_self
  obtain ⟨-, hlt⟩ := has_of_mem_droppedNames hmem
  rw [Nat.zero_add] at hlt
  exact ⟨_, List.getElem?_eq_getElem hlt⟩

theorem Leftovers.flag?_eq {state : Leftovers}
    (hlearns : bindings.Learns .any state.draft.bindings) {visit : Visit}
    (hinside : visit.Inside body) :
    Leftovers.flag? body (droppedNames 0 bindings.named) state visit =
      some (state.flag body (droppedNames 0 bindings.named) visit) := by
  cases visit with
  | call site around => rfl
  | identifier id around =>
    cases hdropped : (droppedNames 0 bindings.named).lookup id.name with
    | none => simp only [flag?, flag, hdropped]
    | some index =>
      have hhas : state.draft.bindings.Has (.named index) :=
        hlearns.has (Bindings.has_of_dropped hdropped)
      have hpoint : insertionPoint? body around id.span.start =
          some (insertionPoint body.lineIndex around id.span.start) := hinside.insertionPoint?_eq
      simp only [flag?, flag, hdropped]
      split
      · rfl
      · rw [Bindings.keepLocal?_eq (by exact hhas), hpoint]
        simp only [Option.bind_eq_bind, Option.bind_some]
        split
        · rfl
        · rw [Draft.insertComments?_eq _ (by exact hinside.place_le)]
          rfl

/-- The stage of references that are left keeps to its checks. -/
theorem Draft.flagLeftovers?_eq (hplaced : program.Placed body) (draft : Draft) :
    draft.flagLeftovers? body program = some (draft.flagLeftovers body program) := by
  have hstops : (program.visits fun _ => false).foldlM
      (Leftovers.flag? body (droppedNames 0 draft.bindings.named)) ({ draft } : Leftovers) =
        some ((program.visits fun _ => false).foldl
          (Leftovers.flag body (droppedNames 0 draft.bindings.named)) { draft }) := by
    refine foldlM_eq_some (fun state => draft.bindings.Learns .any state.draft.bindings)
      (.refl draft.bindings) fun state hlearns visit hvisit => ⟨?_, ?_⟩
    · exact Leftovers.flag?_eq hlearns (hplaced.inside hvisit)
    · have hstep : state.draft.Continues (fun _ => True) .any
          (state.flag body (droppedNames 0 draft.bindings.named) visit).draft :=
        Leftovers.continues_flag trivial _ state fun _ _ => trivial
      exact hlearns.trans hstep.bindings
  unfold flagLeftovers? flagLeftovers
  generalize droppedNames 0 draft.bindings.named = dropped at hstops
  cases dropped with
  | nil => rfl
  | cons first rest => exact congrArg (Option.map (·.draft)) hstops

end Left

end SdkMigration
