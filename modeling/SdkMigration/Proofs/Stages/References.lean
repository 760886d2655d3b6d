import SdkMigration.Migration.Calls
import SdkMigration.Migration.Types
import SdkMigration.Proofs.Drafts
import SdkMigration.Proofs.Lookups

/-!
# The stages of calls and types

Both stages look up the chains at their sites and replace those that a rule
applies to.  A replacement is refused only when an edit overlaps it, and no
two sites share a chain.  So every site whose chain no earlier edit has
touched is replaced, and the binding that it goes through learns the target.
-/

namespace SdkMigration

/-! ## Recorded matches -/

/-- Whether a reference through a binding was moved. -/
def Bindings.Recorded (bindings : Bindings) : Origin → Prop
  | .named index => ∃ named, bindings.named[index]? = some named ∧ named.target.isSome = true
  | .whole index => ∃ whole, bindings.whole[index]? = some whole ∧ whole.matched = true

variable {lessons : Lessons}

/-- What is bound stays bound to the same names. -/
theorem Bindings.Learns.localNames {before after : Bindings} (h : before.Learns lessons after) :
    after.localNames = before.localNames := by
  unfold Bindings.localNames
  rw [h.map_localName, h.map_name]

theorem Bindings.Learns.tracks_eq {before after : Bindings} (h : before.Learns lessons after)
    (name : String) : after.tracks name = before.tracks name := by
  rw [Bool.eq_iff_iff, Bindings.tracks_iff, Bindings.tracks_iff, h.localNames]

theorem Bindings.Learns.wholeIndex?_eq {before after : Bindings} (h : before.Learns lessons after)
    (name : String) : after.wholeIndex? name = before.wholeIndex? name := by
  have hnames : ∀ bindings : Bindings, bindings.wholeIndex? name =
      (bindings.whole.map WholeImport.name).findIdx? (· == name) := by
    intro bindings
    rw [List.findIdx?_map]
    rfl
  rw [hnames, hnames, h.map_name]

theorem Bindings.Learns.namedIndex?_eq {before after : Bindings} (h : before.Learns lessons after)
    (name : String) : after.namedIndex? name = before.namedIndex? name := by
  have hnames : ∀ bindings : Bindings, bindings.namedIndex? name =
      (bindings.named.map NamedImport.localName).findIdx? (· == name) := by
    intro bindings
    rw [List.findIdx?_map]
    rfl
  rw [hnames, hnames, h.map_localName]

theorem Bindings.Learns.isAlias_eq {before after : Bindings} (h : before.Learns lessons after)
    (name : String) : after.isAlias name = before.isAlias name := by
  rw [isAlias, isAlias, h.wholeIndex?_eq]

theorem Bindings.Learns.recorded {before after : Bindings} {origin : Origin}
    (h : before.Learns lessons after) (hrecorded : before.Recorded origin) :
    after.Recorded origin := by
  cases origin with
  | named index =>
    obtain ⟨named, hnamed, htarget⟩ := hrecorded
    obtain ⟨learned, hlearned, hlearns⟩ := h.named_after hnamed
    obtain ⟨target, htarget⟩ := Option.isSome_iff_exists.mp htarget
    exact ⟨learned, hlearned, Option.isSome_iff_exists.mpr ⟨target, hlearns.target_kept _ htarget⟩⟩
  | whole index =>
    obtain ⟨whole, hwhole, hmatched⟩ := hrecorded
    obtain ⟨learned, hlearned, hlearns⟩ := h.whole_after hwhole
    exact ⟨learned, hlearned, hlearns.matched hmatched⟩

/-- Whether bindings have an entry that an origin names. -/
def Bindings.Has (bindings : Bindings) : Origin → Prop
  | .named index => ∃ named, bindings.named[index]? = some named
  | .whole index => ∃ whole, bindings.whole[index]? = some whole

theorem Bindings.Learns.has {before after : Bindings} {origin : Origin}
    (h : before.Learns lessons after) (horigin : before.Has origin) : after.Has origin := by
  cases origin with
  | named index =>
    obtain ⟨named, hnamed⟩ := horigin
    obtain ⟨learned, hlearned, _⟩ := h.named_after hnamed
    exact ⟨learned, hlearned⟩
  | whole index =>
    obtain ⟨whole, hwhole⟩ := horigin
    obtain ⟨learned, hlearned, _⟩ := h.whole_after hwhole
    exact ⟨learned, hlearned⟩

theorem Bindings.recorded_recordMatch {bindings : Bindings} {origin : Origin}
    (h : bindings.Has origin) (target : String) :
    (bindings.recordMatch origin target).Recorded origin := by
  cases origin with
  | named index =>
    obtain ⟨named, hnamed⟩ := h
    obtain ⟨learned, hlearned, htarget⟩ := target_recordMatch hnamed target
    refine ⟨learned, hlearned, ?_⟩
    rw [htarget]
    simp
  | whole index =>
    obtain ⟨whole, hwhole⟩ := h
    exact matched_recordMatch hwhole target

/-! ## Replacements of a file -/

/-- Whether the targets of rules are ones that an export may learn. -/
def Allows (lessons : Lessons) (rules : List Rule) : Prop :=
  ∀ rule ∈ rules, lessons.targets rule.source.first rule.target.first

theorem allows_any (rules : List Rule) : Allows .any rules := fun _ _ => trivial

section Replacements

variable {bindings later : Bindings} {rules : List Rule} {replacement : Replacement}

theorem has_origin (h : replacement ∈ replacements bindings rules) :
    bindings.Has replacement.origin := by
  obtain ⟨rule, _, hseen⟩ := mem_replacements h
  rcases hseen with ⟨index, named, hnamed, _, rfl⟩ | ⟨index, whole, hwhole, rfl⟩
  · exact ⟨named, hnamed⟩
  · exact ⟨whole, hwhole⟩

/-- A single export learns only targets of rules for its name. -/
theorem moves_of_replacement (hallows : Allows lessons rules)
    (h : replacement ∈ replacements bindings rules) (hlearns : bindings.Learns lessons later)
    {index : Nat} {named : NamedImport} (horigin : replacement.origin = .named index)
    (hnamed : later.named[index]? = some named) :
    lessons.targets named.exported replacement.target.first := by
  obtain ⟨rule, hrule, hseen⟩ := mem_replacements h
  rcases hseen with ⟨other, first, hfirst, hexported, rfl⟩ | ⟨other, whole, _, rfl⟩
  · obtain rfl : other = index := Origin.named.inj horigin
    obtain ⟨learned, hlearned, hsame⟩ := hlearns.named_after hfirst
    rw [hnamed] at hlearned
    obtain rfl := Option.some.inj hlearned
    rw [hsame.exported, hexported]
    exact hallows rule hrule
  · cases horigin

end Replacements

namespace Draft

/-! ## Replacing a chain -/

/-- Carries out a replacement by an edit, unless it changes nothing.  `tally`
counts it. -/
def carryOut (draft : Draft) (edit : Edit) (tally : Report → Report)
    (replacement : Replacement) : Draft :=
  if replacement.isIdentity then
    draft.recordMatch replacement.origin replacement.target
  else
    let (edited, done) := draft.tryEdit edit
    if done then (edited.count tally).recordMatch replacement.origin replacement.target
    else edited

section CarryOut

variable {draft : Draft} {bindings : Bindings} {rules : List Rule} {edit : Edit}
  {tally : Report → Report} {replacement : Replacement}

theorem continues_carryOut {allowed : Edit → Prop} (hallows : Allows lessons rules)
    (h : replacement ∈ replacements bindings rules)
    (hlearns : bindings.Learns lessons draft.bindings)
    (hedit : replacement.isIdentity = false → allowed edit) :
    draft.Continues allowed lessons (draft.carryOut edit tally replacement) := by
  unfold carryOut
  cases hidentity : replacement.isIdentity with
  | true =>
    exact continues_recordMatch fun _ _ => moves_of_replacement hallows h hlearns
  | false =>
    simp only [Bool.false_eq_true, if_false]
    have hedited : draft.Continues allowed lessons (draft.tryEdit edit).1 :=
      continues_tryEdit (hedit hidentity)
    split
    · refine hedited.trans ((continues_count _).trans (continues_recordMatch fun _ _ => ?_))
      exact moves_of_replacement hallows h (hlearns.trans hedited.bindings)
    · exact hedited

/-- A replacement that changes nothing, or that nothing overlaps, is recorded, and
in the second case it is carried out. -/
theorem recorded_carryOut (h : replacement ∈ replacements bindings rules)
    (hlearns : bindings.Learns lessons draft.bindings)
    (hfree : replacement.isIdentity = false →
      ∀ held ∈ draft.edits.held, held.overlaps edit = false) :
    (draft.carryOut edit tally replacement).bindings.Recorded replacement.origin ∧
      (replacement.isIdentity = false →
        edit ∈ (draft.carryOut edit tally replacement).edits.held) := by
  have hhas := hlearns.has (has_origin h)
  unfold carryOut
  cases hidentity : replacement.isIdentity with
  | true => exact ⟨Bindings.recorded_recordMatch hhas _, by simp⟩
  | false =>
    simp only [Bool.false_eq_true, if_false]
    rw [tryEdit_of_free (hfree hidentity)]
    exact ⟨Bindings.recorded_recordMatch hhas _, fun _ => List.mem_append_right _ (by simp)⟩

end CarryOut

/-! ## Calls -/

section Calls

variable {body : Text} {lo hi : Nat} {marks : Landmarks} {inside : Chain → Prop}
  {bindings : Bindings} {rules : List Rule} {draft : Draft}

theorem continues_flagCall {allowed : Edit → Prop} {site : CallSite} {around : List Nat}
    (advisories : List Advisory)
    (h : ∀ advisory ∈ advisories, allowed ((Visit.call site around).comment body advisory)) :
    draft.Continues allowed lessons (draft.flagCall body site around advisories) := by
  cases advisories with
  | nil => exact .refl draft
  | cons first rest =>
    have hflagged : draft.Continues allowed lessons (draft.insertComments body
        (insertionPoint body.lineIndex around site.start) (first :: rest)).1 :=
      continues_insertComments body (first :: rest) h
    simp only [flagCall]
    generalize draft.insertComments body (insertionPoint body.lineIndex around site.start)
      (first :: rest) = result at hflagged ⊢
    obtain ⟨flagged, inserted⟩ := result
    cases inserted with
    | true =>
      simp only [if_true]
      exact hflagged.trans (continues_count _)
    | false => exact hflagged

/-- A call is dealt with by comments about it and by a replacement of its chain. -/
theorem continues_rewriteCall {allowed : Edit → Prop} (hallows : Allows lessons rules)
    (hlearns : bindings.Learns lessons draft.bindings) {visit : Visit}
    (hcomment : visit.IsNamed → ∀ advisory, allowed (visit.comment body advisory))
    (hreplace : ∀ chain, visit.chain? = some chain → ∀ replacement,
      (Lookups.build bindings rules).1.find? chain.names = some replacement →
      replacement.isIdentity = false → allowed ⟨chain.span, chain.render replacement.target⟩) :
    draft.Continues allowed lessons
      (draft.rewriteCall body (Lookups.build bindings rules).1 visit) := by
  cases visit with
  | identifier id around => exact .refl draft
  | call site around =>
    cases hchain : site.callee.chain? with
    | none =>
      simp only [rewriteCall, hchain]
      exact .refl draft
    | some chain =>
      cases hfound : (Lookups.build bindings rules).1.find? chain.names with
      | none =>
        simp only [rewriteCall, hchain, hfound]
        split
        · exact (continues_addNotes [.noFunctionRule chain.dotted]).trans (continues_count _)
        · exact .refl draft
      | some replacement =>
        simp only [rewriteCall, hchain, hfound]
        have hnamed : (Visit.call site around).IsNamed := Option.isSome_iff_exists.mpr ⟨_, hchain⟩
        have hflagged : draft.Continues allowed lessons (draft.flagCall body site around
            (callAdvisories replacement.rule site.arguments.length)) :=
          continues_flagCall _ fun advisory _ => hcomment hnamed advisory
        exact hflagged.trans (continues_carryOut hallows (Lookups.mem_of_find?_build hfound)
          (hlearns.trans hflagged.bindings) (hreplace chain hchain replacement hfound))

/-- A call whose chain no edit has touched is replaced. -/
theorem rewriteCall_replaces (hplaced : marks.Placed body lo hi)
    (hlearns : bindings.Learns lessons draft.bindings) {visit : Visit}
    (hmarked : visit.Marked marks []) {chain : Chain} (hchain : visit.chain? = some chain)
    (hmem : chain ∈ marks.chains) {replacement : Replacement}
    (hfound : (Lookups.build bindings rules).1.find? chain.names = some replacement)
    (hfree : replacement.isIdentity = false →
      ∀ held ∈ draft.edits.held, marks.Within (· ≠ chain) held) :
    let after := draft.rewriteCall body (Lookups.build bindings rules).1 visit
    after.bindings.Recorded replacement.origin ∧
      (replacement.isIdentity = false →
        ⟨chain.span, chain.render replacement.target⟩ ∈ after.edits.held) := by
  cases visit with
  | identifier id around => cases hchain
  | call site around =>
    have hchain' : site.callee.chain? = some chain := hchain
    have hflagged : draft.Continues (marks.Within (· ≠ chain)) lessons (draft.flagCall body site
        around (callAdvisories replacement.rule site.arguments.length)) :=
      continues_flagCall _ fun advisory _ => hplaced.within_comment hmarked advisory
    simp only [rewriteCall, hchain', hfound]
    refine recorded_carryOut (Lookups.mem_of_find?_build hfound)
      (hlearns.trans hflagged.bindings) fun hidentity held hheld => ?_
    have hwithin := hflagged.forall_held (hfree hidentity) (fun _ h => h) held hheld
    exact hplaced.not_overlaps_chain hmem hwithin _

end Calls

/-! ## Types -/

section Types

variable {body : Text} {lo hi : Nat} {marks : Landmarks} {inside : Chain → Prop}
  {bindings : Bindings} {rules : List Rule} {draft : Draft}

/-- A name of a type is dealt with by a replacement of its chain. -/
theorem continues_rewriteType {allowed : Edit → Prop} (hallows : Allows lessons rules)
    (hlearns : bindings.Learns lessons draft.bindings) {chain : Chain}
    (hreplace : ∀ replacement,
      (Lookups.build bindings rules).1.find? chain.names = some replacement →
      replacement.isIdentity = false →
      allowed ⟨chain.span, replacement.target.dotted.toList⟩) :
    draft.Continues allowed lessons
      (draft.rewriteType (Lookups.build bindings rules).1 chain) := by
  cases hfound : (Lookups.build bindings rules).1.find? chain.names with
  | none =>
    simp only [rewriteType, hfound]
    exact .refl draft
  | some replacement =>
    simp only [rewriteType, hfound]
    exact continues_carryOut hallows (Lookups.mem_of_find?_build hfound) hlearns
      (hreplace replacement hfound)

/-- A name of a type whose chain no edit has touched is replaced. -/
theorem rewriteType_replaces (hplaced : marks.Placed body lo hi)
    (hlearns : bindings.Learns lessons draft.bindings) {chain : Chain}
    (hmem : chain ∈ marks.chains) {replacement : Replacement}
    (hfound : (Lookups.build bindings rules).1.find? chain.names = some replacement)
    (hfree : replacement.isIdentity = false →
      ∀ held ∈ draft.edits.held, marks.Within (· ≠ chain) held) :
    let after := draft.rewriteType (Lookups.build bindings rules).1 chain
    after.bindings.Recorded replacement.origin ∧
      (replacement.isIdentity = false →
        ⟨chain.span, replacement.target.dotted.toList⟩ ∈ after.edits.held) := by
  simp only [rewriteType, hfound]
  exact recorded_carryOut (Lookups.mem_of_find?_build hfound) hlearns
    fun hidentity held hheld => hplaced.not_overlaps_chain hmem (hfree hidentity held hheld) _

end Types

/-! ## Whole stages -/

/-- Where chains turn up in a list without repetitions, no other item than that with a chain has
it. -/
theorem exists_split_at {α : Type} {chain? : α → Option Chain} {items : List α} {item : α}
    {chain : Chain} (hnodup : (items.filterMap chain?).Nodup) (hitem : item ∈ items)
    (hchain : chain? item = some chain) :
    ∃ before after, items = before ++ item :: after ∧
      ∀ other ∈ before ++ after, ∀ found, chain? other = some found → found ≠ chain := by
  obtain ⟨before, after, rfl⟩ := List.append_of_mem hitem
  refine ⟨before, after, rfl, fun other hother found hfound hsame => ?_⟩
  subst hsame
  rw [List.perm_middle.filterMap chain? |>.nodup_iff, List.filterMap_cons, hchain] at hnodup
  exact (List.nodup_cons.mp hnodup).1 (List.mem_filterMap.mpr ⟨other, hother, hfound⟩)

/-- A stage that goes from item to item comes to a chain that no edit has touched, and what it
has done there is not taken back. -/
theorem foldl_reaches {α : Type} {step : Draft → α → Draft} {chain? : α → Option Chain}
    {items : List α} {item : α} {draft : Draft} {notes : List Note} {chain : Chain}
    (lessons : Lessons) (marks : Landmarks) (done : Draft → Prop)
    (hnodup : (items.filterMap chain?).Nodup) (hitem : item ∈ items)
    (hchain : chain? item = some chain)
    (hstep : ∀ (inside : Chain → Prop) (later : Draft),
      draft.bindings.Learns lessons later.bindings → ∀ other ∈ items,
      (∀ found, chain? other = some found → inside found) →
      later.Continues (marks.Within inside) lessons (step later other))
    (hdone : ∀ later : Draft, draft.bindings.Learns lessons later.bindings →
      (∀ held ∈ later.edits.held, marks.Within (· ≠ chain) held) → done (step later item))
    (hkept : ∀ before after : Draft, before.Continues (marks.Within fun _ => True) lessons after →
      done before → done after)
    (hfree : ∀ held ∈ draft.edits.held, marks.Within (· ≠ chain) held) :
    done (items.foldl step (draft.addNotes notes)) := by
  obtain ⟨before, after, rfl, hother⟩ := exists_split_at hnodup hitem hchain
  rw [List.foldl_append, List.foldl_cons]
  -- Up to the item, the edits lie inside other chains.
  have hbefore : draft.Continues (marks.Within (· ≠ chain)) lessons
      (before.foldl step (draft.addNotes notes)) := by
    refine (continues_addNotes notes).trans (continues_foldl _ fun later hlater a ha => ?_)
    exact hstep _ later hlater.bindings a (List.mem_append_left _ ha)
      (hother a (List.mem_append_left _ ha))
  generalize before.foldl step (draft.addNotes notes) = reached at hbefore ⊢
  have hreached := hdone reached hbefore.bindings (hbefore.forall_held hfree fun _ h => h)
  have hitemStep := hstep (fun _ => True) reached hbefore.bindings item hitem fun _ _ => trivial
  -- Behind it, nothing is taken back.
  refine hkept _ _ (continues_foldl _ fun later hlater a ha => ?_) hreached
  exact hstep _ later (hbefore.bindings.trans (hitemStep.bindings.trans hlater.bindings)) a
    (List.mem_append_right _ (List.mem_cons_of_mem _ ha)) fun _ _ => trivial

/-- What was carried out is not taken back. -/
private theorem carried_kept {allowed : Edit → Prop} {edit : Edit} {replacement : Replacement}
    (before after : Draft) (h : before.Continues allowed lessons after)
    (hcarried : before.bindings.Recorded replacement.origin ∧
      (replacement.isIdentity = false → edit ∈ before.edits.held)) :
    after.bindings.Recorded replacement.origin ∧
      (replacement.isIdentity = false → edit ∈ after.edits.held) :=
  ⟨h.bindings.recorded hcarried.1, fun hidentity => h.kept _ (hcarried.2 hidentity)⟩

section Stages

variable {body : Text} {lo hi : Nat} {inside : Chain → Prop} {rules : List Rule} {draft : Draft}
  {program : Program} {chain : Chain} {replacement : Replacement}

/-- Whatever a lookup finds goes through a binding. -/
theorem not_isEmpty_of_find? {bindings : Bindings} {names : List String}
    (hfound : (Lookups.build bindings rules).1.find? names = some replacement) :
    bindings.isEmpty = false := by
  have hhas := has_origin (Lookups.mem_of_find?_build hfound)
  unfold Bindings.isEmpty
  cases horigin : replacement.origin with
  | named index =>
    rw [horigin] at hhas
    obtain ⟨named, hnamed⟩ := hhas
    cases hlist : bindings.named with
    | nil => simp [hlist] at hnamed
    | cons => simp
  | whole index =>
    rw [horigin] at hhas
    obtain ⟨whole, hwhole⟩ := hhas
    cases hlist : bindings.whole with
    | nil => simp [hlist] at hwhole
    | cons => simp

/-- The stops of the stage of calls have the called chains of the program. -/
theorem stops_chains (lookups : Lookups) (program : Program) :
    (program.visits fun site => (lookups.forCall? site).isSome).filterMap Visit.chain? =
      allCallChains program.items := by
  refine visitsAll_chains ?_ program.items []
  intro site hsite
  unfold Lookups.forCall? at hsite
  cases hchain : site.callee.chain? with
  | none => simp [hchain] at hsite
  | some chain => rfl

/-- A chain is the place of one site. -/
theorem nodup_sites (hplaced : (allLandmarks program.items).Placed body lo hi) :
    (allCallChains program.items ++ allTypeChains program.items).Nodup := by
  obtain ⟨list, hperm, hsublist⟩ := sites_subperm program.items
  exact hperm.nodup_iff.mp (hplaced.nodup_chains.sublist hsublist)

/-- A chain that is called names no type. -/
theorem not_type_of_call (hplaced : (allLandmarks program.items).Placed body lo hi)
    (hcall : chain ∈ allCallChains program.items) : chain ∉ allTypeChains program.items :=
  fun htype => (List.nodup_append.mp (nodup_sites hplaced)).2.2 _ hcall _ htype rfl

theorem mem_chains_of_call (hchain : chain ∈ allCallChains program.items) :
    chain ∈ (allLandmarks program.items).chains :=
  (sites_subperm program.items).subset (List.mem_append_left _ hchain)

theorem mem_chains_of_type (hchain : chain ∈ allTypeChains program.items) :
    chain ∈ (allLandmarks program.items).chains :=
  (sites_subperm program.items).subset (List.mem_append_right _ hchain)

/-- The stage of calls writes comments about calls and replaces called chains. -/
theorem continues_rewriteCalls {allowed : Edit → Prop} (hallows : Allows lessons rules)
    (hcomment : ∀ visit : Visit, program.NamedStop visit →
      ∀ advisory, allowed (visit.comment body advisory))
    (hreplace : ∀ chain ∈ allCallChains program.items, ∀ replacement,
      (Lookups.build draft.bindings rules).1.find? chain.names = some replacement →
      replacement.isIdentity = false → allowed ⟨chain.span, chain.render replacement.target⟩) :
    draft.Continues allowed lessons (draft.rewriteCalls body program rules) := by
  unfold rewriteCalls
  split
  · exact .refl draft
  · refine (continues_addNotes (Lookups.build draft.bindings rules).2).trans ?_
    refine continues_foldl _ fun later hlater visit hvisit => ?_
    refine continues_rewriteCall hallows hlater.bindings
      (fun hnamed => hcomment visit (Program.namedStop_of_visit hvisit hnamed))
      fun chain hchain => ?_
    refine hreplace chain ?_
    rw [← stops_chains (Lookups.build draft.bindings rules).1 program]
    exact List.mem_filterMap.mpr ⟨visit, hvisit, hchain⟩

theorem continues_rewriteCalls_within (hplaced : (allLandmarks program.items).Placed body lo hi)
    (hallows : Allows lessons rules)
    (hinside : ∀ chain ∈ allCallChains program.items, ∀ replacement,
      (Lookups.build draft.bindings rules).1.find? chain.names = some replacement →
      replacement.isIdentity = false → inside chain) :
    draft.Continues ((allLandmarks program.items).Within inside) lessons
      (draft.rewriteCalls body program rules) :=
  continues_rewriteCalls hallows (fun _ hstop => hplaced.within_comment hstop.marked)
    fun chain hchain replacement hfound hidentity => .name (mem_chains_of_call hchain)
      (hinside chain hchain replacement hfound hidentity) (Nat.le_refl _) (Nat.le_refl _)

/-- Every call that a rule applies to is replaced, unless an edit has touched its
chain before. -/
theorem rewriteCalls_replaces (hplaced : (allLandmarks program.items).Placed body lo hi)
    (hallows : Allows lessons rules) (hchain : chain ∈ allCallChains program.items)
    (hfound : (Lookups.build draft.bindings rules).1.find? chain.names = some replacement)
    (hfree : ∀ held ∈ draft.edits.held,
      (allLandmarks program.items).Within (· ≠ chain) held) :
    let after := draft.rewriteCalls body program rules
    after.bindings.Recorded replacement.origin ∧
      (replacement.isIdentity = false →
        ⟨chain.span, chain.render replacement.target⟩ ∈ after.edits.held) := by
  let lookups := (Lookups.build draft.bindings rules).1
  have hmem := mem_chains_of_call hchain
  have hnodup := (List.nodup_append.mp (nodup_sites hplaced)).1
  rw [← stops_chains lookups program] at hchain hnodup
  unfold rewriteCalls
  rw [not_isEmpty_of_find? hfound]
  simp only [Bool.false_eq_true, if_false]
  obtain ⟨visit, hvisit, hcalled⟩ := List.mem_filterMap.mp hchain
  refine foldl_reaches lessons (allLandmarks program.items) _ hnodup hvisit hcalled ?_ ?_
    carried_kept hfree
  · intro inside later hlearns visit hvisit hinside
    refine continues_rewriteCall hallows hlearns
      (fun _ => hplaced.within_comment (visitsAll_marked _ program.items [] visit hvisit))
      fun found hfound _ _ _ => ?_
    refine .name (mem_chains_of_call ?_) (hinside found hfound) (Nat.le_refl _) (Nat.le_refl _)
    rw [← stops_chains lookups program]
    exact List.mem_filterMap.mpr ⟨visit, hvisit, hfound⟩
  · intro later hlearns hlater
    exact rewriteCall_replaces hplaced hlearns (visitsAll_marked _ program.items [] visit hvisit)
      hcalled hmem hfound fun _ => hlater

/-- The stage of types replaces chains that name a type. -/
theorem continues_rewriteTypes {allowed : Edit → Prop} (hallows : Allows lessons rules)
    (hreplace : ∀ chain ∈ allTypeChains program.items, ∀ replacement,
      (Lookups.build draft.bindings rules).1.find? chain.names = some replacement →
      replacement.isIdentity = false →
      allowed ⟨chain.span, replacement.target.dotted.toList⟩) :
    draft.Continues allowed lessons (draft.rewriteTypes program rules) := by
  unfold rewriteTypes
  split
  · exact .refl draft
  · refine (continues_addNotes (Lookups.build draft.bindings rules).2).trans ?_
    refine continues_foldl _ fun later hlater chain hchain => ?_
    exact continues_rewriteType hallows hlater.bindings (hreplace chain hchain)

theorem continues_rewriteTypes_within (hallows : Allows lessons rules)
    (hinside : ∀ chain ∈ allTypeChains program.items, ∀ replacement,
      (Lookups.build draft.bindings rules).1.find? chain.names = some replacement →
      replacement.isIdentity = false → inside chain) :
    draft.Continues ((allLandmarks program.items).Within inside) lessons
      (draft.rewriteTypes program rules) :=
  continues_rewriteTypes hallows fun chain hchain replacement hfound hidentity =>
    .name (mem_chains_of_type hchain) (hinside chain hchain replacement hfound hidentity)
      (Nat.le_refl _) (Nat.le_refl _)

/-- Every name of a type that a rule applies to is replaced, unless an edit has
touched its chain before. -/
theorem rewriteTypes_replaces (hplaced : (allLandmarks program.items).Placed body lo hi)
    (hallows : Allows lessons rules) (hchain : chain ∈ allTypeChains program.items)
    (hfound : (Lookups.build draft.bindings rules).1.find? chain.names = some replacement)
    (hfree : ∀ held ∈ draft.edits.held,
      (allLandmarks program.items).Within (· ≠ chain) held) :
    let after := draft.rewriteTypes program rules
    after.bindings.Recorded replacement.origin ∧
      (replacement.isIdentity = false →
        ⟨chain.span, replacement.target.dotted.toList⟩ ∈ after.edits.held) := by
  have hmem := mem_chains_of_type hchain
  have hnodup := (List.nodup_append.mp (nodup_sites hplaced)).2.1
  rw [← List.filterMap_some (l := allTypeChains program.items)] at hnodup
  unfold rewriteTypes
  rw [not_isEmpty_of_find? hfound]
  simp only [Bool.false_eq_true, if_false]
  refine foldl_reaches lessons (allLandmarks program.items) _ hnodup hchain rfl ?_ ?_ carried_kept
    hfree
  · intro inside later hlearns other hother hinside
    exact continues_rewriteType hallows hlearns fun _ _ _ =>
      .name (mem_chains_of_type hother) (hinside other rfl) (Nat.le_refl _) (Nat.le_refl _)
  · intro later hlearns hlater
    exact rewriteType_replaces hplaced hlearns hmem hfound fun _ => hlater

end Stages

end Draft

end SdkMigration
