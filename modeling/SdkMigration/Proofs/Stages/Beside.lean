import SdkMigration.Migration.Transform
import SdkMigration.Proofs.ImportSites
import SdkMigration.Proofs.Stages.Enums
import SdkMigration.Proofs.Stages.Leftovers
import SdkMigration.Proofs.Stages.Unmatched

/-!
# Runs beside each other

Two runs over the same program are compared, one of which knows more aliases of the
module than the other.  As long as no reference through one of these is moved, both
collect the same edits and teach the other bindings the same (`Draft.Beside`); their
counts and notes may differ.

There is one lemma for each function of a stage, in the order in which they call each
other.  The stages of calls and types are compared item by item, where both runs look up
the same for a chain.  The last two stages do not look at rules, so the runs stay beside
each other there in any case.
-/

namespace SdkMigration

/-- The bindings with more aliases behind the others. -/
def Bindings.withAliases (bindings : Bindings) (more : List WholeImport) : Bindings :=
  { bindings with whole := bindings.whole ++ more }

/-- Whether a draft has the same edits as another one and the same bindings with more
aliases.  The other bindings have learned from `base`. -/
structure Draft.Beside (base : Bindings) (more : List WholeImport) (draft other : Draft) :
    Prop where
  edits : draft.edits = other.edits
  bindings : draft.bindings = other.bindings.withAliases more
  learns : base.Learns .any other.bindings

/-- Whether two results tell the same, with drafts beside each other. -/
structure Draft.Alike (base : Bindings) (more : List WholeImport) (result other : Draft × Bool) :
    Prop where
  told : result.2 = other.2
  beside : result.1.Beside base more other.1

namespace Bindings

theorem changeAt_append {α : Type} (change : α → α) {index : Nat} {list : List α}
    (h : index < list.length) (more : List α) :
    changeAt change index (list ++ more) = changeAt change index list ++ more := by
  induction list generalizing index with
  | nil => cases h
  | cons first rest ih =>
    cases index with
    | zero => rfl
    | succ index => exact congrArg (first :: ·) (ih (Nat.lt_of_succ_lt_succ h))

/-- What is recorded for a binding is recorded beside more aliases, too. -/
theorem recordMatch_withAliases {bindings : Bindings} {origin : Origin} (h : bindings.Has origin)
    (target : String) (more : List WholeImport) :
    (bindings.withAliases more).recordMatch origin target =
      (bindings.recordMatch origin target).withAliases more := by
  cases origin with
  | named index => rfl
  | whole index =>
    obtain ⟨whole, hwhole⟩ := h
    have hindex : index < bindings.whole.length := (List.getElem?_eq_some_iff.mp hwhole).1
    exact congrArg (Bindings.mk bindings.named) (changeAt_append _ hindex more)

end Bindings

namespace Draft

variable {base : Bindings} {more : List WholeImport} {draft other : Draft} {body : Text}

/-! ## Steps -/

namespace Beside

theorem addNotes (h : draft.Beside base more other) (notes others : List Note) :
    (draft.addNotes notes).Beside base more (other.addNotes others) :=
  ⟨h.edits, h.bindings, h.learns⟩

theorem count (h : draft.Beside base more other) (change another : Report → Report) :
    (draft.count change).Beside base more (other.count another) :=
  ⟨h.edits, h.bindings, h.learns⟩

/-- The other bindings have learned from those they are now. -/
theorem rebase (h : draft.Beside base more other) : draft.Beside other.bindings more other :=
  ⟨h.edits, h.bindings, .refl _⟩

/-- What has learned from later bindings has learned from earlier ones. -/
theorem since (h : draft.Beside base more other) {before : Bindings}
    (hbefore : before.Learns .any base) : draft.Beside before more other :=
  ⟨h.edits, h.bindings, hbefore.trans h.learns⟩

theorem tryEdit (h : draft.Beside base more other) (edit : Edit)
    (place : Edits → Edit → Edits) :
    Alike base more (draft.tryEdit edit place) (other.tryEdit edit place) := by
  unfold Draft.tryEdit
  rw [h.edits]
  cases other.edits.conflict? edit with
  | some existing => exact ⟨rfl, h.addNotes _ _⟩
  | none => exact ⟨rfl, rfl, h.bindings, h.learns⟩

theorem recordMatch (h : draft.Beside base more other) {origin : Origin}
    (horigin : base.Has origin) (target : NamePath) :
    (draft.recordMatch origin target).Beside base more (other.recordMatch origin target) := by
  refine ⟨h.edits, ?_, h.learns.trans (Bindings.learns_recordMatch _ fun _ _ _ _ => trivial)⟩
  show draft.bindings.recordMatch origin target.first = _
  rw [h.bindings]
  exact Bindings.recordMatch_withAliases (h.learns.has horigin) target.first more

theorem insertComments (h : draft.Beside base more other) (text : Text) (position : Nat)
    (advisories : List Advisory) :
    Alike base more (draft.insertComments text position advisories)
      (other.insertComments text position advisories) := by
  unfold Draft.insertComments
  generalize Advisory.above text position = present
  generalize false = inserted
  induction advisories generalizing draft other inserted with
  | nil => exact ⟨rfl, h⟩
  | cons advisory rest ih =>
    simp only [List.foldl_cons]
    by_cases hpresent : present.contains advisory = true
    · simp only [hpresent, if_true]
      exact ih h inserted
    · simp only [hpresent, Bool.false_eq_true, if_false]
      have htried := h.tryEdit ⟨Span.point position, advisory.insertion text position⟩ Edits.append
      rw [htried.told]
      exact ih htried.beside _

/-- Runs that take each item beside each other end beside each other. -/
theorem foldl {α : Type} {step another : Draft → α → Draft} (list : List α)
    (hstep : ∀ draft other, draft.Beside base more other → ∀ item ∈ list,
      (step draft item).Beside base more (another other item))
    (h : draft.Beside base more other) :
    (list.foldl step draft).Beside base more (list.foldl another other) := by
  induction list generalizing draft other with
  | nil => exact h
  | cons first rest ih =>
    exact ih (fun draft other h item hitem => hstep draft other h item
      (List.mem_cons_of_mem _ hitem)) (hstep draft other h first List.mem_cons_self)

end Beside

/-! ## Calls and types -/

theorem Beside.carryOut (h : draft.Beside base more other) (edit : Edit)
    (tally : Report → Report) {replacement : Replacement}
    (horigin : base.Has replacement.origin) :
    (draft.carryOut edit tally replacement).Beside base more
      (other.carryOut edit tally replacement) := by
  unfold Draft.carryOut
  cases replacement.isIdentity with
  | true => exact h.recordMatch horigin replacement.target
  | false =>
    obtain ⟨htold, htried⟩ := h.tryEdit edit Edits.append
    simp only [Bool.false_eq_true, if_false, htold]
    split
    · exact (htried.count tally tally).recordMatch horigin replacement.target
    · exact htried

theorem Beside.flagCall (h : draft.Beside base more other) (site : CallSite) (around : List Nat)
    (advisories : List Advisory) :
    (draft.flagCall body site around advisories).Beside base more
      (other.flagCall body site around advisories) := by
  cases advisories with
  | nil => exact h
  | cons first rest =>
    obtain ⟨htold, hflagged⟩ := h.insertComments body
      (insertionPoint body.lineIndex around site.start) (first :: rest)
    simp only [Draft.flagCall, htold]
    split
    · exact hflagged.count _ _
    · exact hflagged

section Lookup

variable {lookups others : Lookups}

theorem Beside.rewriteCall (h : draft.Beside base more other) {visit : Visit}
    (hsame : ∀ chain, visit.chain? = some chain →
      lookups.find? chain.names = others.find? chain.names)
    (hhas : ∀ names replacement, others.find? names = some replacement →
      base.Has replacement.origin) :
    (draft.rewriteCall body lookups visit).Beside base more
      (other.rewriteCall body others visit) := by
  cases visit with
  | identifier id around => exact h
  | call site around =>
    cases hchain : site.callee.chain? with
    | none =>
      simp only [Draft.rewriteCall, hchain]
      exact h
    | some chain =>
      simp only [Draft.rewriteCall, hchain, hsame chain hchain]
      cases hfound : others.find? chain.names with
      | some replacement =>
        exact (h.flagCall site around _).carryOut _ _ (hhas _ _ hfound)
      | none =>
        -- Only a count and a note depend on whether the name is bound.
        simp only
        split <;> split <;> exact ⟨h.edits, h.bindings, h.learns⟩

theorem Beside.rewriteType (h : draft.Beside base more other) {chain : Chain}
    (hsame : lookups.find? chain.names = others.find? chain.names)
    (hhas : ∀ names replacement, others.find? names = some replacement →
      base.Has replacement.origin) :
    (draft.rewriteType lookups chain).Beside base more (other.rewriteType others chain) := by
  unfold Draft.rewriteType
  rw [hsame]
  cases hfound : others.find? chain.names with
  | none => exact h
  | some replacement => exact h.carryOut _ _ (hhas _ _ hfound)

end Lookup

end Draft

/-! ## Stages that nothing is bound for

A stage leaves out its work when nothing is bound.  It would find nothing anyway. -/

/-- Whether a visit is to a call. -/
def Visit.isCall : Visit → Bool
  | .call _ _ => true
  | .identifier _ _ => false

/-- Nothing is looked up with success where nothing is bound. -/
theorem Lookups.build_of_isEmpty {bindings : Bindings} (h : bindings.isEmpty = true)
    (rules : List Rule) : Lookups.build bindings rules = ({}, []) := by
  obtain ⟨hnamed, hwhole⟩ := Bool.and_eq_true_iff.mp h
  have hnone : replacements bindings rules = [] := by
    unfold replacements
    rw [List.isEmpty_iff.mp hnamed, List.isEmpty_iff.mp hwhole]
    exact List.flatMap_eq_nil_iff.mpr fun _ _ => rfl
  rw [Lookups.build, hnone]
  rfl

theorem Bindings.tracks_of_isEmpty {bindings : Bindings} (h : bindings.isEmpty = true)
    (name : String) : bindings.tracks name = false := by
  obtain ⟨hnamed, hwhole⟩ := Bool.and_eq_true_iff.mp h
  rw [← Bool.not_eq_true, Bindings.tracks_iff, Bindings.localNames, List.isEmpty_iff.mp hnamed,
    List.isEmpty_iff.mp hwhole]
  exact List.not_mem_nil

namespace Draft

variable {draft : Draft} {body : Text} {program : Program} {rules : List Rule}

private theorem find?_empty (names : List String) : ({} : Lookups).find? names = none := by
  unfold Lookups.find?
  split <;> rfl

theorem rewriteCalls_eq_foldl : draft.rewriteCalls body program rules =
    (program.visits fun site =>
      ((Lookups.build draft.bindings rules).1.forCall? site).isSome).foldl
        (rewriteCall body (Lookups.build draft.bindings rules).1)
        (draft.addNotes (Lookups.build draft.bindings rules).2) := by
  unfold rewriteCalls
  split
  · rename_i hempty
    rw [Lookups.build_of_isEmpty hempty]
    refine (List.foldlRecOn (motive := (· = draft)) _ _ ?_ fun later hlater visit _ => ?_).symm
    · simp [addNotes]
    · subst hlater
      cases visit with
      | identifier id around => rfl
      | call site around =>
        simp only [rewriteCall, find?_empty, Bindings.tracks_of_isEmpty hempty,
          Bool.false_eq_true, if_false]
        split <;> rfl
  · rfl

theorem rewriteTypes_eq_foldl : draft.rewriteTypes program rules =
    (allTypeChains program.items).foldl (rewriteType (Lookups.build draft.bindings rules).1)
      (draft.addNotes (Lookups.build draft.bindings rules).2) := by
  unfold rewriteTypes
  split
  · rename_i hempty
    rw [Lookups.build_of_isEmpty hempty]
    refine (List.foldlRecOn (motive := (· = draft)) _ _ ?_ fun later hlater chain _ => ?_).symm
    · simp [addNotes]
    · subst hlater
      simp only [rewriteType, find?_empty]
  · rfl

theorem rewriteEnums_eq : draft.rewriteEnums body program rules =
    rewriteAllEnums (enumRules body draft.bindings rules) program.items
      (draft.addNotes (Lookups.build draft.bindings rules).2) := by
  unfold rewriteEnums
  split
  · rename_i hempty
    have hnone : ∀ chain ∈ allReferences program.items, ¬EnumSite draft.bindings rules chain := by
      intro chain _ hsite
      obtain ⟨hnamed, hwhole⟩ := Bool.and_eq_true_iff.mp hempty
      rw [List.isEmpty_iff] at hnamed hwhole
      cases hsite with
      | exact found _ => rw [Lookups.build_of_isEmpty hempty, find?_empty] at found; cases found
      | aliased _ _ _ bound _ => rw [hwhole] at bound; cases bound
      | named _ _ _ _ bound _ => rw [hnamed] at bound; cases bound
    have hnotes : draft.addNotes (Lookups.build draft.bindings rules).2 = draft := by
      rw [Lookups.build_of_isEmpty hempty]
      simp [addNotes]
    rw [hnotes]
    exact (rewriteAllEnums_unmatched program.items draft hnone).symm
  · rfl

end Draft

/-! ## Whole stages of calls and types -/

/-- A chain has no calls inside. -/
theorem Tree.calls_of_chain {consumes : CallSite → Bool} {tree : Tree} {chain : Chain}
    (h : tree.chain? = some chain) (around : List Nat) :
    (tree.visits consumes around).filter Visit.isCall = [] := by
  fun_induction Tree.chain? tree generalizing chain around with
  | case1 => rfl
  | case2 span object optional property inner hinner ih => exact ih hinner around
  | case3 => cases h
  | case4 span left right inner hinner ih => exact ih hinner around
  | case5 => cases h
  | case6 kind start inner ih => exact ih h (start :: around)
  | case7 => cases h

section Visits

variable {consumes : CallSite → Bool}

mutual

/-- A walk that consumes nothing but chains comes to the same calls as one that consumes
nothing. -/
theorem Tree.visits_calls
    (hconsumes : ∀ site, consumes site = true → site.callee.chain?.isSome = true) :
    ∀ (tree : Tree) (around : List Nat),
      (tree.visits consumes around).filter Visit.isCall =
        (tree.visits (fun _ => false) around).filter Visit.isCall
  | .leaf _ _, _ => rfl
  | .text _ _, _ => rfl
  | .identifier _ _, _ => rfl
  | .binding _ type, around => visitsAll_calls hconsumes type around
  | .member _ object _ _, around => Tree.visits_calls hconsumes object around
  | .call span callee arguments typeArguments, around => by
    have hcallee : (if consumes ⟨callee, arguments, span.start⟩ = true then []
        else callee.visits consumes around).filter Visit.isCall =
          (callee.visits (fun _ => false) around).filter Visit.isCall := by
      split
      · rename_i hconsumed
        obtain ⟨chain, hchain⟩ := Option.isSome_iff_exists.mp (hconsumes _ hconsumed)
        exact (Tree.calls_of_chain hchain around).symm
      · exact Tree.visits_calls hconsumes callee around
    simp only [Tree.visits, List.filter_cons, Visit.isCall, if_true, List.filter_append, hcallee,
      visitsAll_calls hconsumes arguments around, visitsAll_calls hconsumes typeArguments around,
      Bool.false_eq_true, if_false]
  | .qualified _ left _, around => Tree.visits_calls hconsumes left around
  | .typeReference _ name arguments, around => by
    simp only [Tree.visits, List.filter_append, Tree.visits_calls hconsumes name around,
      visitsAll_calls hconsumes arguments around]
  | .heritage _ value arguments, around => by
    simp only [Tree.visits, List.filter_append, Tree.visits_calls hconsumes value around,
      visitsAll_calls hconsumes arguments around]
  | .declaration _ id parts, around => by
    simp only [Tree.visits, List.filter_cons, visitsAll_calls hconsumes parts around]
  | .importDeclaration _, _ => rfl
  | .importEquals _ _, _ => rfl
  | .anchored _ start inner, around => Tree.visits_calls hconsumes inner (start :: around)
  | .branch _ _ children, around => visitsAll_calls hconsumes children around

theorem visitsAll_calls
    (hconsumes : ∀ site, consumes site = true → site.callee.chain?.isSome = true) :
    ∀ (trees : List Tree) (around : List Nat),
      (visitsAll consumes around trees).filter Visit.isCall =
        (visitsAll (fun _ => false) around trees).filter Visit.isCall
  | [], _ => rfl
  | tree :: rest, around => by
    simp only [visitsAll, List.filter_append, Tree.visits_calls hconsumes tree around,
      visitsAll_calls hconsumes rest around]

end

end Visits

namespace Draft

variable {base : Bindings} {more : List WholeImport} {draft other : Draft} {body : Text}
  {program : Program} {rules : List Rule}

/-- The stage of calls goes from call to call. -/
theorem rewriteCalls_eq_calls : draft.rewriteCalls body program rules =
    ((program.visits fun _ => false).filter Visit.isCall).foldl
      (rewriteCall body (Lookups.build draft.bindings rules).1)
      (draft.addNotes (Lookups.build draft.bindings rules).2) := by
  have hconsumes : ∀ site : CallSite,
      ((Lookups.build draft.bindings rules).1.forCall? site).isSome = true →
      site.callee.chain?.isSome = true := by
    intro site hsite
    unfold Lookups.forCall? at hsite
    cases hchain : site.callee.chain? with
    | none => simp [hchain] at hsite
    | some chain => rfl
  rw [rewriteCalls_eq_foldl]
  unfold Program.visits
  rw [← visitsAll_calls hconsumes, List.foldl_filter]
  congr 1
  funext later visit
  cases visit with
  | identifier id around => rfl
  | call site around => rfl

private theorem has_of_find? {bindings : Bindings} {names : List String}
    {replacement : Replacement}
    (h : (Lookups.build bindings rules).1.find? names = some replacement) :
    bindings.Has replacement.origin := has_origin (Lookups.mem_of_find?_build h)

theorem Beside.rewriteCalls (h : draft.Beside base more other)
    (hsame : ∀ chain ∈ allCallChains program.items,
      (Lookups.build draft.bindings rules).1.find? chain.names =
        (Lookups.build other.bindings rules).1.find? chain.names) :
    (draft.rewriteCalls body program rules).Beside other.bindings more
      (other.rewriteCalls body program rules) := by
  rw [rewriteCalls_eq_calls, rewriteCalls_eq_calls]
  refine Beside.foldl _ (fun later another hlater visit hvisit => ?_) (h.rebase.addNotes _ _)
  refine hlater.rewriteCall (fun chain hchain => hsame chain ?_) fun _ _ => has_of_find?
  rw [← @visitsAll_chains (fun _ => false) (by simp) program.items []]
  exact List.mem_filterMap.mpr ⟨visit, (List.mem_filter.mp hvisit).1, hchain⟩

theorem Beside.rewriteTypes (h : draft.Beside base more other)
    (hsame : ∀ chain ∈ allTypeChains program.items,
      (Lookups.build draft.bindings rules).1.find? chain.names =
        (Lookups.build other.bindings rules).1.find? chain.names) :
    (draft.rewriteTypes program rules).Beside other.bindings more
      (other.rewriteTypes program rules) := by
  rw [rewriteTypes_eq_foldl, rewriteTypes_eq_foldl]
  refine Beside.foldl _ (fun later another hlater chain hchain => ?_) (h.rebase.addNotes _ _)
  exact hlater.rewriteType (hsame chain hchain) fun _ _ => has_of_find?

/-! ## Stages that look at no rules -/

theorem Beside.keepLocal (h : draft.Beside base more other) (index : Nat) :
    { draft with bindings := draft.bindings.keepLocal index }.Beside base more
      { other with bindings := other.bindings.keepLocal index } := by
  refine ⟨h.edits, ?_, h.learns.trans (Bindings.learns_keepLocal trivial _ index)⟩
  simp only [h.bindings]
  rfl

theorem Beside.flag {state another : Leftovers} (h : state.draft.Beside base more another.draft)
    (hcommented : state.commented = another.commented) (dropped : List (String × Nat))
    (visit : Visit) :
    (state.flag body dropped visit).draft.Beside base more
        (another.flag body dropped visit).draft ∧
      (state.flag body dropped visit).commented =
        (another.flag body dropped visit).commented := by
  cases visit with
  | call site around => exact ⟨h, hcommented⟩
  | identifier id around =>
    cases hdropped : dropped.lookup id.name with
    | none =>
      simp only [Leftovers.flag, hdropped]
      exact ⟨h, hcommented⟩
    | some index =>
      simp only [Leftovers.flag, hdropped, h.edits, hcommented]
      split
      · exact ⟨h, hcommented⟩
      · have hkept := ((h.addNotes [.unmigratedReference id.name id.span.start]
          [.unmigratedReference id.name id.span.start]).count
            (fun report => { report with flaggedReferences := report.flaggedReferences + 1 })
            (fun report => { report with flaggedReferences := report.flaggedReferences + 1 })
          ).keepLocal index
        split
        · exact ⟨hkept, rfl⟩
        · exact ⟨(hkept.insertComments body _ _).beside, rfl⟩

theorem Beside.flagLeftovers (h : draft.Beside base more other) :
    (draft.flagLeftovers body program).Beside base more
      (other.flagLeftovers body program) := by
  have hnamed : draft.bindings.named = other.bindings.named := by rw [h.bindings]; rfl
  unfold Draft.flagLeftovers
  rw [hnamed]
  cases droppedNames 0 other.bindings.named with
  | nil => exact h
  | cons first rest =>
    simp only
    have hfold : ∀ (visits : List Visit) (state another : Leftovers),
        state.draft.Beside base more another.draft → state.commented = another.commented →
        (visits.foldl (Leftovers.flag body (first :: rest)) state).draft.Beside base more
          (visits.foldl (Leftovers.flag body (first :: rest)) another).draft := by
      intro visits
      induction visits with
      | nil => exact fun _ _ hstate _ => hstate
      | cons visit others ih =>
        intro state another hstate hcommented
        obtain ⟨hnext, hsame⟩ := hstate.flag hcommented (first :: rest) visit
        exact ih _ _ hnext hsame
    exact hfold _ _ _ h rfl

theorem Beside.removeDeclaration (h : draft.Beside base more other) (span : Span) :
    (draft.removeDeclaration body span).Beside base more (other.removeDeclaration body span) :=
  (h.tryEdit _ _).beside

theorem Beside.replaceDeclarations (h : draft.Beside base more other) (first : Span)
    (others : List Span) (block : Text) :
    (draft.replaceDeclarations body first others block).Beside base more
      (other.replaceDeclarations body first others block) := by
  have hmarked : (if !others.isEmpty || body.slice first != block then draft.markImports
        else draft).Beside base more
      (if !others.isEmpty || body.slice first != block then other.markImports else other) := by
    split
    · exact h.count _ _
    · exact h
  unfold Draft.replaceDeclarations
  refine Beside.foldl _ (fun _ _ hlater span _ => hlater.removeDeclaration span) ?_
  split
  · exact hmarked.removeDeclaration first
  · exact (hmarked.tryEdit _ _).beside

theorem Beside.prependDeclarations (h : draft.Beside base more other) (position : Nat)
    (block : Text) :
    (draft.prependDeclarations position block).Beside base more
      (other.prependDeclarations position block) := by
  have htried := (h.tryEdit ⟨Span.point position, block ++ ['\n']⟩ Edits.prepend).beside
  exact ⟨htried.edits, htried.bindings, htried.learns⟩

/-- The last stage keeps two runs beside each other that bind the same. -/
theorem Beside.rewriteImports (h : draft.Beside base [] other) {sites others : ImportSites}
    (hdeclarations : sites.declarations = others.declarations)
    (hsideEffect : sites.sideEffect = others.sideEffect)
    (hfirst : sites.firstItem = others.firstItem)
    (hloads : sites.opaqueLoads = others.opaqueLoads) (module : String) :
    (draft.rewriteImports body sites module).Beside base []
      (other.rewriteImports body others module) := by
  have hbindings : draft.bindings = other.bindings := by
    rw [h.bindings, Bindings.withAliases, List.append_nil]
  unfold Draft.rewriteImports
  rw [hbindings, hdeclarations, hsideEffect, hfirst, hloads]
  refine Beside.foldl _ (fun later another hlater load _ => ?_) ?_
  · exact ((hlater.count _ _).insertComments body _ _).beside
  · split
    · exact h.replaceDeclarations _ _ _
    · split
      · split
        · exact h
        · exact h.prependDeclarations _ _
      · exact h

end Draft

end SdkMigration
