import SdkMigration.Proofs.ImportSites
import SdkMigration.Proofs.WholeLines

/-!
# The stage of import declarations

The stage replaces the first declaration that imports the module and removes
the others with the lines they have for themselves.  A line that is removed
holds nothing but blanks next to the declaration, so no chain stands on it.

The new declarations are always written: where they go no edit of the stages
before can overlap them.
-/

namespace SdkMigration

/-! ## The edits of the stage -/

/-- The edits of the stage: comments at free places, and edits of import
declarations or of their lines. -/
inductive ImportEdit (marks : Landmarks) (body : Text) : Edit → Prop where
  | comment {position : Nat} (newText : Text) (free : marks.Free position) :
    ImportEdit marks body ⟨Span.point position, newText⟩
  | declaration {span : Span} (newText : Text) (mem : span ∈ marks.imports) :
    ImportEdit marks body ⟨span, newText⟩
  | lines {span : Span} (mem : span ∈ marks.imports) :
    ImportEdit marks body ⟨wholeLines body span, []⟩

/-- No edit of the stage overlaps a replacement of a chain. -/
theorem ImportEdit.not_overlaps_chain {marks : Landmarks} {body : Text} {lo hi : Nat}
    (h : marks.Placed body lo hi) {chain : Chain} (hchain : chain ∈ marks.chains) {edit : Edit}
    (hedit : ImportEdit marks body edit) (newText : Text) :
    edit.overlaps ⟨chain.span, newText⟩ = false := by
  have hplaced := h.chains chain hchain
  have hapart : ∀ {span : Span} (other : Text), chain.span.Apart span →
      Edit.overlaps ⟨span, other⟩ ⟨chain.span, newText⟩ = false := by
    intro span other hapart
    rcases hapart with hapart | hapart
    · rw [Edit.overlaps_comm]
      exact Edit.not_overlaps_of_le hapart
    · exact Edit.not_overlaps_of_le hapart
  cases hedit with
  | comment other free =>
    exact Landmarks.point_not_overlaps other newText
      (free _ (Landmarks.mem_spans.mpr (Or.inl ⟨chain, hchain, rfl⟩)))
  | declaration other mem => exact hapart other (h.apart_import hchain mem)
  | lines mem =>
    exact hapart [] (wholeLines_apart hplaced.ink_start hplaced.ink_stop hplaced.start_lt_stop
      (h.solid _ mem).stop_le (h.apart_import hchain mem))

namespace Draft

variable {lessons : Lessons} {body : Text} {program : Program}
  {module globalName : String} {draft : Draft}

/-- The new declarations of the draft. -/
def importBlock (draft : Draft) (sites : ImportSites) (module : String) : Text :=
  ("\n".intercalate (draft.bindings.declarations module sites.sideEffect)).toList

/-- The draft with its declarations rewritten, before the loads are dealt
with. -/
def rewriteDeclarations (draft : Draft) (body : Text) (sites : ImportSites) (module : String) :
    Draft :=
  match sites.declarations with
  | first :: others =>
    draft.replaceDeclarations body first others (draft.importBlock sites module)
  | [] =>
    match sites.firstItem with
    | some position =>
      if (draft.importBlock sites module).isEmpty then draft
      else draft.prependDeclarations position (draft.importBlock sites module)
    | none => draft

theorem rewriteImports_eq (draft : Draft) (body : Text) (sites : ImportSites) (module : String) :
    draft.rewriteImports body sites module =
      sites.opaqueLoads.foldl (flagLoad body)
        (draft.rewriteDeclarations body sites module) := rfl

/-- Whether the edits of the stage are allowed: a declaration may be replaced by
the new ones or removed with its lines, the new ones may be put before the
first item, and comments may be written about the loads. -/
structure AllowsImports (allowed : Edit → Prop) (body : Text) (sites : ImportSites)
    (block : Text) : Prop where
  declaration : ∀ span ∈ sites.declarations, allowed ⟨span, block⟩
  lines : ∀ span ∈ sites.declarations, allowed ⟨wholeLines body span, []⟩
  prepended : ∀ position, sites.firstItem = some position →
    allowed ⟨Span.point position, block ++ ['\n']⟩
  load : ∀ load ∈ sites.opaqueLoads, ∀ advisory,
    allowed ⟨Span.point load.position, Advisory.insertion body load.position advisory⟩

theorem continues_removeDeclaration {allowed : Edit → Prop} {span : Span}
    (h : allowed ⟨wholeLines body span, []⟩) :
    draft.Continues allowed lessons (draft.removeDeclaration body span) := continues_tryEdit h

theorem continues_replaceDeclarations {allowed : Edit → Prop} {first : Span} {others : List Span}
    {block : Text} (hfirst : allowed ⟨first, block⟩)
    (hlines : ∀ span ∈ first :: others, allowed ⟨wholeLines body span, []⟩) :
    draft.Continues allowed lessons (draft.replaceDeclarations body first others block) := by
  have hmarked : draft.Continues allowed lessons
      (if !others.isEmpty || body.slice first != block then draft.markImports else draft) := by
    split
    · exact continues_count _
    · exact .refl draft
  simp only [replaceDeclarations]
  generalize (if !others.isEmpty || body.slice first != block then draft.markImports
    else draft) = marked at hmarked ⊢
  refine (hmarked.trans ?_).trans (continues_foldl others fun _ _ span hspan =>
    continues_removeDeclaration (hlines span (List.mem_cons_of_mem _ hspan)))
  split
  · exact continues_removeDeclaration (hlines first List.mem_cons_self)
  · exact continues_tryEdit hfirst

theorem continues_prependDeclarations {allowed : Edit → Prop} {position : Nat} {block : Text}
    (h : allowed ⟨Span.point position, block ++ ['\n']⟩) :
    draft.Continues allowed lessons (draft.prependDeclarations position block) := by
  have hprepended : draft.Continues allowed lessons
      (draft.tryEdit ⟨Span.point position, block ++ ['\n']⟩ Edits.prepend).1 :=
    continues_tryEdit_prepend h
  exact hprepended.trans (continues_count fun report => { report with rewrittenImports := true })

theorem continues_flagLoad {allowed : Edit → Prop} {load : OpaqueLoad}
    (h : ∀ advisory, allowed
      ⟨Span.point load.position, Advisory.insertion body load.position advisory⟩) :
    draft.Continues allowed lessons (draft.flagLoad body load) := by
  have hcounted : draft.Continues allowed lessons
      (draft.count fun report => { report with opaqueSites := report.opaqueSites + 1 }) :=
    continues_count _
  exact hcounted.trans (continues_insertComments body _ fun advisory _ => h advisory)

section Stage

variable {allowed : Edit → Prop} {sites : ImportSites}

theorem continues_rewriteDeclarations
    (h : AllowsImports allowed body sites (draft.importBlock sites module)) :
    draft.Continues allowed lessons (draft.rewriteDeclarations body sites module) := by
  unfold rewriteDeclarations
  cases hdeclarations : sites.declarations with
  | cons first others =>
    have hmem : ∀ span ∈ first :: others, span ∈ sites.declarations := by
      rw [hdeclarations]
      exact fun _ hspan => hspan
    exact continues_replaceDeclarations (h.declaration first (hmem first List.mem_cons_self))
      fun span hspan => h.lines span (hmem span hspan)
  | nil =>
    cases hfirst : sites.firstItem with
    | none => exact .refl draft
    | some position =>
      simp only
      split
      · exact .refl draft
      · exact continues_prependDeclarations (h.prepended position hfirst)

theorem continues_flagLoads {block : Text} (h : AllowsImports allowed body sites block) :
    draft.Continues allowed lessons (sites.opaqueLoads.foldl (flagLoad body) draft) :=
  continues_foldl _ fun _ _ load hload => continues_flagLoad (h.load load hload)

/-- Loads whose comments stand above them already receive none. -/
theorem edits_flagLoads {body : Text} {loads : List OpaqueLoad} (draft : Draft)
    (h : ∀ load ∈ loads, load.kind.advisory ∈ Advisory.above body load.position) :
    (loads.foldl (flagLoad body) draft).edits = draft.edits := by
  induction loads generalizing draft with
  | nil => rfl
  | cons load rest ih =>
    have hload : (draft.flagLoad body load).edits = draft.edits := by
      simp [flagLoad, insertComments, h load List.mem_cons_self, count]
    rw [List.foldl_cons, ih _ fun other hother => h other (List.mem_cons_of_mem _ hother), hload]

/-- The stage adds edits of import declarations and comments. -/
theorem continues_rewriteImports
    (h : AllowsImports allowed body sites (draft.importBlock sites module)) :
    draft.Continues allowed lessons (draft.rewriteImports body sites module) := by
  rw [rewriteImports_eq]
  exact (continues_rewriteDeclarations h).trans (continues_flagLoads h)

end Stage

theorem allowsImports_of_placed (hplaced : program.Placed body) (block : Text) :
    AllowsImports (ImportEdit (allLandmarks program.items) body) body
      (program.importSites body module globalName) block where
  declaration := fun _ hspan => .declaration block (Program.mem_declarations hspan)
  lines := fun _ hspan => .lines (Program.mem_declarations hspan)
  prepended := fun _ hposition => .comment _ (hplaced.free_firstItem hposition)
  load := fun _ hload _ => .comment _ (hplaced.free_load hload)

/-! ## Bindings -/

private theorem foldl_bindings {α : Type} {step : Draft → α → Draft}
    (h : ∀ draft a, (step draft a).bindings = draft.bindings) (list : List α) (draft : Draft) :
    (list.foldl step draft).bindings = draft.bindings := by
  induction list generalizing draft with
  | nil => rfl
  | cons first rest ih => exact (ih _).trans (h draft first)

private theorem rewriteDeclarations_bindings (draft : Draft) (body : Text) (sites : ImportSites)
    (module : String) :
    (draft.rewriteDeclarations body sites module).bindings = draft.bindings := by
  unfold rewriteDeclarations
  split
  · rename_i first others hdeclarations
    unfold replaceDeclarations
    refine (foldl_bindings (fun _ _ => tryEdit_bindings _ _ _) others _).trans ?_
    have hmarked : ∀ block : Text,
        (if !others.isEmpty || body.slice first != block then draft.markImports
          else draft).bindings = draft.bindings := by
      intro block
      split <;> rfl
    split
    · exact (tryEdit_bindings _ _ _).trans (hmarked _)
    · exact (tryEdit_bindings _ _ _).trans (hmarked _)
  · split
    · split
      · rfl
      · exact tryEdit_bindings draft _ _
    · rfl

/-- The stage leaves the bindings alone. -/
theorem rewriteImports_bindings (draft : Draft) (body : Text) (sites : ImportSites)
    (module : String) : (draft.rewriteImports body sites module).bindings = draft.bindings := by
  rw [rewriteImports_eq]
  refine (foldl_bindings (fun draft load => ?_) sites.opaqueLoads _).trans
    (rewriteDeclarations_bindings draft body sites module)
  exact insertComments_bindings (draft.count fun report =>
    { report with opaqueSites := report.opaqueSites + 1 }) body load.position _

/-! ## The new declarations -/

/-- A block that is not empty is written in the place of the first
declaration. -/
theorem held_replaceDeclarations {marks : Landmarks} {lo hi : Nat} {inside : Chain → Prop}
    (hplaced : marks.Placed body lo hi) {first : Span} {others : List Span} {block : Text}
    (hfirst : first ∈ marks.imports) (hothers : ∀ span ∈ others, span ∈ marks.imports)
    (hblock : block ≠ []) (hheld : ∀ edit ∈ draft.edits.held, marks.Within inside edit) :
    ⟨first, block⟩ ∈ (draft.replaceDeclarations body first others block).edits.held := by
  have hfree : ∀ held ∈ draft.edits.held, held.overlaps ⟨first, block⟩ = false :=
    fun held h => hplaced.not_overlaps_import hfirst (hheld held h) block
  have hempty : block.isEmpty = false := by simpa using hblock
  have hreplaced : ∀ marked : Draft, marked.edits = draft.edits →
      ⟨first, block⟩ ∈ (marked.tryEdit ⟨first, block⟩).1.edits.held := by
    intro marked hmarked
    rw [← hmarked] at hfree
    rw [tryEdit_of_free hfree]
    exact List.mem_append_right _ (List.mem_singleton_self _)
  unfold replaceDeclarations
  have hrest : ∀ reached : Draft, reached.Continues (ImportEdit marks body) .any
      (others.foldl (fun draft span => draft.removeDeclaration body span) reached) := fun reached =>
    continues_foldl others fun _ _ span hspan =>
      continues_removeDeclaration (.lines (hothers span hspan))
  refine (hrest _).kept _ ?_
  simp only [hempty, Bool.false_eq_true, if_false]
  refine hreplaced _ ?_
  split <;> rfl

/-- A block that is not empty is written before the first item of a file that has
no declaration. -/
theorem held_prependDeclarations {marks : Landmarks} {inside : Chain → Prop} {position : Nat}
    (block : Text) (hposition : marks.Free position)
    (hheld : ∀ edit ∈ draft.edits.held, marks.Within inside edit) :
    ⟨Span.point position, block ++ ['\n']⟩ ∈
      (draft.prependDeclarations position block).edits.held := by
  have hfree : ∀ held ∈ draft.edits.held,
      held.overlaps ⟨Span.point position, block ++ ['\n']⟩ = false :=
    fun held h => Landmarks.Placed.not_overlaps_point hposition (hheld held h) _
  simp only [prependDeclarations]
  rw [tryEdit_of_free hfree]
  exact List.mem_cons_self

/-- The new declarations are written in a file that has a place for them, when all
edits before are at landmarks. -/
theorem held_importBlock (hplaced : program.Placed body) {inside : Chain → Prop}
    (hitems : program.items ≠ [])
    (hblock : draft.importBlock (program.importSites body module globalName) module ≠ [])
    (hheld : ∀ edit ∈ draft.edits.held, (allLandmarks program.items).Within inside edit) :
    ∃ edit ∈ (draft.rewriteImports body
        (program.importSites body module globalName) module).edits.held,
      draft.importBlock (program.importSites body module globalName) module <+: edit.newText := by
  have hloads : (draft.rewriteDeclarations body
        (program.importSites body module globalName) module).Continues
      (ImportEdit (allLandmarks program.items) body) .any _ :=
    continues_flagLoads (@allowsImports_of_placed body program module globalName hplaced [])
  rw [rewriteImports_eq]
  unfold rewriteDeclarations at hloads ⊢
  cases hdeclarations : (program.importSites body module globalName).declarations with
  | cons first others =>
    have hmem : ∀ span ∈ first :: others, span ∈ (allLandmarks program.items).imports := by
      rw [← hdeclarations]
      exact fun span => Program.mem_declarations
    rw [hdeclarations] at hloads
    exact ⟨_, hloads.kept _ (held_replaceDeclarations hplaced.landmarks
      (hmem first List.mem_cons_self) (fun span hspan => hmem span (List.mem_cons_of_mem _ hspan))
      hblock hheld), List.prefix_refl _⟩
  | nil =>
    obtain ⟨first, rest, hfirst⟩ := List.exists_cons_of_ne_nil hitems
    have hposition : (program.importSites body module globalName).firstItem =
        some first.start := by
      rw [Program.firstItem_eq, hfirst]
      rfl
    have hempty : (draft.importBlock (program.importSites body module globalName)
        module).isEmpty = false := by simpa using hblock
    rw [hdeclarations, hposition] at hloads
    simp only [hempty, Bool.false_eq_true, if_false, hposition] at hloads ⊢
    exact ⟨_, hloads.kept _ (held_prependDeclarations _ (hplaced.free_firstItem hposition) hheld),
      List.prefix_append _ _⟩

end Draft

end SdkMigration
