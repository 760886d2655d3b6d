import SdkMigration.Proofs.DeclaredNames
import SdkMigration.Proofs.ModuleImports
import SdkMigration.Proofs.TouchedText

/-!
# Declarations that import the module are merged

A file that has declarations at top level that import the module keeps one block
of them: it stands in the place of the first, and the others are removed.  None
of these edits is refused.  The edits of the stages before are replacements of
references and comments about names, and both stand apart from all declarations
and from the lines that a removal takes with it.
-/

namespace SdkMigration

open Declarations

/-! ## Edits that spare the declarations -/

/-- Whether an edit stands apart from the lines of declarations. -/
def Edit.Spares (body : Text) (found : List ModuleImport) (edit : Edit) : Prop :=
  ∀ declaration ∈ found, edit.span.Apart (wholeLines body declaration.span)

theorem Edit.not_overlaps_of_apart {a b : Edit} (h : a.span.Apart b.span) :
    a.overlaps b = false := by
  rcases h with h | h
  · exact not_overlaps_of_le h
  · rw [overlaps_comm]
    exact not_overlaps_of_le h

namespace Program.Placed

variable {program : Program} {body : Text} {module : String}

/-- A comment about a name spares the declarations. -/
theorem spares_comment (h : program.Placed body) {visit : Visit}
    (hstop : program.NamedStop visit) (advisory : Advisory) :
    (visit.comment body advisory).Spares body (program.moduleImports module) := by
  intro found hfound
  have hinside := (h.solid_moduleImport hfound).stop_le
  rcases h.sides hfound hstop with ⟨place, hstart, hplace, hink⟩ |
    ⟨next, hnext, hunblank, hstart, houter⟩
  · left
    have hlines := lt_wholeLines_start hink hinside hplace
    have hpoint := insertionPoint_le_start body.lineIndex visit.outer visit.start
    show insertionPoint body.lineIndex visit.outer visit.start ≤ _
    omega
  · right
    have hlength := h.landmarks.start_le hstop.marked
    refine Nat.le_trans (wholeLines_stop_le hunblank (Nat.le_trans hstart hlength) hnext) ?_
    show next ≤ insertionPoint body.lineIndex visit.outer visit.start
    rcases insertionPoint_mem body.lineIndex visit.outer visit.start with hpoint | hpoint
    · rw [hpoint]
      exact hstart
    · exact houter _ hpoint

/-- A replacement of a part of a reference spares the declarations. -/
theorem spares_reference (h : program.Placed body) {chain : Chain}
    (hchain : chain ∈ allReferences program.items) {edit : Edit} (hpart : chain.HasPart edit.span) :
    edit.Spares body (program.moduleImports module) := by
  intro found hfound
  obtain ⟨whole, hwhole, hbegins⟩ := allReferences_begun program.items chain hchain
  have hwholePlaced := h.landmarks.chains whole hwhole
  have hplaced := hbegins.placed hwholePlaced
  obtain ⟨item, hitem, hsome⟩ := List.mem_filterMap.mp hfound
  have himport := (mem_allLandmarks hitem).2.1 _ (landmarks_of_moduleImport hsome).1
  have hstart := hbegins.start_eq
  have hstop := hbegins.stop_le hwholePlaced
  have hapart : chain.span.Apart found.span := by
    rcases h.landmarks.apart_import hwhole himport with hapart | hapart
    · exact Or.inl (Nat.le_trans hstop hapart)
    · exact Or.inr (hstart ▸ hapart)
  have hlines := wholeLines_apart hplaced.ink_start hplaced.ink_stop hplaced.start_lt_stop
    (h.solid_moduleImport hfound).stop_le hapart
  obtain ⟨hpartStart, hpartStop⟩ := hpart.inside hplaced
  rcases hlines with hlines | hlines
  · exact Or.inl (Nat.le_trans hpartStop hlines)
  · exact Or.inr (Nat.le_trans hlines hpartStart)

/-- The lines of the declarations stand one behind the other. -/
theorem ordered_wholeLines (h : program.Placed body) :
    (program.moduleImports module).Pairwise fun a b =>
      (wholeLines body a.span).stop ≤ (wholeLines body b.span).start := by
  refine h.ordered_moduleImports.imp_of_mem fun {a b} ha hb hprecedes => ?_
  obtain ⟨next, hnext, hle, hunblank⟩ := hprecedes
  have hsolid := h.solid_moduleImport ha
  have hother := h.solid_moduleImport hb
  exact wholeLines_ordered hsolid.ink_stop hsolid.start_lt_stop hother.start_lt_stop hother.stop_le
    hunblank hnext hle

end Program.Placed

/-! ## The edits of the stage -/

namespace Draft

variable {body : Text} {draft : Draft}

/-- The removal of a declaration. -/
def removal (body : Text) (span : Span) : Edit := ⟨wholeLines body span, []⟩

/-- Edits that stand apart from all that are held and from each other are all
collected. -/
theorem held_removeDeclarations {others : List Span}
    (hfree : ∀ held ∈ draft.edits.held, ∀ span ∈ others, held.span.Apart (wholeLines body span))
    (hordered : others.Pairwise fun a b => (wholeLines body a).stop ≤ (wholeLines body b).start) :
    (others.foldl (fun draft span => draft.removeDeclaration body span) draft).edits.held =
      draft.edits.held ++ others.map (removal body) := by
  induction others generalizing draft with
  | nil => simp
  | cons first rest ih =>
    obtain ⟨hfirst, hrest⟩ := List.pairwise_cons.mp hordered
    have hremoved : draft.removeDeclaration body first =
        { draft with edits := draft.edits.append (removal body first) } := by
      unfold removeDeclaration
      rw [tryEdit_of_free fun held hheld => Edit.not_overlaps_of_apart
        (hfree held hheld first List.mem_cons_self)]
      rfl
    rw [List.foldl_cons, hremoved, ih ?_ hrest]
    · simp [Edits.append]
    · intro held hheld span hspan
      rcases List.mem_append.mp hheld with hheld | hheld
      · exact hfree held hheld span (List.mem_cons_of_mem _ hspan)
      · rw [List.mem_singleton.mp hheld]
        exact Or.inl (hfirst span hspan)

theorem held_replaceDeclarations_eq {first : Span} {others : List Span} {block : Text}
    (hblock : block ≠ [])
    (hfirst : ∀ held ∈ draft.edits.held, held.span.Apart first)
    (hfree : ∀ held ∈ draft.edits.held, ∀ span ∈ others, held.span.Apart (wholeLines body span))
    (hbehind : ∀ span ∈ others, first.stop ≤ (wholeLines body span).start)
    (hordered : others.Pairwise fun a b => (wholeLines body a).stop ≤ (wholeLines body b).start) :
    (draft.replaceDeclarations body first others block).edits.held =
      draft.edits.held ++ ⟨first, block⟩ :: others.map (removal body) := by
  have hempty : block.isEmpty = false := by simpa using hblock
  unfold replaceDeclarations
  simp only [hempty, Bool.false_eq_true, if_false]
  have hmarked : (if !others.isEmpty || body.slice first != block then draft.markImports
      else draft).edits = draft.edits := by
    split <;> rfl
  generalize (if !others.isEmpty || body.slice first != block then draft.markImports
    else draft) = marked at hmarked ⊢
  rw [← hmarked] at hfirst hfree ⊢
  rw [tryEdit_of_free fun held hheld => Edit.not_overlaps_of_apart (hfirst held hheld),
    held_removeDeclarations ?_ hordered]
  · simp [Edits.append]
  · intro held hheld span hspan
    rcases List.mem_append.mp hheld with hheld | hheld
    · exact hfree held hheld span hspan
    · rw [List.mem_singleton.mp hheld]
      exact Or.inl (hbehind span hspan)

/-- The comments for loads come behind all other edits. -/
theorem held_flagLoads (body : Text) (loads : List OpaqueLoad) (draft : Draft) :
    ∃ comments, (loads.foldl (flagLoad body) draft).edits.held = draft.edits.held ++ comments ∧
      ∀ comment ∈ comments, comment.isInsertion = true := by
  induction loads generalizing draft with
  | nil => exact ⟨[], by simp⟩
  | cons load rest ih =>
    have hload : ∃ comments,
        (draft.flagLoad body load).edits.held = draft.edits.held ++ comments ∧
          ∀ comment ∈ comments, comment.isInsertion = true := by
      refine insertComments_induction (motive := fun later => ∃ comments,
        later.edits.held = draft.edits.held ++ comments ∧
          ∀ comment ∈ comments, comment.isInsertion = true) body load.position _ ?_
        ⟨[], by simp [count]⟩
      rintro later advisory - ⟨comments, hheld, hall⟩
      unfold tryEdit
      split
      · exact ⟨comments, hheld, hall⟩
      · refine ⟨comments ++ [⟨Span.point load.position,
          advisory.insertion body load.position⟩], by simp [Edits.append, hheld],
          fun comment hcomment => ?_⟩
        rcases List.mem_append.mp hcomment with hcomment | hcomment
        · exact hall comment hcomment
        · rw [List.mem_singleton.mp hcomment]
          exact beq_self_eq_true _
    obtain ⟨comments, hheld, hall⟩ := hload
    obtain ⟨others, hothers, hrest⟩ := ih (draft.flagLoad body load)
    refine ⟨comments ++ others, ?_, fun comment hcomment => ?_⟩
    · rw [List.foldl_cons, hothers, hheld, List.append_assoc]
    · exact (List.mem_append.mp hcomment).elim (hall comment) (hrest comment)

end Draft

/-! ## Aliases -/

/-- An alias as it is declared. -/
def WholeImport.declared (whole : WholeImport) : String × WholeStyle := (whole.name, whole.style)

/-- Of the aliases with a name the first is declared, unless the name was met before. -/
theorem filter_distinctAliases (name : String) (list : List WholeImport) (seen : List String) :
    (distinctAliases seen list).filter (·.name == name) =
      if name ∈ seen then [] else (list.find? (·.name == name)).toList := by
  induction list generalizing seen with
  | nil => simp [distinctAliases]
  | cons first rest ih =>
    unfold distinctAliases
    by_cases hsame : first.name = name
    · subst hsame
      by_cases hseen : first.name ∈ seen
      · simp [hseen, ih]
      · simp [hseen, ih]
    · have hfind : (first.name == name) = false := beq_eq_false_iff_ne.mpr hsame
      by_cases hseen : first.name ∈ seen
      · simp [hseen, ih, hfind]
      · simp [hseen, ih, hfind, Ne.symm hsame]

/-- The first alias of a name is still the first when more aliases come behind. -/
theorem find?_of_prefix {found list : List WholeImport}
    (h : found.map WholeImport.declared <+: list.map WholeImport.declared) {name : String}
    {first : WholeImport} (hfirst : found.find? (·.name == name) = some first) :
    ∃ whole, list.find? (·.name == name) = some whole ∧ whole.declared = first.declared := by
  have hmapped : ∀ others : List WholeImport,
      (others.map WholeImport.declared).find? (·.1 == name) =
        (others.find? (·.name == name)).map WholeImport.declared := fun others => by
    rw [List.find?_map]
    rfl
  obtain ⟨more, hmore⟩ := h
  have hfind : (list.find? (·.name == name)).map WholeImport.declared = some first.declared := by
    rw [← hmapped, ← hmore, List.find?_append, hmapped, hfirst]
    rfl
  exact Option.map_eq_some_iff.mp hfind

/-- An alias is declared once, in the style of its first import. -/
theorem style_distinctAliases {found list : List WholeImport}
    (h : found.map WholeImport.declared <+: list.map WholeImport.declared) {name : String}
    {first : WholeImport} (hfirst : found.find? (·.name == name) = some first) :
    ((distinctAliases [] list).filter (·.name == name)).map WholeImport.style = [first.style] := by
  obtain ⟨whole, hwhole, hsame⟩ := find?_of_prefix h hfirst
  rw [filter_distinctAliases, if_neg List.not_mem_nil, hwhole]
  exact congrArg (fun declared => [declared.2]) hsame

/-- The declarations are those of the aliases, with at most others before them that
declare no alias. -/
theorem Bindings.declarations_eq_append (bindings : Bindings) (module : String)
    (sideEffect : Bool) :
    ∃ head, bindings.declarations module sideEffect =
        head ++ (distinctAliases [] bindings.whole).map (wholeDeclaration module) ∧
      ∀ line ∈ head, (∃ found, line = namedDeclaration module found) ∨
        line = "import " ++ quoted module ++ ";" := by
  unfold declarations
  simp only
  split
  · rename_i hnil
    obtain ⟨-, haliases⟩ := List.append_eq_nil_iff.mp hnil
    rw [haliases]
    split
    · exact ⟨[_], rfl, fun line hline => Or.inr (List.mem_singleton.mp hline)⟩
    · exact ⟨[], rfl, fun _ h => absurd h List.not_mem_nil⟩
  · refine ⟨_, rfl, fun line hline => ?_⟩
    split at hline
    · cases hline
    · exact Or.inl ⟨_, List.mem_singleton.mp hline⟩

/-! ## Bindings in the end -/

section Stages

variable {options : MigrationOptions} {dialect : Dialect} {body : Text} {program : Program}

private theorem learns_rewritten (hplaced : program.Placed body) :
    (opened options body program).bindings.Learns .any
      (rewritten options dialect body program).bindings :=
  have hcontinues : (opened options body program).Continues (fun _ => True) .any
      (rewritten options dialect body program) :=
    continues_references hplaced (fun _ _ _ => trivial) fun _ _ _ _ _ => trivial
  hcontinues.bindings

/-- The aliases that declarations bind come first in the end, too: only a tentative one
behind them may be dropped. -/
private theorem declared_finalDraft (hplaced : program.Placed body) :
    ((program.moduleImports options.module).flatMap (·.whole)).map WholeImport.declared <+:
      (finalDraft options dialect body program).bindings.whole.map WholeImport.declared := by
  have hfound := @Program.whole_eq program body options.module options.globalName
  have hopened : ∃ more, (opened options body program).bindings.whole =
      (program.importSites body options.module options.globalName).bindings.whole ++ more := by
    rcases @opened_bindings options body program with hsame | ⟨-, -, hadded⟩
    · exact ⟨[], by rw [hsame, List.append_nil]⟩
    · exact ⟨_, by rw [hadded]; rfl⟩
  obtain ⟨more, hmore⟩ := hopened
  -- The flag is read along with the declaration, because only tentative aliases are dropped.
  let read : WholeImport → (String × WholeStyle) × Bool :=
    fun whole => (whole.declared, whole.tentative)
  have hread : (rewritten options dialect body program).bindings.whole.map read =
      (opened options body program).bindings.whole.map read :=
    (learns_rewritten hplaced).map_whole fun whole learned h => by
      simp only [read, WholeImport.declared, h.name, h.style, h.tentative]
  rw [hmore, List.map_append] at hread
  obtain ⟨kept, others, hsplit, hkept, -⟩ := List.map_eq_append_iff.mp hread
  have hdeclared : kept.map WholeImport.declared =
      ((program.moduleImports options.module).flatMap (·.whole)).map WholeImport.declared := by
    have hfirst := congrArg (List.map Prod.fst) hkept
    rw [List.map_map, List.map_map, hfound] at hfirst
    exact hfirst
  have hfixed : ∀ whole ∈ kept, whole.tentative = false := by
    intro whole hwhole
    have hmem := List.mem_map_of_mem (f := read) hwhole
    rw [hkept] at hmem
    obtain ⟨first, hfirst, hsame⟩ := List.mem_map.mp hmem
    rw [← (Program.freshWhole_importSites hfirst).tentative]
    exact (congrArg Prod.snd hsame).symm
  rw [learns_flagLeftovers.map_whole fun whole learned h =>
    show learned.declared = whole.declared by
      simp only [WholeImport.declared, h.name, h.style], ← hdeclared]
  refine List.IsPrefix.map _ ?_
  simp only [referenceDraft]
  split
  · show kept <+: List.filter _ (rewritten options dialect body program).bindings.whole
    rw [hsplit, List.filter_append, List.filter_eq_self.mpr fun whole hwhole => by
      rw [hfixed whole hwhole]
      rfl]
    exact List.prefix_append _ _
  · rw [hsplit]
    exact List.prefix_append _ _

private theorem named_finalDraft (hplaced : program.Placed body) :
    (finalDraft options dialect body program).bindings.named.map NamedImport.localName =
      ((program.moduleImports options.module).flatMap (·.named)).map NamedImport.localName := by
  rw [learns_flagLeftovers.map_localName, referenceDraft_named,
    (learns_rewritten hplaced).map_localName, opened_named, Program.named_eq]

/-- A file with a declaration that imports the module keeps one. -/
private theorem importBlock_ne_nil (hplaced : program.Placed body)
    (hfound : program.moduleImports options.module ≠ []) :
    (finalDraft options dialect body program).importBlock
      (program.importSites body options.module options.globalName) options.module ≠ [] := by
  refine Bindings.block_ne_nil ?_
  obtain ⟨first, rest, hcons⟩ := List.exists_cons_of_ne_nil hfound
  have hmem : first ∈ program.moduleImports options.module := hcons ▸ List.mem_cons_self
  obtain ⟨item, -, hsome⟩ := List.mem_filterMap.mp hmem
  rcases binds_of_moduleImport hsome with hnamed | hwhole | hsideEffect
  · left
    intro hnil
    have hnames := @named_finalDraft options dialect body program hplaced
    rw [hnil, List.map_nil, eq_comm, List.map_eq_nil_iff, List.flatMap_eq_nil_iff] at hnames
    exact hnamed (hnames first hmem)
  · right
    left
    intro hnil
    have haliases := @declared_finalDraft options dialect body program hplaced
    rw [hnil, List.map_nil, List.prefix_nil, List.map_eq_nil_iff, List.flatMap_eq_nil_iff]
      at haliases
    exact hwhole (haliases first hmem)
  · right
    right
    rw [Program.sideEffect_eq]
    exact List.any_eq_true.mpr ⟨first, hmem, hsideEffect⟩

/-! ## Merging -/

/-- All edits before the declarations are rewritten spare them. -/
private theorem spares_flagged (hplaced : program.Placed body) :
    ∀ edit ∈ ((referenceDraft options dialect body program).flagLeftovers body
      program).edits.held, edit.Spares body (program.moduleImports options.module) := by
  have hrewritten : (opened options body program).Continues
      (Edit.Spares body (program.moduleImports options.module)) .any
      (rewritten options dialect body program) :=
    continues_references hplaced (fun _ hstop => hplaced.spares_comment hstop)
      fun _ hchain _ _ => hplaced.spares_reference hchain
  have hflagged : (referenceDraft options dialect body program).Continues
      (Edit.Spares body (program.moduleImports options.module)) .any
      ((referenceDraft options dialect body program).flagLeftovers body program) :=
    Draft.continues_flagLeftovers trivial fun _ hstop => hplaced.spares_comment hstop
  refine hflagged.forall_held ?_ fun _ h => h
  rw [referenceDraft_edits]
  refine hrewritten.forall_held ?_ fun _ h => h
  rw [opened_edits]
  exact fun _ h => absurd h List.not_mem_nil

/-- Whether a draft has merged declarations that import a module, the first and all
others, to one block. -/
structure Draft.Merges (final : Draft) (body : Text) (module : String) (first : ModuleImport)
    (others : List ModuleImport) (block : Text) : Prop where
  /-- The block takes the place of the first declaration, and is not empty. -/
  block_ne_nil : block ≠ []
  reads_block : final.edits.Reads body first.span block
  /-- The other declarations are removed. -/
  reads_others : ∀ other ∈ others, final.edits.Reads body (wholeLines body other.span) []
  /-- Each of these edits was collected, once and in this order.  Those before spare the
  declarations, and those behind insert comments. -/
  held : ∃ earlier later, final.edits.held = earlier ++ ⟨first.span, block⟩ ::
      others.map (fun other => ⟨wholeLines body other.span, []⟩) ++ later ∧
    (∀ edit ∈ earlier, edit.Spares body (first :: others)) ∧
    ∀ edit ∈ later, edit.isInsertion = true
  /-- A removal takes blanks with it, and only to take whole lines. -/
  widens : ∀ other ∈ others, (wholeLines body other.span).Widens body other.span
  coversLines : ∀ other ∈ others, wholeLines body other.span ≠ other.span →
    (wholeLines body other.span).CoversLines body
  /-- The block declares each alias once, in the style of its first import. -/
  aliases : ∃ (head : List String) (aliases : List WholeImport),
    block = ("\n".intercalate (head ++ aliases.map (wholeDeclaration module))).toList ∧
      (∀ line ∈ head, (∃ found, line = namedDeclaration module found) ∨
        line = "import " ++ quoted module ++ ";") ∧
      ∀ name whole, ((first :: others).flatMap (·.whole)).find? (·.name == name) = some whole →
        (aliases.filter (·.name == name)).map WholeImport.style = [whole.style]

/-- The stage replaces the first declaration by the block and removes the others. -/
theorem held_rewriteDeclarations (hplaced : program.Placed body) {first : ModuleImport}
    {others : List ModuleImport}
    (hfound : program.moduleImports options.module = first :: others) :
    let flagged := (referenceDraft options dialect body program).flagLeftovers body program
    let sites := program.importSites body options.module options.globalName
    let block := (finalDraft options dialect body program).importBlock sites options.module
    (flagged.rewriteDeclarations body sites options.module).edits.held =
      flagged.edits.held ++ ⟨first.span, block⟩ ::
        (others.map (·.span)).map (Draft.removal body) := by
  intro flagged sites block
  have hspares : ∀ edit ∈ flagged.edits.held, edit.Spares body (first :: others) := by
    rw [← hfound]
    exact spares_flagged hplaced
  have hdeclarations : sites.declarations = first.span :: others.map (·.span) := by
    rw [Program.declarations_eq, hfound]
    rfl
  have hblock : flagged.importBlock sites options.module = block := by
    show flagged.importBlock _ _ = (finalDraft options dialect body program).importBlock _ _
    unfold Draft.importBlock
    rw [← finalDraft_bindings]
  have hne : block ≠ [] := importBlock_ne_nil hplaced (by simp [hfound])
  have hordered := @Program.Placed.ordered_wholeLines program body options.module hplaced
  rw [hfound] at hordered
  obtain ⟨hbehind, hrest⟩ := List.pairwise_cons.mp hordered
  have hwidens := wholeLines_widens
    (hplaced.solid_moduleImport (hfound ▸ List.mem_cons_self)).stop_le
  unfold Draft.rewriteDeclarations
  rw [hdeclarations, hblock]
  refine Draft.held_replaceDeclarations_eq hne ?_ ?_ ?_ (List.pairwise_map.mpr hrest)
  · intro held hheld
    rcases hspares held hheld first List.mem_cons_self with hapart | hapart
    · exact Or.inl (Nat.le_trans hapart hwidens.start_le)
    · exact Or.inr (Nat.le_trans hwidens.le_stop hapart)
  · intro held hheld span hspan
    obtain ⟨other, hother, rfl⟩ := List.mem_map.mp hspan
    exact hspares held hheld other (List.mem_cons_of_mem _ hother)
  · intro span hspan
    obtain ⟨other, hother, rfl⟩ := List.mem_map.mp hspan
    exact Nat.le_trans hwidens.le_stop (hbehind other hother)

/-- The edits of a program with declarations that import the module. -/
private theorem held_finalDraft (hplaced : program.Placed body) {first : ModuleImport}
    {others : List ModuleImport}
    (hfound : program.moduleImports options.module = first :: others) :
    let final := finalDraft options dialect body program
    let block := final.importBlock
      (program.importSites body options.module options.globalName) options.module
    ∃ earlier later, final.edits.held = earlier ++ ⟨first.span, block⟩ ::
        others.map (fun other => ⟨wholeLines body other.span, []⟩) ++ later ∧
      (∀ edit ∈ earlier, edit.Spares body (first :: others)) ∧
      ∀ edit ∈ later, edit.isInsertion = true := by
  intro final block
  let flagged := (referenceDraft options dialect body program).flagLeftovers body program
  let sites := program.importSites body options.module options.globalName
  have hreplaced := @held_rewriteDeclarations options dialect body program hplaced _ _ hfound
  obtain ⟨later, hheld, hlater⟩ := Draft.held_flagLoads body sites.opaqueLoads
    (flagged.rewriteDeclarations body sites options.module)
  refine ⟨flagged.edits.held, later, ?_, hfound ▸ spares_flagged hplaced, hlater⟩
  show (flagged.rewriteImports body sites options.module).edits.held = _
  rw [Draft.rewriteImports_eq, hheld, hreplaced, List.map_map]
  rfl

/-- The declarations of a program are merged. -/
theorem merges_finalDraft (hplaced : program.Placed body) {first : ModuleImport}
    {others : List ModuleImport}
    (hfound : program.moduleImports options.module = first :: others) :
    let final := finalDraft options dialect body program
    final.Merges body options.module first others
      (final.importBlock (program.importSites body options.module options.globalName)
        options.module) := by
  intro final
  have hsolid : ∀ found ∈ first :: others, found.span.Solid body body.length :=
    fun found hmem => hplaced.solid_moduleImport (hfound ▸ hmem)
  have hconsistent := (@finalDraft_legacyEdits options dialect body program hplaced).2
  have hheld := @held_finalDraft options dialect body program hplaced first others hfound
  have hwidens : ∀ other ∈ others, (wholeLines body other.span).Widens body other.span :=
    fun other hother => wholeLines_widens (hsolid other (List.mem_cons_of_mem _ hother)).stop_le
  -- Consistent edits that are held are carried out as they are, if they are no insertions.
  refine ⟨importBlock_ne_nil hplaced (by simp [hfound]), ?_, ?_, hheld, hwidens, ?_, ?_⟩
  · obtain ⟨earlier, later, hall, -⟩ := hheld
    refine @Edits.Consistent.reads_held _ hconsistent body ⟨first.span, _⟩ ?_
      (hsolid first List.mem_cons_self).start_lt_stop
    rw [hall]
    exact List.mem_append_left _ (List.mem_append_right _ List.mem_cons_self)
  · intro other hother
    obtain ⟨earlier, later, hall, -⟩ := hheld
    have hlt := (hsolid other (List.mem_cons_of_mem _ hother)).start_lt_stop
    have hwide := hwidens other hother
    refine @Edits.Consistent.reads_held _ hconsistent body ⟨wholeLines body other.span, []⟩ ?_ ?_
    · rw [hall]
      exact List.mem_append_left _ (List.mem_append_right _ (List.mem_cons_of_mem _
        (List.mem_map_of_mem hother)))
    · exact Nat.lt_of_le_of_lt hwide.start_le (Nat.lt_of_lt_of_le hlt hwide.le_stop)
  · exact fun other hother hwidened => coversLines_of_widened
      (hsolid other (List.mem_cons_of_mem _ hother)).stop_le hwidened
  · obtain ⟨head, hlines, hhead⟩ := final.bindings.declarations_eq_append options.module
      (program.importSites body options.module options.globalName).sideEffect
    refine ⟨head, distinctAliases [] final.bindings.whole, ?_, hhead, fun name whole hwhole => ?_⟩
    · unfold Draft.importBlock
      rw [hlines]
    · rw [← hfound] at hwhole
      exact style_distinctAliases (declared_finalDraft hplaced) hwhole

end Stages

/-- Whatever the mapping is, the declarations at top level that import the module are
merged in an accepted file: a block that is not empty stands in the place of the
first, the others are removed with the lines that they have for themselves, and
every alias is declared once, in the style of its first import. -/
theorem transform_merges_imports {options : MigrationOptions} {location : String}
    {mediaType : MediaType} {text : Text} {file : MigratedFile}
    (h : transform options location mediaType text = .ok file) :
    let body := Program.withoutMark text
    ∃ dialect program, mediaType.dialect? = some dialect ∧
      Program.read? dialect body = some program ∧
      let final := finalDraft options dialect body program
      let sites := program.importSites body options.module options.globalName
      file.text = final.edits.apply body ∧
        ∀ first others, program.moduleImports options.module = first :: others →
          final.Merges body options.module first others
            (final.importBlock sites options.module) := by
  intro body
  obtain ⟨dialect, program, hdialect, hread, rfl⟩ := transform_eq_ok h
  exact ⟨dialect, program, hdialect, hread, rfl, fun first others hfound =>
    merges_finalDraft (Program.placed_of_read hread) hfound⟩

/-- A migration without rules. -/
private def noRules : MigrationOptions where
  module := "legacy"
  mappings := {}

/-- A file with three declarations, one of which shares its line. -/
private def threeImportsFile : Text :=
  ("import * as a from \"legacy\";\nimport b, \x7b c \x7d from \"legacy\"; // b\n" ++
    "  import a = require(\"legacy\");\na.f(b, c);\n").toList

private theorem threeImportsFile_facts :
    ((transform noRules "file:///mod.ts" .typeScript threeImportsFile).toOption.map (·.text)) =
        some ("import \x7b c \x7d from \"legacy\";\nimport * as a from \"legacy\";\n" ++
          "import b from \"legacy\";\n // b\na.f(b, c);\n").toList ∧
      (Program.read? ⟨true, false, true⟩ threeImportsFile).map
        (fun program => (program.moduleImports "legacy").length) = some 3 := by
  decide +kernel

/-- The three declarations of the file are merged to one block. -/
theorem threeImportsFile_merges :
    ∃ program file first others, Program.read? ⟨true, false, true⟩ threeImportsFile = some program ∧
      transform noRules "file:///mod.ts" .typeScript threeImportsFile = .ok file ∧
      program.moduleImports "legacy" = first :: others ∧ others.length = 2 ∧
      (finalDraft noRules ⟨true, false, true⟩ threeImportsFile program).Merges threeImportsFile
        "legacy" first others
        ((finalDraft noRules ⟨true, false, true⟩ threeImportsFile program).importBlock
          (program.importSites threeImportsFile "legacy" defaultAlias) "legacy") := by
  obtain ⟨htext, hlength⟩ := threeImportsFile_facts
  cases hfile : transform noRules "file:///mod.ts" .typeScript threeImportsFile with
  | error e =>
    rw [hfile] at htext
    cases htext
  | ok file =>
    obtain ⟨dialect, program, hdialect, hread, -, hmerges⟩ := transform_merges_imports hfile
    obtain rfl := Option.some.inj hdialect
    have hread' : Program.read? ⟨true, false, true⟩ threeImportsFile = some program := hread
    rw [hread', Option.map_some, Option.some.injEq] at hlength
    cases hfound : program.moduleImports "legacy" with
    | nil =>
      rw [hfound] at hlength
      cases hlength
    | cons first others =>
      rw [hfound] at hlength
      exact ⟨program, file, first, others, hread', rfl, hfound, Nat.succ.inj hlength,
        hmerges first others hfound⟩

end SdkMigration
