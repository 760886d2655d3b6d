import SdkMigration.Proofs.AccountedFiles
import SdkMigration.Proofs.CommentLines
import SdkMigration.Proofs.UnrelatedFiles

/-!
# Running a migration again

A migrated file is migrated like any other one.  Its references were dealt with, so the run
rewrites and flags none of them, and the declarations that import the module stand as they were
written: one line below the other.

The run still writes the declarations anew.  It puts all lines in the place of the first one and
removes the others with the line feeds behind them, so the line feed behind the first one comes to
stand behind the whole block.  The file stays as it is if one stood there before, and changes
otherwise (`transform_again_iff`).
-/

namespace SdkMigration

/-! ## Runs that leave the references alone -/

/-- Whether a report counts no reference that was rewritten or flagged. -/
structure Report.SparesReferences (report : Report) : Prop where
  rewrittenCalls : report.rewrittenCalls = 0
  rewrittenTypes : report.rewrittenTypes = 0
  rewrittenEnums : report.rewrittenEnums = 0
  flaggedCalls : report.flaggedCalls = 0
  flaggedReferences : report.flaggedReferences = 0

namespace Report

instance (report : Report) : Decidable report.SparesReferences :=
  decidable_of_iff
    (report.rewrittenCalls = 0 ∧ report.rewrittenTypes = 0 ∧ report.rewrittenEnums = 0 ∧
      report.flaggedCalls = 0 ∧ report.flaggedReferences = 0)
    ⟨fun ⟨hcalls, htypes, henums, hflagged, hleft⟩ => ⟨hcalls, htypes, henums, hflagged, hleft⟩,
      fun h => ⟨h.rewrittenCalls, h.rewrittenTypes, h.rewrittenEnums, h.flaggedCalls,
        h.flaggedReferences⟩⟩

theorem sparesReferences_add {a b : Report} :
    (a.add b).SparesReferences ↔ a.SparesReferences ∧ b.SparesReferences := by
  constructor
  · rintro ⟨hcalls, htypes, henums, hflagged, hleft⟩
    simp only [add, Nat.add_eq_zero_iff] at hcalls htypes henums hflagged hleft
    exact ⟨⟨hcalls.1, htypes.1, henums.1, hflagged.1, hleft.1⟩,
      ⟨hcalls.2, htypes.2, henums.2, hflagged.2, hleft.2⟩⟩
  · rintro ⟨ha, hb⟩
    constructor <;> simp [add, ha.rewrittenCalls, ha.rewrittenTypes, ha.rewrittenEnums,
      ha.flaggedCalls, ha.flaggedReferences, hb.rewrittenCalls, hb.rewrittenTypes,
      hb.rewrittenEnums, hb.flaggedCalls, hb.flaggedReferences]

theorem sparesReferences_enter {report : Report} {entries : List Entry} :
    (report.enter entries).SparesReferences ↔
      report.SparesReferences ∧ ∀ entry ∈ entries, entry.report.SparesReferences := by
  unfold enter
  induction entries generalizing report with
  | nil => simp
  | cons entry rest ih =>
    rw [List.foldl_cons, ih, sparesReferences_add, and_assoc, List.forall_mem_cons]

end Report

namespace Entry

/-- Whether an entry is made for a reference. -/
inductive OfReferences : Entry → Prop where
  | call (edit : Edit) : OfReferences (.call edit)
  | flaggedCall (comments : List Edit) : OfReferences (.flaggedCall comments)
  | unmatchedCall : OfReferences .unmatchedCall
  | type (edit : Edit) : OfReferences (.type edit)
  | enum (edit : Edit) : OfReferences (.enum edit)
  | leftReference (comments : List Edit) : OfReferences (.leftReference comments)

/-- A reference that is not counted was not touched. -/
theorem OfReferences.edits_eq_nil {entry : Entry} (h : entry.OfReferences)
    (hspares : entry.report.SparesReferences) : entry.edits = [] := by
  cases h with
  | call => cases hspares.rewrittenCalls
  | flaggedCall => cases hspares.flaggedCalls
  | unmatchedCall => rfl
  | type => cases hspares.rewrittenTypes
  | enum => cases hspares.rewrittenEnums
  | leftReference => cases hspares.flaggedReferences

end Entry

theorem Draft.Enters.mono {allowed other : Entry → Prop} {before after : Draft}
    (h : before.Enters allowed after) (himp : ∀ entry, allowed entry → other entry) :
    before.Enters other after := by
  obtain ⟨entries, hentries, hheld, hreport⟩ := h
  exact ⟨entries, fun entry hentry => himp entry (hentries entry hentry), hheld, hreport⟩

section Files

variable {options : MigrationOptions} {dialect : Dialect} {body : Text} {program : Program}

/-- All stages before the last one enter what they do for references. -/
theorem enters_flagged :
    ∃ entries : List Entry, (∀ entry ∈ entries, entry.OfReferences) ∧
      (flagged options dialect body program).edits.held.Perm (entries.flatMap Entry.edits) ∧
      (flagged options dialect body program).report = ({} : Report).enter entries := by
  have hcalled : (opened options body program).Enters Entry.OfReferences
      (beforeTypes options body program) :=
    Draft.enters_rewriteCalls.mono (by rintro - ⟨⟩ <;> constructor)
  obtain ⟨htyped, hrewritten⟩ := @enters_typed options dialect body program
  have hreferences := (hcalled.trans (htyped.mono (by rintro - ⟨⟩; constructor))).trans
    (hrewritten.mono (by rintro - ⟨⟩; constructor))
  have hsettled : (rewritten options dialect body program).Enters Entry.OfReferences
      (referenceDraft options dialect body program) :=
    .of_eq (congrArg Edits.held referenceDraft_edits) referenceDraft_report
  have hleft : (referenceDraft options dialect body program).Enters Entry.OfReferences
      (flagged options dialect body program) :=
    Draft.enters_flagLeftovers.mono (by rintro - ⟨⟩; constructor)
  obtain ⟨entries, hentries, hheld, hreport⟩ := (hreferences.trans hsettled).trans hleft
  rw [opened_edits, List.nil_append] at hheld
  rw [opened_report] at hreport
  exact ⟨entries, hentries, hheld, hreport⟩

/-- Where the report of the whole run counts no reference, nothing was written before the
declarations are rewritten. -/
theorem held_flagged (hplaced : program.Placed body)
    (hspares : (finalDraft options dialect body program).report.SparesReferences) :
    (flagged options dialect body program).edits.held = [] := by
  have hsolid : ∀ span ∈
      (program.importSites body options.module options.globalName).declarations,
      span.Solid body body.length :=
    fun span hspan => hplaced.landmarks.solid span (Program.mem_declarations hspan)
  obtain ⟨entries, hentries, hheld, hreport⟩ := @enters_flagged options dialect body program
  have himported : (flagged options dialect body program).Enters _
      (finalDraft options dialect body program) := Draft.enters_rewriteImports hsolid
  obtain ⟨imports, -, -, hfinal⟩ := himported
  rw [hfinal, Report.sparesReferences_enter, hreport, Report.sparesReferences_enter] at hspares
  have hnone : entries.flatMap Entry.edits = [] :=
    List.flatMap_eq_nil_iff.mpr fun entry hentry =>
      (hentries entry hentry).edits_eq_nil (hspares.1.2 entry hentry)
  rw [hnone] at hheld
  exact hheld.eq_nil

end Files

/-! ## Declarations one line below the other -/

/-- Whether each of the spans ends with a line and the next one starts with the line below. -/
def Text.Stacked (text : Text) (spans : List Span) : Prop :=
  spans.IsChain fun a b => b.start = a.stop + 1 ∧ text[a.stop]? = some '\n'

/-- Whether the declarations that import the module are the lines of a block. -/
structure Program.StandsAsBlock (program : Program) (body : Text) (module : String)
    (lines : List String) : Prop where
  lines : (program.moduleImports module).map (fun found => body.slice found.span) =
    lines.map String.toList
  stacked : body.Stacked ((program.moduleImports module).map (·.span))

instance (text : Text) (spans : List Span) : Decidable (text.Stacked spans) :=
  inferInstanceAs (Decidable (List.IsChain _ _))

instance (program : Program) (body : Text) (module : String) (lines : List String) :
    Decidable (program.StandsAsBlock body module lines) :=
  decidable_of_iff
    ((program.moduleImports module).map (fun found => body.slice found.span) =
        lines.map String.toList ∧
      body.Stacked ((program.moduleImports module).map (·.span)))
    ⟨fun ⟨hlines, hstacked⟩ => ⟨hlines, hstacked⟩, fun h => ⟨h.lines, h.stacked⟩⟩

section Lines

variable {text : Text} {span : Span}

theorem Text.lineStart_of_startsLine {position : Nat} (hposition : position ≤ text.length)
    (h : text.StartsLine position) : text.lineStart position = position :=
  Nat.le_antisymm (text.lineStart_le position) (Text.le_lineStart hposition h (Nat.le_refl _))

/-- Where a line starts with a declaration, nothing before it is removed. -/
theorem wholeLines_start (hspan : span.stop ≤ text.length) (h : text.StartsLine span.start) :
    (wholeLines text span).start = span.start := by
  have hline := Text.lineStart_of_startsLine (Nat.le_trans span.start_le_stop hspan) h
  simp only [wholeLines, hline]
  split <;> rfl

theorem Text.nextLineStart?_of_feed {position : Nat} (h : text[position]? = some '\n') :
    text.nextLineStart? position = some (position + 1) := by
  obtain ⟨hlt, hfeed⟩ := List.getElem?_eq_some_iff.mp h
  rw [nextLineStart?, List.drop_eq_getElem_cons hlt, hfeed]
  simp [hlt]

/-- A declaration that is a line is removed with its line feed. -/
theorem wholeLines_of_line (h : text.StartsLine span.start) (hfeed : text[span.stop]? = some '\n') :
    (wholeLines text span).stop = span.stop + 1 := by
  obtain ⟨hlt, hget⟩ := List.getElem?_eq_some_iff.mp hfeed
  have hle := span.start_le_stop
  have hline := Text.lineStart_of_startsLine (by omega) h
  have hstop : (Span.between span.stop (span.stop + 1)).stop = span.stop + 1 :=
    Nat.max_eq_right (Nat.le_succ _)
  have hbehind : text.slice (Span.between span.stop (span.stop + 1)) = ['\n'] := by
    rw [Text.slice, hstop, List.drop_take]
    show (text.drop span.stop).take (span.stop + 1 - span.stop) = _
    rw [Nat.add_sub_cancel_left, List.drop_eq_getElem_cons hlt, hget]
    rfl
  have hblank : Text.isAllBlank ['\n'] = true := by decide
  simp only [wholeLines, hline, Text.nextLineStart?_of_feed hfeed, Option.getD_some,
    text.isAllBlank_slice_point, hbehind, hblank, Bool.and_self, if_true]
  exact Nat.max_eq_right (by omega)

theorem Text.drop_start (text : Text) (span : Span) :
    text.drop span.start = text.slice span ++ text.drop span.stop := by
  have hstop : text.drop span.stop =
      (text.drop span.start).drop (span.stop - span.start) := by
    rw [List.drop_drop, Nat.add_sub_cancel' span.start_le_stop]
  rw [slice, List.drop_take, hstop, List.take_append_drop]

theorem Text.drop_feed {position : Nat} (h : text[position]? = some '\n') :
    text.drop position = '\n' :: text.drop (position + 1) := by
  obtain ⟨hlt, hget⟩ := List.getElem?_eq_some_iff.mp h
  rw [List.drop_eq_getElem_cons hlt, hget]

/-- Each of the spans but the first starts a line. -/
theorem Text.Stacked.startsLine {first : Span} {others : List Span}
    (h : text.Stacked (first :: others)) : ∀ span ∈ others, text.StartsLine span.start := by
  induction others generalizing first with
  | nil => exact nofun
  | cons second rest ih =>
    obtain ⟨⟨hbelow, hfeed⟩, hrest⟩ := List.isChain_cons_cons.mp h
    refine List.forall_mem_cons.mpr ⟨?_, ih hrest⟩
    rw [hbelow]
    exact Or.inr hfeed

/-- Spans one line below the other hold a block. -/
theorem Text.Stacked.drop_start {first : Span} {others : List Span}
    (h : text.Stacked (first :: others)) :
    text.drop first.start = ['\n'].intercalate ((first :: others).map text.slice) ++
      text.drop ((first :: others).getLast (List.cons_ne_nil _ _)).stop := by
  induction others generalizing first with
  | nil => simpa using text.drop_start first
  | cons second rest ih =>
    obtain ⟨⟨hbelow, hfeed⟩, hrest⟩ := List.isChain_cons_cons.mp h
    rw [text.drop_start first, text.drop_feed hfeed, ← hbelow, ih hrest,
      List.getLast_cons (List.cons_ne_nil _ _)]
    simp only [List.map_cons, List.intercalate_cons_cons, List.append_assoc, List.cons_append,
      List.nil_append]

/-- The removals of spans one line below the other remove all from the first line on, up to where
that ends which the last one takes with it. -/
theorem Text.Stacked.splice_removals {first : Span} {others : List Span}
    (h : text.Stacked (first :: others)) (hstart : text.StartsLine first.start)
    (hinside : ∀ span ∈ first :: others, span.stop ≤ text.length) :
    Edits.splice first.start (text.drop first.start)
        ((first :: others).map (Draft.removal text)) =
      text.drop
        (wholeLines text ((first :: others).getLast (List.cons_ne_nil _ _))).stop := by
  induction others generalizing first with
  | nil =>
    have hwhole := wholeLines_start (hinside first List.mem_cons_self) hstart
    have hle := (wholeLines text first).start_le_stop
    simp only [List.map_cons, List.map_nil, Edits.splice, Draft.removal, hwhole, Nat.sub_self,
      List.take_zero, List.nil_append, List.drop_drop, List.getLast_singleton]
    rw [hwhole] at hle
    rw [Nat.add_sub_cancel' hle]
  | cons second rest ih =>
    obtain ⟨⟨hbelow, hfeed⟩, hrest⟩ := List.isChain_cons_cons.mp h
    have hwhole := wholeLines_start (hinside first List.mem_cons_self) hstart
    have hstop := wholeLines_of_line hstart hfeed
    have hle := first.start_le_stop
    have hnext := h.startsLine second List.mem_cons_self
    rw [List.map_cons, Edits.splice, List.getLast_cons (List.cons_ne_nil _ _),
      ← ih hrest hnext fun span hspan => hinside span (List.mem_cons_of_mem _ hspan)]
    simp only [Draft.removal, hwhole, hstop, Nat.sub_self, List.take_zero, List.nil_append,
      List.drop_drop, hbelow]
    congr 2
    omega

end Lines

/-! ## The declarations are written anew -/

/-- A text does not come to start with another character by a change behind its first ones. -/
theorem Text.ne_of_shifted {before behind other : Text} {c mark : Char} (h : c ≠ mark) :
    before ++ c :: behind ≠ mark :: (before ++ c :: other) := by
  induction before generalizing mark with
  | nil => exact fun hsame => h (List.cons.inj hsame).1
  | cons first rest ih =>
    intro hsame
    obtain ⟨rfl, hrest⟩ := List.cons.inj hsame
    exact ih h hrest

section Blocks

variable {text block : Text} {first : Span} {others : List Span}

/-- The block in the place of the first line, and the others removed. -/
def rewrittenBlock (text : Text) (first : Span) (others : List Span) (block : Text) : List Edit :=
  ⟨first, block⟩ :: others.map (Draft.removal text)

/-- Lines that are written anew are followed by a line feed, whatever stands behind them. -/
theorem Text.Stacked.splice_rewrittenBlock {second : Span}
    (h : text.Stacked (first :: second :: others))
    (hinside : ∀ span ∈ first :: second :: others, span.stop ≤ text.length) :
    Edits.splice 0 text (rewrittenBlock text first (second :: others) block) =
      text.take first.start ++ block ++ '\n' ::
        text.drop
          (wholeLines text ((second :: others).getLast (List.cons_ne_nil _ _))).stop := by
  obtain ⟨⟨hbelow, hfeed⟩, hrest⟩ := List.isChain_cons_cons.mp h
  have hsecond := h.startsLine second List.mem_cons_self
  have hremoved := Text.Stacked.splice_removals hrest hsecond fun span hspan =>
    hinside span (List.mem_cons_of_mem _ hspan)
  have hstart := wholeLines_start (hinside second (by simp)) hsecond
  have hle := (wholeLines text second).start_le_stop
  -- The line feed behind the first line stands before the first removal.
  have hfirst : (text.drop first.stop).take (second.start - first.stop) = ['\n'] := by
    rw [hbelow, Nat.add_sub_cancel_left, text.drop_feed hfeed]
    rfl
  rw [rewrittenBlock, Edits.splice, Nat.sub_zero, Nat.sub_zero, ← hremoved]
  simp only [List.map_cons, Edits.splice, Draft.removal, hstart, hfirst, List.drop_drop,
    Nat.sub_self, List.take_zero, List.append_nil, List.nil_append, List.singleton_append]
  congr 4
  omega

/-- Carrying out the edits of a block leaves the text as it is exactly when the block has one line
or a line feed stands behind it. -/
theorem Text.Stacked.rewrittenBlock_same_iff (h : text.Stacked (first :: others))
    (hinside : ∀ span ∈ first :: others, span.stop ≤ text.length)
    (hblock : block = ['\n'].intercalate ((first :: others).map text.slice)) :
    Edits.splice 0 text (rewrittenBlock text first others block) = text ↔
      others = [] ∨
        text[((first :: others).getLast (List.cons_ne_nil _ _)).stop]? = some '\n' := by
  have htext : text = text.take first.start ++ block ++
      text.drop ((first :: others).getLast (List.cons_ne_nil _ _)).stop := by
    rw [hblock, List.append_assoc, ← h.drop_start, List.take_append_drop]
  cases others with
  | nil =>
    simp only [rewrittenBlock, List.map_nil, Edits.splice, Nat.sub_zero, true_or, iff_true]
    exact htext.symm
  | cons second rest =>
    rw [h.splice_rewrittenBlock hinside]
    rw [List.getLast_cons (List.cons_ne_nil _ _)] at htext ⊢
    have hlast := List.getLast_mem (List.cons_ne_nil second rest)
    generalize (second :: rest).getLast (List.cons_ne_nil _ _) = last at htext hlast ⊢
    simp only [reduceCtorEq, false_or]
    constructor
    · intro hsame
      have hbehind : '\n' :: text.drop (wholeLines text last).stop = text.drop last.stop :=
        List.append_cancel_left (hsame.trans htext)
      have hhead := congrArg List.head? hbehind
      rw [List.head?_drop] at hhead
      exact hhead.symm
    · intro hfeed
      rw [wholeLines_of_line (h.startsLine last hlast) hfeed, ← text.drop_feed hfeed]
      exact htext.symm

/-- A block that is written anew does not bring a byte order mark back. -/
theorem Text.Stacked.rewrittenBlock_ne_marked (h : text.Stacked (first :: others))
    (hblock : block = ['\n'].intercalate ((first :: others).map text.slice))
    {c mark : Char} {rest : Text} (hstart : block = c :: rest) (hmark : c ≠ mark) :
    Edits.splice 0 text (rewrittenBlock text first others block) ≠ mark :: text := by
  have htext : text = text.take first.start ++ c :: (rest ++
      text.drop ((first :: others).getLast (List.cons_ne_nil _ _)).stop) := by
    rw [← List.cons_append, ← hstart, hblock, ← h.drop_start, List.take_append_drop]
  have hwritten : Edits.splice 0 text (rewrittenBlock text first others block) =
      text.take first.start ++ c :: (rest ++ Edits.splice first.stop (text.drop first.stop)
        (others.map (Draft.removal text))) := by
    rw [rewrittenBlock, Edits.splice, Nat.sub_zero, Nat.sub_zero, hstart, List.append_assoc,
      List.cons_append]
  intro hsame
  exact Text.ne_of_shifted hmark
    ((hwritten.symm.trans hsame).trans (congrArg (mark :: ·) htext))

end Blocks

/-- Every declaration starts like one. -/
theorem Bindings.declarations_start {bindings : Bindings} {module : String} {sideEffect : Bool} :
    ∀ line ∈ bindings.declarations module sideEffect, ∃ rest, line.toList = 'i' :: rest := by
  obtain ⟨head, hlines, hhead⟩ := bindings.declarations_eq_append module sideEffect
  intro line hline
  rw [hlines] at hline
  have himport : ∀ rest : String, ∃ chars, ("import " ++ rest).toList = 'i' :: chars :=
    fun rest => ⟨_, String.toList_append⟩
  rcases List.mem_append.mp hline with hline | hline
  · rcases hhead line hline with ⟨found, rfl⟩ | rfl
    · simp only [Declarations.namedDeclaration, String.append_assoc]
      exact himport _
    · rw [String.append_assoc]
      exact himport _
  · obtain ⟨whole, -, rfl⟩ := List.mem_map.mp hline
    simp only [Declarations.wholeDeclaration, String.append_assoc]
    exact himport _

theorem Bindings.block_start {bindings : Bindings} {module : String} {sideEffect : Bool}
    (h : bindings.declarations module sideEffect ≠ []) :
    ∃ rest, ("\n".intercalate (bindings.declarations module sideEffect)).toList =
      'i' :: rest := by
  obtain ⟨line, others, hlines⟩ := List.exists_cons_of_ne_nil h
  obtain ⟨rest, hrest⟩ := Bindings.declarations_start line (hlines ▸ List.mem_cons_self)
  rw [hlines, String.toList_intercalate, List.map_cons, hrest]
  cases others with
  | nil => exact ⟨rest, by simp⟩
  | cons second more => exact ⟨_, by rw [List.map_cons, List.intercalate_cons_cons]; rfl⟩

theorem Program.StandsAsBlock.block_eq {program : Program} {body : Text} {module : String}
    {lines : List String} (h : program.StandsAsBlock body module lines) :
    ("\n".intercalate lines).toList =
      ['\n'].intercalate (((program.moduleImports module).map (·.span)).map body.slice) := by
  rw [String.toList_intercalate, ← h.lines, List.map_map]
  rfl

section Files

variable {options : MigrationOptions} {dialect : Dialect} {body : Text} {program : Program}

/-- The edits of a run that leaves the references alone. -/
theorem held_finalDraft_of_spares (hplaced : program.Placed body)
    (hspares : (finalDraft options dialect body program).report.SparesReferences)
    (hloads : ∀ load ∈
      (program.importSites body options.module options.globalName).opaqueLoads,
      load.kind.advisory ∈ Advisory.above body load.position)
    {first : ModuleImport} {others : List ModuleImport}
    (hfound : program.moduleImports options.module = first :: others) :
    (finalDraft options dialect body program).edits.held =
      rewrittenBlock body first.span (others.map (·.span))
        ((finalDraft options dialect body program).importBlock
          (program.importSites body options.module options.globalName) options.module) := by
  show ((flagged options dialect body program).rewriteImports body _ _).edits.held = _
  rw [Draft.rewriteImports_eq, Draft.edits_flagLoads _ hloads,
    held_rewriteDeclarations hplaced hfound, held_flagged hplaced hspares]
  rfl

/-- The text of such a run. -/
theorem apply_finalDraft_of_spares (hplaced : program.Placed body)
    (hspares : (finalDraft options dialect body program).report.SparesReferences)
    (hloads : ∀ load ∈
      (program.importSites body options.module options.globalName).opaqueLoads,
      load.kind.advisory ∈ Advisory.above body load.position)
    {first : ModuleImport} {others : List ModuleImport}
    (hfound : program.moduleImports options.module = first :: others) :
    (finalDraft options dialect body program).edits.apply body =
      Edits.splice 0 body (rewrittenBlock body first.span (others.map (·.span))
        ((finalDraft options dialect body program).importBlock
          (program.importSites body options.module options.globalName) options.module)) := by
  have hheld := held_finalDraft_of_spares hplaced hspares hloads hfound
  have hordered := @Program.Placed.ordered_wholeLines program body options.module hplaced
  have hwidens : ∀ found ∈ program.moduleImports options.module,
      (wholeLines body found.span).Widens body found.span :=
    fun found hmem => wholeLines_widens (hplaced.solid_moduleImport hmem).stop_le
  rw [hfound] at hordered hwidens
  obtain ⟨hbehind, hrest⟩ := List.pairwise_cons.mp hordered
  have hfirst := hwidens first List.mem_cons_self
  rw [Edits.apply_eq_splice ?_ ?_, hheld]
  · rw [hheld, rewrittenBlock, List.map_map]
    refine List.pairwise_cons.mpr ⟨fun edit hedit => ?_, List.pairwise_map.mpr hrest⟩
    obtain ⟨other, hother, rfl⟩ := List.mem_map.mp hedit
    exact Nat.le_trans hfirst.le_stop (hbehind other hother)
  · rw [hheld, rewrittenBlock, List.map_map]
    refine List.forall_mem_cons.mpr ⟨Nat.le_trans hfirst.le_stop hfirst.inside, fun edit hedit => ?_⟩
    obtain ⟨other, hother, rfl⟩ := List.mem_map.mp hedit
    exact (hwidens other (List.mem_cons_of_mem _ hother)).inside

/-- Without declarations such a run writes nothing. -/
theorem held_finalDraft_of_nil (hplaced : program.Placed body)
    (hspares : (finalDraft options dialect body program).report.SparesReferences)
    (hloads : ∀ load ∈
      (program.importSites body options.module options.globalName).opaqueLoads,
      load.kind.advisory ∈ Advisory.above body load.position)
    (hnone : program.moduleImports options.module = [])
    (hlines : (finalDraft options dialect body program).bindings.declarations options.module
      (program.importSites body options.module options.globalName).sideEffect = []) :
    (finalDraft options dialect body program).edits.held = [] := by
  have hdeclarations := @Program.declarations_eq program body options.module options.globalName
  have hblock : (flagged options dialect body program).importBlock
      (program.importSites body options.module options.globalName) options.module = [] := by
    unfold Draft.importBlock
    rw [← finalDraft_bindings, hlines]
    rfl
  show ((flagged options dialect body program).rewriteImports body _ _).edits.held = _
  rw [Draft.rewriteImports_eq, Draft.edits_flagLoads _ hloads]
  unfold Draft.rewriteDeclarations
  rw [hdeclarations, hnone, hblock]
  cases (program.importSites body options.module options.globalName).firstItem with
  | none => exact held_flagged hplaced hspares
  | some position => exact held_flagged hplaced hspares

section Stands

variable (hplaced : program.Placed body)
  (hspares : (finalDraft options dialect body program).report.SparesReferences)
  (hloads : ∀ load ∈ (program.importSites body options.module options.globalName).opaqueLoads,
    load.kind.advisory ∈ Advisory.above body load.position)
  (hstands : program.StandsAsBlock body options.module
    ((finalDraft options dialect body program).bindings.declarations options.module
      (program.importSites body options.module options.globalName).sideEffect))

include hplaced hspares hloads hstands

theorem finalDraft_same_of_nil (hnone : program.moduleImports options.module = []) :
    (finalDraft options dialect body program).edits.apply body = body := by
  have hlines := hstands.lines
  rw [hnone] at hlines
  have hheld := held_finalDraft_of_nil hplaced hspares hloads hnone
    (List.map_eq_nil_iff.mp hlines.symm)
  rw [Edits.apply, hheld]
  rfl

/-- A run over a file whose references are settled and whose declarations stand as a block. -/
theorem finalDraft_same_iff : (finalDraft options dialect body program).edits.apply body = body ↔
    (program.moduleImports options.module).length ≤ 1 ∨
      ∃ last, (program.moduleImports options.module).getLast? = some last ∧
        body[last.span.stop]? = some '\n' := by
  cases hfound : program.moduleImports options.module with
  | nil => simpa using finalDraft_same_of_nil hplaced hspares hloads hstands hfound
  | cons first others =>
    have hblock := hstands.block_eq
    have hstacked := hstands.stacked
    rw [hfound, List.map_cons] at hblock hstacked
    have hinside : ∀ span ∈ first.span :: others.map (·.span), span.stop ≤ body.length := by
      rw [← List.map_cons (f := ModuleImport.span), ← hfound]
      intro span hspan
      obtain ⟨found, hmem, rfl⟩ := List.mem_map.mp hspan
      exact (hplaced.solid_moduleImport hmem).stop_le
    have hlast : (first.span :: others.map (·.span)).getLast (List.cons_ne_nil _ _) =
        ((first :: others).getLast (List.cons_ne_nil _ _)).span :=
      List.getLast_map (f := ModuleImport.span) (l := first :: others) _
    rw [apply_finalDraft_of_spares hplaced hspares hloads hfound]
    refine (hstacked.rewrittenBlock_same_iff hinside hblock).trans ?_
    rw [hlast, List.map_eq_nil_iff, List.getLast?_eq_some_getLast (List.cons_ne_nil _ _)]
    simp

/-- Such a run brings no byte order mark back. -/
theorem finalDraft_ne_marked :
    (finalDraft options dialect body program).edits.apply body ≠ '\uFEFF' :: body := by
  cases hfound : program.moduleImports options.module with
  | nil =>
    rw [finalDraft_same_of_nil hplaced hspares hloads hstands hfound]
    exact (List.cons_ne_self _ _).symm
  | cons first others =>
    have hblock := hstands.block_eq
    have hstacked := hstands.stacked
    rw [hfound, List.map_cons] at hblock hstacked
    have hne : (finalDraft options dialect body program).bindings.declarations options.module
        (program.importSites body options.module options.globalName).sideEffect ≠ [] := by
      intro hnil
      have hlines := hstands.lines
      rw [hnil, hfound] at hlines
      cases hlines
    obtain ⟨rest, hstart⟩ := Bindings.block_start hne
    rw [apply_finalDraft_of_spares hplaced hspares hloads hfound]
    exact hstacked.rewrittenBlock_ne_marked hblock hstart (by decide)

end Stands

end Files

/-- A file with an alias and single exports in one declaration. -/
private def aliasedFile : Text :=
  "import t, \x7b getContext \x7d from \"@microsoft/teams-js\";\nt.foo(getContext());\n".toList

/-- The file when it is migrated. -/
private def aliasedFileOnce : Text :=
  ("import \x7b app \x7d from \"@microsoft/teams-js\";\nimport t from \"@microsoft/teams-js\";\n" ++
    "t.foo(app.getContext());\n").toList

private theorem aliasedFile_facts :
    ((transform {} "file:///mod.ts" .typeScript aliasedFile).toOption.map (·.text)) =
        some aliasedFileOnce ∧
      ((transform {} "file:///mod.ts" .typeScript aliasedFileOnce).toOption.map fun file =>
        (decide file.report.SparesReferences, file.report.rewrittenImports)) =
          some (true, true) ∧
      ∀ program ∈ Program.read? ⟨true, false, true⟩ aliasedFileOnce,
        (∀ load ∈ (program.importSites aliasedFileOnce defaultModule defaultAlias).opaqueLoads,
          load.kind.advisory ∈ Advisory.above aliasedFileOnce load.position) ∧
        program.StandsAsBlock aliasedFileOnce defaultModule
          ((finalDraft {} ⟨true, false, true⟩ aliasedFileOnce program).bindings.declarations
            defaultModule
            (program.importSites aliasedFileOnce defaultModule defaultAlias).sideEffect) ∧
        (program.moduleImports defaultModule).getLast?.map
          (fun last => aliasedFileOnce[last.span.stop]?) = some (some '\n') := by
  decide +kernel

/-- A file with code behind its declaration. -/
private def sharedLineFile : Text :=
  "import teams, \x7b getContext \x7d from \"@microsoft/teams-js\"; foo();\n".toList

private theorem sharedLineFile_facts :
    ((transform {} "file:///mod.ts" .typeScript sharedLineFile).toOption.map (·.text)) =
      some ("import \x7b getContext \x7d from \"@microsoft/teams-js\";\n" ++
        "import teams from \"@microsoft/teams-js\"; foo();\n").toList ∧
    ((transform {} "file:///mod.ts" .typeScript
        ("import \x7b getContext \x7d from \"@microsoft/teams-js\";\n" ++
          "import teams from \"@microsoft/teams-js\"; foo();\n").toList).toOption.map (·.text)) =
      some ("import \x7b getContext \x7d from \"@microsoft/teams-js\";\n" ++
        "import teams from \"@microsoft/teams-js\";\n foo();\n").toList := by
  decide +kernel

end SdkMigration
