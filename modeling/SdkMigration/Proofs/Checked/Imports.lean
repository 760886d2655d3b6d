import SdkMigration.Proofs.Checked.Basic
import SdkMigration.Proofs.Stages.Imports

/-!
# The stage of import declarations, with its checks

Declarations stand in the text, so the lines around one can be asked for.  They start at the
declaration or before it and end at its end or behind it.  A load that cannot be followed
receives its comment at a place in the text.
-/

namespace SdkMigration

/-- A span widened to whole lines, when nothing else stands on them. -/
def wholeLines? (text : Text) (span : Span) : Option Span := do
  let start ← text.lineStart? span.start
  let stop ← text.lineEnd? span.stop
  let before ← text.slice? start span.start
  let behind ← text.slice? span.stop stop
  if Text.isAllBlank before && Text.isAllBlank behind then Span.ordered? start stop
  else return span

namespace Draft

/-- Removes a declaration with the lines it has for itself. -/
def removeDeclaration? (draft : Draft) (text : Text) (span : Span) : Option Draft := do
  let lines ← wholeLines? text span
  return (draft.tryEdit ⟨lines, []⟩).1

/-- Puts the new declarations in the place of the first old one and removes the others. -/
def replaceDeclarations? (draft : Draft) (text : Text) (first : Span) (others : List Span)
    (block : Text) : Option Draft := do
  let present ← text.slice? first.start first.stop
  let changes := !others.isEmpty || present != block
  let marked := if changes then draft.markImports else draft
  let replaced ←
    if block.isEmpty then marked.removeDeclaration? text first
    else some (marked.tryEdit ⟨first, block⟩).1
  others.foldlM (fun draft span => draft.removeDeclaration? text span) replaced

/-- Writes the comment for a load of the module. -/
def flagLoad? (text : Text) (draft : Draft) (load : OpaqueLoad) : Option Draft := do
  let counted := draft.count fun report => { report with opaqueSites := report.opaqueSites + 1 }
  let (commented, _) ← counted.insertComments? text load.position [load.kind.advisory]
  return commented

/-- Rewrites the declarations that import the module. -/
def rewriteImports? (draft : Draft) (text : Text) (sites : ImportSites) (module : String) :
    Option Draft := do
  let lines := draft.bindings.declarations module sites.sideEffect
  let block := ("\n".intercalate lines).toList
  let rewritten ←
    match sites.declarations with
    | first :: others => draft.replaceDeclarations? text first others block
    | [] =>
      match sites.firstItem with
      | some position =>
        some (if block.isEmpty then draft else draft.prependDeclarations position block)
      | none => some draft
  sites.opaqueLoads.foldlM (flagLoad? text) rewritten

end Draft

variable {body : Text} {span : Span}

/-- The lines of a declaration in the text can be asked for. -/
theorem wholeLines?_eq (hspan : span.stop ≤ body.length) :
    wholeLines? body span = some (wholeLines body span) := by
  have hstart : span.start ≤ body.length := Nat.le_trans span.start_le_stop hspan
  have hline := body.lineStart_le span.start
  obtain ⟨hbehind, hstop⟩ := nextStop_bounds hspan
  have horder : body.lineStart span.start ≤
      (body.nextLineStart? span.stop).getD body.length :=
    Nat.le_trans hline (Nat.le_trans span.start_le_stop hbehind)
  simp only [wholeLines?, wholeLines, Text.lineStart?_eq hstart, Text.lineEnd?_eq hspan,
    Text.slice?_eq hline hstart, Text.slice?_eq hbehind hstop, Span.ordered?_eq horder,
    Option.bind_eq_bind, Option.bind_some]
  split <;> rfl

namespace Draft

theorem removeDeclaration?_eq (draft : Draft) (hspan : span.stop ≤ body.length) :
    draft.removeDeclaration? body span = some (draft.removeDeclaration body span) := by
  simp only [removeDeclaration?, wholeLines?_eq hspan]
  rfl

theorem replaceDeclarations?_eq (draft : Draft) {first : Span} {others : List Span}
    (block : Text) (h : ∀ span ∈ first :: others, span.stop ≤ body.length) :
    draft.replaceDeclarations? body first others block =
      some (draft.replaceDeclarations body first others block) := by
  have hfirst := h first List.mem_cons_self
  have hothers : ∀ start : Draft,
      others.foldlM (fun draft span => draft.removeDeclaration? body span) start =
        some (others.foldl (fun draft span => draft.removeDeclaration body span) start) :=
    fun start => foldlM_eq_some (fun _ => True) trivial fun draft _ span hspan =>
      ⟨removeDeclaration?_eq draft (h span (List.mem_cons_of_mem _ hspan)), trivial⟩
  simp only [replaceDeclarations?, replaceDeclarations, Text.slice?_span hfirst,
    removeDeclaration?_eq _ hfirst, hothers, Option.bind_eq_bind, Option.bind_some]
  split <;> rfl

theorem flagLoad?_eq (draft : Draft) {load : OpaqueLoad} (h : load.position ≤ body.length) :
    flagLoad? body draft load = some (draft.flagLoad body load) := by
  simp only [flagLoad?, insertComments?_eq _ h]
  rfl

/-- The stage of import declarations keeps to its checks. -/
theorem rewriteImports?_eq {program : Program} (hplaced : program.Placed body) (draft : Draft)
    (module globalName : String) :
    let sites := program.importSites body module globalName
    draft.rewriteImports? body sites module = some (draft.rewriteImports body sites module) := by
  intro sites
  have hdeclarations : ∀ span ∈ sites.declarations, span.stop ≤ body.length := fun span hspan =>
    (hplaced.landmarks.imports span (Program.mem_declarations hspan)).2
  have hloads : ∀ start : Draft, sites.opaqueLoads.foldlM (flagLoad? body) start =
      some (sites.opaqueLoads.foldl (flagLoad body) start) := by
    refine fun start => foldlM_eq_some (fun _ => True) trivial fun draft _ load hload =>
      ⟨?_, trivial⟩
    obtain ⟨visit, hmarked, hposition⟩ := Program.exists_visit_of_load hload
    refine flagLoad?_eq draft ?_
    rw [hposition]
    exact hplaced.landmarks.insertionPoint_le body.lineIndex hmarked
  simp only [rewriteImports?, rewriteImports, Option.bind_eq_bind]
  cases hfound : sites.declarations with
  | cons first others =>
    rw [hfound] at hdeclarations
    simp only [replaceDeclarations?_eq draft _ hdeclarations, Option.bind_some, hloads]
  | nil =>
    cases sites.firstItem with
    | none => simp only [Option.bind_some, hloads]
    | some position => simp only [Option.bind_some, hloads]

end Draft

end SdkMigration
