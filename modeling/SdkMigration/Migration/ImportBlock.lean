import SdkMigration.Import.Declarations
import SdkMigration.Migration.Draft

/-!
# The import block

The last stage of a migration replaces the first declaration that imports the
module by all declarations that are needed now, and removes the others.  A
file that used the global name without any declaration receives them before
its first item.  The loads that cannot be followed receive a comment.
-/

namespace SdkMigration

/-- A span widened to whole lines, when nothing else stands on them. -/
def wholeLines (text : Text) (span : Span) : Span :=
  let start := text.lineStart span.start
  let stop := (text.nextLineStart? span.stop).getD text.length
  if Text.isAllBlank (text.slice (Span.between start span.start)) &&
      Text.isAllBlank (text.slice (Span.between span.stop stop)) then
    Span.between start stop
  else span

/-- The comment for a load of the module. -/
def LoadKind.advisory : LoadKind → Advisory
  | .require => .requireNotHandled
  | .dynamicImport => .dynamicImportNotHandled

namespace Draft

/-- Marks the imports as rewritten. -/
def markImports (draft : Draft) : Draft :=
  draft.count fun report => { report with rewrittenImports := true }

/-- Removes a declaration with the lines it has for itself. -/
def removeDeclaration (draft : Draft) (text : Text) (span : Span) : Draft :=
  (draft.tryEdit ⟨wholeLines text span, []⟩).1

/-- Puts the new declarations in the place of the first old one and removes
the others. -/
def replaceDeclarations (draft : Draft) (text : Text) (first : Span) (others : List Span)
    (block : Text) : Draft :=
  let changes := !others.isEmpty || text.slice first != block
  let marked := if changes then draft.markImports else draft
  let replaced :=
    if block.isEmpty then marked.removeDeclaration text first
    else (marked.tryEdit ⟨first, block⟩).1
  others.foldl (fun draft span => draft.removeDeclaration text span) replaced

/-- Puts the new declarations before the first item. -/
def prependDeclarations (draft : Draft) (position : Nat) (block : Text) : Draft :=
  let edit : Edit := ⟨Span.point position, block ++ ['\n']⟩
  (draft.tryEdit edit Edits.prepend).1.markImports

/-- Writes the comment for a load of the module. -/
def flagLoad (text : Text) (draft : Draft) (load : OpaqueLoad) : Draft :=
  let counted := draft.count fun report => { report with opaqueSites := report.opaqueSites + 1 }
  (counted.insertComments text load.position [load.kind.advisory]).1

/-- Rewrites the declarations that import the module. -/
def rewriteImports (draft : Draft) (text : Text) (sites : ImportSites) (module : String) :
    Draft :=
  let lines := draft.bindings.declarations module sites.sideEffect
  let block := ("\n".intercalate lines).toList
  let rewritten :=
    match sites.declarations with
    | first :: others => draft.replaceDeclarations text first others block
    | [] =>
      match sites.firstItem with
      | some position =>
        if block.isEmpty then draft else draft.prependDeclarations position block
      | none => draft
  sites.opaqueLoads.foldl (flagLoad text) rewritten

end Draft

end SdkMigration
