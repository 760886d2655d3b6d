import SdkMigration.Migration.Draft

/-!
# References that are left

When a single export was moved to a namespace, its old name is no longer
imported.  The fourth stage of a migration looks for references through that
name which nothing has replaced.  Each keeps the old name imported and
receives a comment.
-/

namespace SdkMigration

/-- The local names that the single exports no longer bind, each with the
position of its export, `index` being the position of the first. -/
def droppedNames (index : Nat) : List NamedImport → List (String × Nat)
  | [] => []
  | named :: rest =>
    let others := droppedNames (index + 1) rest
    if named.dropsLocalBinding then (named.localName, index) :: others else others

/-- The state of the stage: the draft, and the positions where a comment was
asked for. -/
structure Leftovers where
  draft : Draft
  commented : List Nat := []

namespace Leftovers

/-- Deals with an identifier. -/
def flag (text : Text) (dropped : List (String × Nat)) (state : Leftovers) (visit : Visit) :
    Leftovers :=
  match visit with
  | .call _ _ => state
  | .identifier id around =>
    match dropped.lookup id.name with
    | none => state
    | some index =>
      if state.draft.edits.covers id.span.start then state
      else
        let noted := state.draft.addNotes [.unmigratedReference id.name id.span.start]
        let counted := noted.count fun report =>
          { report with flaggedReferences := report.flaggedReferences + 1 }
        let kept := { counted with bindings := counted.bindings.keepLocal index }
        let position := insertionPoint text.lineIndex around id.span.start
        if state.commented.contains position then { state with draft := kept }
        else
          ⟨(kept.insertComments text position [.unmigratedReference]).1,
            position :: state.commented⟩

end Leftovers

/-- Deals with all references that are left in a program. -/
def Draft.flagLeftovers (draft : Draft) (text : Text) (program : Program) : Draft :=
  match droppedNames 0 draft.bindings.named with
  | [] => draft
  | dropped =>
    ((program.visits fun _ => false).foldl (Leftovers.flag text dropped)
      ({ draft } : Leftovers)).draft

end SdkMigration
