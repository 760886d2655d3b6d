import SdkMigration.Migration.Advisory
import SdkMigration.Migration.Lookup
import SdkMigration.Migration.Report

/-!
# Drafts

A draft is the state of a migration between two stages: what the bindings
have learned, the edits collected, the counts, and the notes.
-/

namespace SdkMigration

/-- The state of a migration. -/
structure Draft where
  bindings : Bindings := {}
  edits : Edits := {}
  report : Report := {}
  notes : List Note := []

namespace Draft

/-- Adds notes. -/
def addNotes (draft : Draft) (notes : List Note) : Draft :=
  { draft with notes := draft.notes ++ notes }

/-- Changes the counts. -/
def count (draft : Draft) (change : Report → Report) : Draft :=
  { draft with report := change draft.report }

/-- Collects an edit, `place` putting it among the others.  An edit that
overlaps another one is refused.  The second part tells whether it was
collected. -/
def tryEdit (draft : Draft) (edit : Edit) (place : Edits → Edit → Edits := Edits.append) :
    Draft × Bool :=
  match draft.edits.conflict? edit with
  | some existing => (draft.addNotes [.editSkipped edit.span existing.span], false)
  | none => ({ draft with edits := place draft.edits edit }, true)

/-- The note on a match that moves a single export to another namespace than
an earlier match did. -/
def retargetNotes (bindings : Bindings) (origin : Origin) (target : String) : List Note :=
  match origin with
  | .named index =>
    match bindings.named[index]? with
    | some named =>
      match named.target with
      | some existing =>
        if existing = target then [] else [.alreadyRetargeted named.exported existing target]
      | none => []
    | none => []
  | .whole _ => []

/-- Records that a reference through a binding was moved to a path. -/
def recordMatch (draft : Draft) (origin : Origin) (target : NamePath) : Draft :=
  let noted := draft.addNotes (retargetNotes draft.bindings origin target.first)
  { noted with bindings := draft.bindings.recordMatch origin target.first }

/-- Inserts comment lines at a position, leaving out those that stand above it
already.  The second part tells whether one was inserted. -/
def insertComments (draft : Draft) (text : Text) (position : Nat) (advisories : List Advisory) :
    Draft × Bool :=
  let present := Advisory.above text position
  advisories.foldl
    (fun (draft, inserted) advisory =>
      if present.contains advisory then (draft, inserted)
      else
        let (next, done) :=
          draft.tryEdit ⟨Span.point position, advisory.insertion text position⟩
        (next, inserted || done))
    (draft, false)

end Draft

end SdkMigration
