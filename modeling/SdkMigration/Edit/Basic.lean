import SdkMigration.Text.Span

/-!
# Edits

An edit replaces a span of a text by a new text.  Edits are collected one
after the other, and one that overlaps an edit collected before is refused,
so that whoever comes first owns a place.  In the end all are carried out at
once.

Insertions, the edits of an empty span, never overlap each other.  Those at
the same position appear in the order in which they are held, before a
replacement that starts there.
-/

namespace SdkMigration

/-- Replaces a span by a new text. -/
structure Edit where
  span : Span
  newText : Text
deriving DecidableEq

namespace Edit

/-- Whether the edit only inserts. -/
def isInsertion (edit : Edit) : Bool := edit.span.isPoint

/-- Whether a position lies inside a span and not at its edge. -/
def strictlyInside (position : Nat) (span : Span) : Bool :=
  decide (span.start < position) && decide (position < span.stop)

/-- Whether two edits cannot both be carried out. -/
def overlaps (a b : Edit) : Bool :=
  match a.isInsertion, b.isInsertion with
  | true, true => false
  | true, false => strictlyInside a.span.start b.span
  | false, true => strictlyInside b.span.start a.span
  | false, false => decide (a.span.start < b.span.stop) && decide (b.span.start < a.span.stop)

/-- Whether the edit comes after another one in the text. -/
def follows (a b : Edit) : Bool :=
  decide (b.span.start < a.span.start) ||
    (decide (a.span.start = b.span.start) && decide (b.span.stop < a.span.stop))

end Edit

/-- Edits that do not overlap, in the order in which they are held. -/
structure Edits where
  held : List Edit := []

namespace Edits

/-- The first edit held that overlaps the given one. -/
def conflict? (edits : Edits) (edit : Edit) : Option Edit :=
  edits.held.find? fun existing => existing.overlaps edit

/-- Whether a replacement covers a position. -/
def covers (edits : Edits) (position : Nat) : Bool :=
  edits.held.any fun edit => !edit.isInsertion && edit.span.covers position

/-- Holds one more edit behind the others. -/
def append (edits : Edits) (edit : Edit) : Edits := ⟨edits.held ++ [edit]⟩

/-- Holds one more edit before the others. -/
def prepend (edits : Edits) (edit : Edit) : Edits := ⟨edit :: edits.held⟩

/-! ## Carrying out -/

/-- Puts an edit behind all that it does not come before. -/
def insertInOrder (edit : Edit) : List Edit → List Edit
  | [] => [edit]
  | other :: rest =>
    if other.follows edit then edit :: other :: rest else other :: insertInOrder edit rest

/-- The edits in the order of their places.  Those of one place keep their
order. -/
def inOrder (edits : List Edit) : List Edit :=
  edits.foldl (fun sorted edit => insertInOrder edit sorted) []

/-- Carries out edits that are in order, `rest` being the text from
`position` on. -/
def splice (position : Nat) (rest : Text) : List Edit → Text
  | [] => rest
  | edit :: others =>
    rest.take (edit.span.start - position) ++ edit.newText ++
      splice edit.span.stop (rest.drop (edit.span.stop - position)) others

/-- The text with all edits carried out. -/
def apply (edits : Edits) (text : Text) : Text := splice 0 text (inOrder edits.held)

end Edits

end SdkMigration
