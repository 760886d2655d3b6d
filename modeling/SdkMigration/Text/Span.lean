/-!
# Spans of a text

A text is a list of characters, and a position in it is the number of
characters before that place.  A `Span` runs from one position to a later
one.  Positions are turned into byte offsets of the UTF-8 form in one place
only, `Text.byteOffset`, because offsets are shown in messages and nowhere
else.
-/

namespace SdkMigration

/-- A text is worked on as the list of its characters. -/
abbrev Text := List Char

/-- A part of a text, from the position `start` up to the position `stop`. -/
structure Span where
  start : Nat
  stop : Nat
  start_le_stop : start ≤ stop := by omega
deriving DecidableEq

namespace Span

/-- The span from `start` to `stop`, or the empty one at `start` when `stop`
lies before it. -/
def between (start stop : Nat) : Span :=
  ⟨start, max start stop, Nat.le_max_left start stop⟩

/-- The empty span at a position. -/
def point (position : Nat) : Span := ⟨position, position, Nat.le_refl position⟩

/-- Whether the span holds no character. -/
def isPoint (span : Span) : Bool := span.start == span.stop

/-- Whether the character at `position` belongs to the span. -/
def covers (span : Span) (position : Nat) : Bool :=
  decide (span.start ≤ position) && decide (position < span.stop)

instance : Inhabited Span := ⟨point 0⟩

end Span

namespace Text

/-- The characters of a span. -/
def slice (text : Text) (span : Span) : Text :=
  (text.take span.stop).drop span.start

/-- The number of bytes before a position in the UTF-8 form of the text. -/
def byteOffset (text : Text) (position : Nat) : Nat :=
  (text.take position).foldl (fun bytes c => bytes + c.utf8Size) 0

end Text

end SdkMigration
