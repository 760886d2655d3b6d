import SdkMigration.Text.Blank

/-!
# Lines of a text

A line ends at a line feed and nowhere else; a carriage return just before
the line feed does not belong to the line's own text.
-/

namespace SdkMigration.Text

/-- The number of the line that holds a position, counted from zero. -/
def lineIndex (text : Text) (position : Nat) : Nat :=
  (text.take position).countP (· == '\n')

/-- The position at which the line holding `position` starts. -/
def lineStart (text : Text) (position : Nat) : Nat :=
  position - ((text.take position).reverse.takeWhile (· != '\n')).length

/-- The position after the line feed that ends the line holding `position`,
or `none` on the last line. -/
def nextLineStart? (text : Text) (position : Nat) : Option Nat :=
  let tail := (text.drop position).takeWhile (· != '\n')
  if position + tail.length < text.length then some (position + tail.length + 1) else none

/-- Takes one carriage return off the end. -/
def dropCarriageReturn (line : Text) : Text :=
  if line.getLast? = some '\r' then line.dropLast else line

/-- The text of the line that holds `position`. -/
def lineText (text : Text) (position : Nat) : Text :=
  let rest := text.drop (text.lineStart position)
  let line := rest.takeWhile (· != '\n')
  if line.length < rest.length then dropCarriageReturn line else line

/-- The blanks at the start of the line that holds `position`. -/
def lineIndent (text : Text) (position : Nat) : Text :=
  (text.lineText position).takeWhile isBlank

/-- Splits off the characters before the next line feed, `current` holding
those already passed in reverse order. -/
def linesFrom (current : Text) : Text → List Text
  | [] => if current.isEmpty then [] else [current.reverse]
  | c :: rest =>
    if c = '\n' then dropCarriageReturn current.reverse :: linesFrom [] rest
    else linesFrom (c :: current) rest

/-- The lines of a text.  A line feed at the very end opens no further line. -/
def lines (text : Text) : List Text := linesFrom [] text

end SdkMigration.Text
