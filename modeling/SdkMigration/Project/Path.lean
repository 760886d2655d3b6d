import SdkMigration.Text.Parts

/-!
# Paths of files

A path is kept as it is written, because it is shown so.  Which file it
names is told by its components: doubled and trailing slashes and single dots
do not count, and double dots are components like any other.  Paths are
ordered by their components, one after the other.
-/

namespace SdkMigration

/-- A part of a path. -/
inductive Component where
  | root
  /-- A single dot at the very start. -/
  | current
  | parent
  | name (text : Text)
deriving DecidableEq, Repr

namespace Component

/-- The place of a kind of component in the order. -/
def rank : Component → Nat
  | .root => 0
  | .current => 1
  | .parent => 2
  | .name _ => 3

/-- Whether a text comes before another one, character by character. -/
def textBefore : Text → Text → Bool
  | [], [] => false
  | [], _ :: _ => true
  | _ :: _, [] => false
  | a :: as, b :: bs => decide (a.toNat < b.toNat) || (a == b && textBefore as bs)

/-- Whether a component comes before another one. -/
def before : Component → Component → Bool
  | .name a, .name b => textBefore a b
  | a, b => decide (a.rank < b.rank)

end Component

/-- What a path names. -/
abbrev PathKey := List Component

/-- Whether a path comes before another one. -/
def PathKey.before : PathKey → PathKey → Bool
  | [], [] => false
  | [], _ :: _ => true
  | _ :: _, [] => false
  | a :: as, b :: bs => a.before b || (a == b && PathKey.before as bs)

/-- A path as it is written. -/
structure Path where
  written : Text
deriving DecidableEq, Repr

namespace Path

/-- The path as it is shown. -/
def shown (path : Path) : String := String.ofList path.written

/-- A path from a string. -/
def ofString (s : String) : Path := ⟨s.toList⟩

/-- Whether the path starts at the root. -/
def isAbsolute (path : Path) : Bool := path.written.head? == some '/'

/-- The component that a part between two slashes is, if it counts. -/
def component? (part : Text) : Option Component :=
  if part = [] ∨ part = ['.'] then none
  else if part = ['.', '.'] then some .parent
  else some (.name part)

/-- What the path names. -/
def key (path : Path) : PathKey :=
  let parts := path.written.parts '/'
  let start :=
    if path.isAbsolute then [.root]
    else if parts.head? = some ['.'] then [.current]
    else []
  start ++ parts.filterMap component?

/-- The path of something in the directory that this path names.  A path that
starts at the root stands for itself. -/
def join (path : Path) (part : Text) : Path :=
  if part.head? = some '/' ∨ path.written = [] then ⟨part⟩
  else if path.written.getLast? = some '/' then ⟨path.written ++ part⟩
  else ⟨path.written ++ '/' :: part⟩

/-- Takes what does not count off the end of a path that is given in reverse
order. -/
def trimTail : Text → Text
  | '/' :: rest => if rest.isEmpty then ['/'] else trimTail rest
  | '.' :: rest =>
    match rest with
    | '/' :: _ => trimTail rest
    | _ => '.' :: rest
  | text => text

/-- The path of the directory that holds what this path names. -/
def parent? (path : Path) : Option Path :=
  match trimTail path.written.reverse with
  | [] | ['/'] => none
  | reversed => some ⟨(trimTail (reversed.dropWhile (· != '/'))).reverse⟩

/-- The last name of the path. -/
def fileName (path : Path) : Text :=
  match path.key.getLast? with
  | some (.name text) => text
  | _ => []

end Path

end SdkMigration
