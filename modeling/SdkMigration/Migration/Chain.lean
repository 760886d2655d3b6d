import SdkMigration.Mapping.Path
import SdkMigration.Program.Tree

/-!
# Chains

A chain is a reference made of names alone, such as `teams.settings` or
`teams?.settings`.  When a chain is replaced, the question marks of its
optional accesses are carried over: one stays where it is while the names
before it stay the same, and any other moves to the last access of the
replacement, so that what was guarded remains guarded.
-/

namespace SdkMigration

/-- A name of a chain. -/
structure Segment where
  name : String
  span : Span
  /-- Whether it is reached by an optional access. -/
  optional : Bool
deriving DecidableEq

/-- A reference made of names alone. -/
structure Chain where
  head : Segment
  rest : List Segment
deriving DecidableEq

namespace Chain

/-- The names with their places. -/
def segments (chain : Chain) : List Segment := chain.head :: chain.rest

/-- The names. -/
def names (chain : Chain) : List String := chain.segments.map (·.name)

/-- The name that the chain starts with. -/
def root (chain : Chain) : String := chain.head.name

/-- The last name with its place. -/
def last (chain : Chain) : Segment := chain.rest.getLast?.getD chain.head

/-- The names joined by dots. -/
def dotted (chain : Chain) : String := ".".intercalate chain.names

/-- The place of the whole chain. -/
def span (chain : Chain) : Span := Span.between chain.head.span.start chain.last.span.stop

/-- The chain with one more name. -/
def extend (chain : Chain) (segment : Segment) : Chain :=
  ⟨chain.head, chain.rest ++ [segment]⟩

end Chain

/-- The chain that a tree is, if it is one. -/
def Tree.chain? : Tree → Option Chain
  | .identifier _ id => some ⟨⟨id.name, id.span, false⟩, []⟩
  | .member _ object optional property =>
    match object.chain? with
    | some chain => some (chain.extend ⟨property.name, property.span, optional⟩)
    | none => none
  | .qualified _ left right =>
    match left.chain? with
    | some chain => some (chain.extend ⟨right.name, right.span, false⟩)
    | none => none
  | .anchored _ _ inner => inner.chain?
  | _ => none

/-! ## Replacing the names -/

/-- How many names at the start of a chain and of its replacement are the
same. -/
def commonPrefix : List Segment → List String → Nat
  | segment :: segments, token :: tokens =>
    if segment.name = token then commonPrefix segments tokens + 1 else 0
  | _, _ => 0

/-- Whether a segment from position `index` on is optional and cannot keep its
question mark, because a name before it changes or the replacement has ended
there. -/
def movesHop (kept length : Nat) : Nat → List Segment → Bool
  | _, [] => false
  | index, segment :: rest =>
    (segment.optional && (decide (kept < index) || decide (length ≤ index))) ||
      movesHop kept length (index + 1) rest

/-- Whether the access to the name at position `index` of the replacement is
optional. -/
def Chain.hopIsOptional (chain : Chain) (tokens : List String) (index : Nat) : Bool :=
  let kept := commonPrefix chain.segments tokens
  (decide (index ≤ kept) && (chain.segments[index]?).any (·.optional)) ||
    (index + 1 == tokens.length && movesHop kept tokens.length 0 chain.segments)

/-- Writes the names from position `index` on, each behind its access. -/
def Chain.renderRest (chain : Chain) (tokens : List String) : Nat → List String → Text
  | _, [] => []
  | index, token :: rest =>
    (if chain.hopIsOptional tokens index then ['?', '.'] else ['.']) ++ token.toList ++
      chain.renderRest tokens (index + 1) rest

/-- Writes a replacement for the whole chain. -/
def Chain.render (chain : Chain) (path : NamePath) : Text :=
  path.first.toList ++ chain.renderRest path.names 1 path.rest

end SdkMigration
