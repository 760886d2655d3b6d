/-!
# Sets of characters given as ranges

A property of the Unicode standard is kept as the ascending list of its
ranges of code points.  Membership is a search that gives up at the first
range lying above the character.
-/

namespace SdkMigration

/-- Whether `code` lies in one of the ranges, which are in ascending order. -/
def inRanges (code : Nat) : List (Nat × Nat) → Bool
  | [] => false
  | (first, last) :: rest =>
    if code < first then false else if code ≤ last then true else inRanges code rest

end SdkMigration
