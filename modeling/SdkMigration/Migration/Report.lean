/-!
# Reports

What a migration did to a file, counted.  Reports of several files add up.
-/

namespace SdkMigration

/-- What a migration did to a file. -/
structure Report where
  rewrittenCalls : Nat := 0
  /-- Calls that received a comment. -/
  flaggedCalls : Nat := 0
  rewrittenTypes : Nat := 0
  rewrittenEnums : Nat := 0
  /-- Loads of the module that cannot be followed. -/
  opaqueSites : Nat := 0
  /-- Calls through a binding of the module that no rule covers. -/
  unmatchedReferences : Nat := 0
  /-- References through a retargeted import that were left as they were. -/
  flaggedReferences : Nat := 0
  rewrittenImports : Bool := false
deriving DecidableEq, Repr

/-- Two reports together. -/
def Report.add (a b : Report) : Report where
  rewrittenCalls := a.rewrittenCalls + b.rewrittenCalls
  flaggedCalls := a.flaggedCalls + b.flaggedCalls
  rewrittenTypes := a.rewrittenTypes + b.rewrittenTypes
  rewrittenEnums := a.rewrittenEnums + b.rewrittenEnums
  opaqueSites := a.opaqueSites + b.opaqueSites
  unmatchedReferences := a.unmatchedReferences + b.unmatchedReferences
  flaggedReferences := a.flaggedReferences + b.flaggedReferences
  rewrittenImports := a.rewrittenImports || b.rewrittenImports

end SdkMigration
