import SdkMigration.Import.Sites
import SdkMigration.Edit.Basic
import SdkMigration.Text.Shown

/-!
# Notes

What a migration remarks on while it runs.  Notes change nothing; they are
kept in the order in which they come up.
-/

namespace SdkMigration

/-- A remark. -/
inductive Note where
  /-- The global name is used without an import. -/
  | implicitAlias (name : String)
  /-- No reference through the global name was rewritten. -/
  | implicitAliasDropped (name : String)
  /-- A single export was moved to one namespace and then to another. -/
  | alreadyRetargeted (exported existing target : String)
  | opaqueLoad (kind : LoadKind)
  /-- Two rules apply to the same path, and the first one wins. -/
  | ruleIgnored (target : NamePath) (key : String) (existing : NamePath)
  | editSkipped (edit existing : Span)
  | noFunctionRule (path : String)
  | unmigratedReference (name : String) (position : Nat)
deriving DecidableEq

namespace Note

/-- The word for a way of loading the module. -/
def loadWord : LoadKind → String
  | .require => "Require"
  | .dynamicImport => "DynamicImport"

/-- A span by its byte offsets. -/
def shownSpan (text : Text) (span : Span) : String :=
  toString (text.byteOffset span.start) ++ ".." ++ toString (text.byteOffset span.stop)

/-- The words of a note about the text of the file at the given location. -/
def message (location : String) (text : Text) : Note → String
  | .implicitAlias name => location ++ " references " ++ name ++ " without importing it"
  | .implicitAliasDropped name => "Dropped implicit " ++ name ++ " import for " ++ location
  | .alreadyRetargeted exported existing target =>
    "Import of " ++ exported ++ " already retargeted to " ++ existing ++ ", ignoring " ++ target
  | .opaqueLoad kind => "Found " ++ loadWord kind ++ " of the legacy module"
  | .ruleIgnored target key existing =>
    "Ignoring rule " ++ shownList target.names ++ " for " ++ key ++ ", already mapped to " ++
      shownList existing.names
  | .editSkipped edit existing =>
    "Skipping edit at " ++ shownSpan text edit ++ " overlapping edit at " ++
      shownSpan text existing
  | .noFunctionRule path => "No function rule for " ++ path
  | .unmigratedReference name position =>
    "Unmigrated reference to " ++ name ++ " at " ++ toString (text.byteOffset position)

end Note

end SdkMigration
