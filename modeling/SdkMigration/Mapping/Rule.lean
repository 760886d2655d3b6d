import SdkMigration.Mapping.Path

/-!
# Rules

A rule says which member of the module another one has become.  Rules come in
three groups, for functions, interfaces and enumerations.  A rule of a
function whose callback became a promise tells at which position the callback
was passed.

`Rule.ofEntry` reads a rule from an entry as it is written; the only fault an
entry can have is a path that is not a written path.
-/

namespace SdkMigration

/-- The groups of a mapping. -/
inductive RuleGroup where
  | functions
  | interfaces
  | enums
deriving DecidableEq, Repr

/-- The word for one rule of the group. -/
def RuleGroup.noun : RuleGroup → String
  | .functions => "function"
  | .interfaces => "interface"
  | .enums => "enum"

/-- An entry of a mapping as it is written. -/
structure MappingEntry where
  source : String
  target : String
  callbackToPromise : Bool := false
  callbackPosition : Option Nat := none
deriving DecidableEq, Repr

/-- The entries of a mapping as they are written. -/
structure MappingFile where
  functions : List MappingEntry := []
  interfaces : List MappingEntry := []
  enums : List MappingEntry := []
deriving DecidableEq, Repr

/-- What a member of the module has become. -/
structure Rule where
  source : NamePath
  target : NamePath
  /-- Where the callback is passed that became a promise. -/
  callback : Option Nat := none
deriving DecidableEq, Repr

/-- A mapping that is ready for use. -/
structure MappingTable where
  functions : List Rule := []
  interfaces : List Rule := []
  enums : List Rule := []
deriving DecidableEq, Repr

/-- Why a mapping cannot be used. -/
inductive MappingError where
  /-- A path without a module or with a blank name. -/
  | invalidPath (group : RuleGroup) (path : String)
  /-- No mapping at all. -/
  | malformed
deriving DecidableEq, Repr

/-- What is told about an unusable mapping. -/
def MappingError.message : MappingError → String
  | .invalidPath group path =>
    "Invalid " ++ group.noun ++ " mapping path \"" ++ path ++
      "\". Expected at least a module name and one member separated by a dot."
  | .malformed => "Failed parsing mapping table."

/-- Reads a path of a group. -/
def readPath (group : RuleGroup) (written : String) : Except MappingError NamePath :=
  match NamePath.ofWritten? written with
  | some path => .ok path
  | none => .error (.invalidPath group written)

/-- The rule that an entry of a group stands for. -/
def Rule.ofEntry (group : RuleGroup) (entry : MappingEntry) : Except MappingError Rule := do
  let source ← readPath group entry.source
  let target ← readPath group entry.target
  let callback := if entry.callbackToPromise then some (entry.callbackPosition.getD 0) else none
  return ⟨source, target, callback⟩

/-- The rules that the entries of a group stand for. -/
def rulesOfEntries (group : RuleGroup) : List MappingEntry → Except MappingError (List Rule)
  | [] => .ok []
  | entry :: rest => do
    let rule ← Rule.ofEntry group entry
    let others ← rulesOfEntries group rest
    return rule :: others

/-- The table that a written mapping stands for.  The first faulty entry
fails the whole table. -/
def MappingTable.ofFile (file : MappingFile) : Except MappingError MappingTable := do
  let functions ← rulesOfEntries .functions file.functions
  let interfaces ← rulesOfEntries .interfaces file.interfaces
  let enums ← rulesOfEntries .enums file.enums
  return ⟨functions, interfaces, enums⟩

end SdkMigration
