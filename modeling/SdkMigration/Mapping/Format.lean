import SdkMigration.Json.Reader
import SdkMigration.Json.Record
import SdkMigration.Json.Writer
import SdkMigration.Mapping.Rule

/-!
# Written mappings

A mapping is written as a record of three lists of entries, each of which may
be left out.  Fields of other names are passed over.
-/

namespace SdkMigration

/-- The entry that a value stands for. -/
def MappingEntry.ofJson? : Json → Option MappingEntry
  | .object entries => do
    let source ← Json.asString? (← Json.needed? "source" entries)
    let target ← Json.asString? (← Json.needed? "target" entries)
    let callbackToPromise ← Json.fieldOr? Json.asBool? false "callbackToPromise" entries
    let callbackPosition ←
      Json.fieldOr? (Json.asOption? Json.asNat?) none "callbackPosition" entries
    return ⟨source, target, callbackToPromise, callbackPosition⟩
  | .array (source :: target :: rest) => do
    let source ← Json.asString? source
    let target ← Json.asString? target
    let (callbackToPromise, rest) ← Json.nextOr? Json.asBool? false rest
    let (callbackPosition, rest) ← Json.nextOr? (Json.asOption? Json.asNat?) none rest
    if rest.isEmpty then return ⟨source, target, callbackToPromise, callbackPosition⟩ else none
  | _ => none

/-- The value that stands for an entry.  What is left out says nothing. -/
def MappingEntry.toJson (entry : MappingEntry) : Json :=
  let promise := if entry.callbackToPromise then [("callbackToPromise", .bool true)] else []
  let position :=
    match entry.callbackPosition with
    | some position => [("callbackPosition", .integer (Int.ofNat position))]
    | none => []
  .object
    (("source", .string entry.source) :: ("target", .string entry.target) :: promise ++ position)

/-- The mapping that a value stands for. -/
def MappingFile.ofJson? (json : Json) : Option MappingFile :=
  let list := Json.asList? MappingEntry.ofJson?
  match json with
  | .object entries => do
    let functions ← Json.fieldOr? list [] "functions" entries
    let interfaces ← Json.fieldOr? list [] "interfaces" entries
    let enums ← Json.fieldOr? list [] "enums" entries
    return ⟨functions, interfaces, enums⟩
  | .array items => do
    let (functions, rest) ← Json.nextOr? list [] items
    let (interfaces, rest) ← Json.nextOr? list [] rest
    let (enums, rest) ← Json.nextOr? list [] rest
    if rest.isEmpty then return ⟨functions, interfaces, enums⟩ else none
  | _ => none

/-- The value that stands for a mapping. -/
def MappingFile.toJson (file : MappingFile) : Json :=
  let list (entries : List MappingEntry) : Json := .array (entries.map MappingEntry.toJson)
  .object
    [("functions", list file.functions), ("interfaces", list file.interfaces),
      ("enums", list file.enums)]

/-- Reads a written mapping. -/
def MappingFile.read? (text : String) : Option MappingFile := do ofJson? (← Json.read? text)

/-- Writes a mapping on one line. -/
def MappingFile.written (file : MappingFile) : String := file.toJson.compact

/-- Reads a written mapping and makes it ready for use. -/
def MappingTable.read (text : String) : Except MappingError MappingTable :=
  match MappingFile.read? text with
  | some file => ofFile file
  | none => .error .malformed

end SdkMigration
