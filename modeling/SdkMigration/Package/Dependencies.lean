import SdkMigration.Json.Reader
import SdkMigration.Json.Writer
import SdkMigration.Package.VersionRequirement
import SdkMigration.Text.Lines

/-!
# Dependencies of a package

Sets the version that a package description asks for wherever it lists a
given package among its dependencies.  The description is written anew with
the indentation it had, and only when something changes.
-/

namespace SdkMigration

/-- Why a package description cannot be updated. -/
inductive PackageError where
  | invalidVersion (requirement : String)
  /-- The text is no JSON. -/
  | malformed
  | notAnObject
deriving DecidableEq, Repr

/-- What is told about a package description that cannot be updated. -/
def PackageError.message : PackageError → String
  | .invalidVersion requirement =>
    "Invalid version requirement \"" ++ requirement ++ "\" for the migrated package."
  | .malformed => "Failed parsing package.json."
  | .notAnObject => "Expected package.json to contain an object."

namespace Dependencies

/-- The fields of a description that list dependencies. -/
def tables : List String := ["dependencies", "devDependencies", "peerDependencies"]

/-- Whether a value is the given string. -/
def isVersion (version : String) : Json → Bool
  | .string found => found == version
  | _ => false

/-- Sets the version of a package in a list of dependencies. -/
def setVersion (package version : String) (entries : List (String × Json)) :
    List (String × Json) :=
  entries.map fun (key, value) => (key, if key = package then .string version else value)

/-- Whether a list of dependencies lists a package with another version. -/
def isOutdated (package version : String) (entries : List (String × Json)) : Bool :=
  entries.any fun (key, value) => key == package && !isVersion version value

/-- Whether an entry of a description is a list of dependencies in which the
package has another version. -/
def entryIsOutdated (package version : String) : String × Json → Bool
  | (key, .object entries) => tables.contains key && isOutdated package version entries
  | _ => false

/-- Sets the version of a package in an entry of a description, if it is a
list of dependencies. -/
def updateEntry (package version : String) : String × Json → String × Json
  | (key, .object entries) =>
    if tables.contains key then (key, .object (setVersion package version entries))
    else (key, .object entries)
  | entry => entry

/-- The indentation of a text: the blanks at the start of the first line after
the first one that has any. -/
def indentOf (text : Text) : Text :=
  let indents := (text.lines.drop 1).map fun line => line.takeWhile isBlank
  (indents.find? fun indent => !indent.isEmpty).getD [' ', ' ']

/-- A changed description as it is written in the place of the old text. -/
def written (old : Text) (entries : List (String × Json)) : String :=
  let text := (Json.object entries).pretty (indentOf old)
  if old.getLast? = some '\n' then text ++ "\n" else text

end Dependencies

/-- Sets the version of a package in a package description.  The result is
`none` when nothing has to change. -/
def updatePackage (text package version : String) : Except PackageError (Option String) :=
  if VersionRequirement.isValid version then
    match Json.readSettled? text with
    | none => .error .malformed
    | some (.object entries) =>
      if entries.any (Dependencies.entryIsOutdated package version) then
        let updated := entries.map (Dependencies.updateEntry package version)
        .ok (some (Dependencies.written text.toList updated))
      else .ok none
    | some _ => .error .notAnObject
  else .error (.invalidVersion version)

end SdkMigration
