import SdkMigration.Text.Blank
import SdkMigration.Text.Parts

/-!
# Paths of names

A path is a list of at least one name, such as `pages.config.setConfig`.  The
written form of a path in a mapping starts with one more name, which stands
for the module and is taken off when the path is read.
-/

namespace SdkMigration

/-- At least one name. -/
structure NamePath where
  first : String
  rest : List String
deriving DecidableEq, Repr

namespace NamePath

/-- The names of the path in order. -/
def names (path : NamePath) : List String := path.first :: path.rest

/-- The last name. -/
def last (path : NamePath) : String := path.rest.getLast?.getD path.first

/-- The names joined by dots. -/
def dotted (path : NamePath) : String := ".".intercalate path.names

/-- The path with one more name in front. -/
def under (name : String) (path : NamePath) : NamePath := ⟨name, path.names⟩

/-- The path with another first name. -/
def withFirst (name : String) (path : NamePath) : NamePath := ⟨name, path.rest⟩

/-! ## Written paths -/

/-- Reads a written path: names separated by dots, none of them blank, the
first of which stands for the module.  Blanks around a name do not count. -/
def ofWritten? (written : String) : Option NamePath :=
  let segments := Text.parts '.' written.toList
  if segments.any Text.isAllBlank then none
  else
    match segments.map fun segment => String.ofList segment.trim with
    | _ :: first :: rest => some ⟨first, rest⟩
    | _ => none

end NamePath

end SdkMigration
