import SdkMigration.Import.Bindings
import SdkMigration.Mapping.Rule
import SdkMigration.Migration.Note

/-!
# Rules in terms of a file

The rules speak of members of the module; a file speaks of them through its
own bindings.  A replacement is a rule as seen through one binding.  The
replacements of a file are looked up by the names of a chain joined by dots,
and where several apply to the same names the first one counts.
-/

namespace SdkMigration

/-- A rule as seen through a binding. -/
structure Replacement where
  /-- The path as it is written in the file. -/
  source : NamePath
  /-- The path that takes its place. -/
  target : NamePath
  rule : Rule
  origin : Origin
deriving DecidableEq, Repr

/-- Whether the replacement changes nothing. -/
def Replacement.isIdentity (replacement : Replacement) : Bool :=
  replacement.source == replacement.target

/-- A rule as seen through the single exports, `index` being the position of
the first of them. -/
def namedReplacements (rule : Rule) (index : Nat) : List NamedImport → List Replacement
  | [] => []
  | named :: rest =>
    let others := namedReplacements rule (index + 1) rest
    if named.exported = rule.source.first then
      ⟨rule.source.withFirst named.localName, rule.target, rule, .named index⟩ :: others
    else others

/-- A rule as seen through the aliases, `index` being the position of the
first of them. -/
def wholeReplacements (rule : Rule) (index : Nat) : List WholeImport → List Replacement
  | [] => []
  | whole :: rest =>
    ⟨rule.source.under whole.name, rule.target.under whole.name, rule, .whole index⟩ ::
      wholeReplacements rule (index + 1) rest

/-- All replacements of a file in the order in which they count. -/
def replacements (bindings : Bindings) (rules : List Rule) : List Replacement :=
  rules.flatMap fun rule =>
    namedReplacements rule 0 bindings.named ++ wholeReplacements rule 0 bindings.whole

/-- Replacements by their key. -/
abbrev KeyedReplacements := List (String × Replacement)

/-- The replacements of a file, those of a single name apart from those of
longer paths. -/
structure Lookups where
  direct : KeyedReplacements := []
  chained : KeyedReplacements := []

namespace Lookups

/-- Adds a replacement, unless its key is taken already. -/
def add (found : Lookups × List Note) (replacement : Replacement) : Lookups × List Note :=
  let (lookups, notes) := found
  let key := replacement.source.dotted
  let isDirect := replacement.source.rest.isEmpty
  let table := if isDirect then lookups.direct else lookups.chained
  match table.lookup key with
  | some existing => (lookups, notes ++ [.ruleIgnored replacement.target key existing.target])
  | none =>
    let longer := table ++ [(key, replacement)]
    (if isDirect then { lookups with direct := longer } else { lookups with chained := longer },
      notes)

/-- The lookups of a file, with a note on every replacement that does not
count. -/
def build (bindings : Bindings) (rules : List Rule) : Lookups × List Note :=
  (replacements bindings rules).foldl add ({}, [])

/-- The replacement for the given names. -/
def find? (lookups : Lookups) (names : List String) : Option Replacement :=
  let key := ".".intercalate names
  if names.length = 1 then lookups.direct.lookup key else lookups.chained.lookup key

end Lookups

end SdkMigration
