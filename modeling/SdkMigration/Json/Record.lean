import SdkMigration.Json.Value

/-!
# Records in JSON

A record is written as an object with a field for each of its parts, or as an
array of the parts in their order.  A field that is known must not be
repeated.
-/

namespace SdkMigration.Json

/-- The value of a field, if there is one; `none` when it is repeated. -/
def field? (name : String) (entries : List (String × Json)) : Option (Option Json) :=
  match entries.filter fun entry => entry.1 == name with
  | [] => some none
  | [entry] => some (some entry.2)
  | _ => none

/-- The value of a field that has to be there. -/
def needed? (name : String) (entries : List (String × Json)) : Option Json := do
  ← field? name entries

/-- Reads a string. -/
def asString? : Json → Option String
  | .string value => some value
  | _ => none

/-- Reads a truth value. -/
def asBool? : Json → Option Bool
  | .bool value => some value
  | _ => none

/-- Reads a whole number that is not negative. -/
def asNat? : Json → Option Nat
  | .integer (.ofNat value) => some value
  | _ => none

/-- Reads a list, each of its items by `item`. -/
def asList? (item : Json → Option α) : Json → Option (List α)
  | .array items => items.mapM item
  | _ => none

/-- Reads a part that may be left out by writing `null`. -/
def asOption? (part : Json → Option α) : Json → Option (Option α)
  | .null => some none
  | json => (part json).map some

/-- Reads a field, taking `default` when it is not there. -/
def fieldOr? (part : Json → Option α) (default : α) (name : String)
    (entries : List (String × Json)) : Option α := do
  match ← field? name entries with
  | some json => part json
  | none => return default

/-- Reads the next part of a record written as an array, taking `default` when
the array has ended. -/
def nextOr? (part : Json → Option α) (default : α) :
    List Json → Option (α × List Json)
  | [] => some (default, [])
  | item :: rest => (part item).map fun value => (value, rest)

end SdkMigration.Json
