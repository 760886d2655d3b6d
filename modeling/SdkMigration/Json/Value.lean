import SdkMigration.Decimal.Double

/-!
# Values of the JSON format

Objects keep the order of their entries.  What is read may hold a key more
than once; `Json.settled` gives such a key the place of its first entry and
the value of its last one.

A number is a whole number when it was written as one and fits 64 bits, and a
double otherwise.  A numeral that no double comes near and a string with half
of a surrogate pair are well-formed and yet stand for nothing; they are kept
as `Json.meaningless`, because a reader may pass over them.
-/

namespace SdkMigration

/-- A JSON value. -/
inductive Json where
  | null
  | bool (value : Bool)
  | integer (value : Int)
  | double (value : Double)
  | string (value : String)
  | array (items : List Json)
  | object (entries : List (String × Json))
  | meaningless

namespace Json

instance : Inhabited Json := ⟨.null⟩

/-- Gives a key a value: in the place it has already, or behind all others. -/
def put (key : String) (value : Json) : List (String × Json) → List (String × Json)
  | [] => [(key, value)]
  | (found, old) :: rest =>
    if found = key then (key, value) :: rest else (found, old) :: put key value rest

/-- The entries with every key at the place of its first entry and with the
value of its last one. -/
def distinct (entries : List (String × Json)) : List (String × Json) :=
  entries.foldl (fun found (key, value) => put key value found) []

mutual

/-- The value with distinct keys everywhere.  It is `none` when a part of it
is meaningless or when containers are nested more than `depth` times. -/
def settled (depth : Nat) : Json → Option Json
  | .null => some .null
  | .bool value => some (.bool value)
  | .integer value => some (.integer value)
  | .double value => some (.double value)
  | .string value => some (.string value)
  | .array items =>
    match depth with
    | 0 => none
    | depth + 1 =>
      match allSettled depth items with
      | some items => some (.array items)
      | none => none
  | .object entries =>
    match depth with
    | 0 => none
    | depth + 1 =>
      match entriesSettled depth entries with
      | some entries => some (.object (distinct entries))
      | none => none
  | .meaningless => none

/-- The values with distinct keys everywhere. -/
def allSettled (depth : Nat) : List Json → Option (List Json)
  | [] => some []
  | item :: rest =>
    match item.settled depth, allSettled depth rest with
    | some item, some rest => some (item :: rest)
    | _, _ => none

/-- The entries with distinct keys everywhere in their values. -/
def entriesSettled (depth : Nat) : List (String × Json) → Option (List (String × Json))
  | [] => some []
  | (key, value) :: rest =>
    match value.settled depth, entriesSettled depth rest with
    | some value, some rest => some ((key, value) :: rest)
    | _, _ => none

end

end Json

end SdkMigration
