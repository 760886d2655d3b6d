import SdkMigration.Decimal.Shortest
import SdkMigration.Json.Value
import SdkMigration.Text.Hex

/-!
# Writing JSON

A value is written on one line, or spread over lines with an indentation for
every level.
-/

namespace SdkMigration.Json

/-! ## Strings and numbers -/

/-- A character inside quotation marks. -/
def escapedChar (c : Char) : List Char :=
  if c = '"' then ['\\', '"']
  else if c = '\\' then ['\\', '\\']
  else if c.toNat = 8 then ['\\', 'b']
  else if c.toNat = 9 then ['\\', 't']
  else if c.toNat = 10 then ['\\', 'n']
  else if c.toNat = 12 then ['\\', 'f']
  else if c.toNat = 13 then ['\\', 'r']
  else if c.toNat < 0x20 then
    ['\\', 'u', '0', '0', hexChar (c.toNat / 16), hexChar (c.toNat % 16)]
  else [c]

/-- A string in quotation marks. -/
def quotedString (s : String) : List Char := '"' :: (s.toList.flatMap escapedChar ++ ['"'])

/-- The decimal digits of a number. -/
def digitsOf (n : Nat) : List Char := Nat.toDigits 10 n

/-- A whole number. -/
def integerText (value : Int) : List Char :=
  match value with
  | .ofNat n => digitsOf n
  | .negSucc n => '-' :: digitsOf (n + 1)

/-- How many digits may stand before the point. -/
def maxWholeDigits : Int := 16

/-- How many zeros may stand between the point and the first digit. -/
def maxLeadingZeros : Int := 4

/-- A double without its sign: the shortest digits that read back, with a
point among them when the number is neither very large nor very small, and
with an exponent otherwise. -/
def doubleBody (d : Double) : List Char :=
  if d.isZero then ['0', '.', '0']
  else
    let decimal := d.shortest
    let digits := digitsOf decimal.digits
    let point := Int.ofNat digits.length + decimal.exponent
    if 0 ≤ decimal.exponent ∧ point ≤ maxWholeDigits then
      digits ++ List.replicate decimal.exponent.toNat '0' ++ ['.', '0']
    else if 0 < point ∧ point ≤ maxWholeDigits then
      digits.take point.toNat ++ '.' :: digits.drop point.toNat
    else if -maxLeadingZeros - 1 < point ∧ point ≤ 0 then
      ['0', '.'] ++ List.replicate (-point).toNat '0' ++ digits
    else
      let mantissa :=
        match digits with
        | [only] => [only]
        | first :: rest => first :: '.' :: rest
        | [] => []
      mantissa ++ 'e' :: integerText (point - 1)

/-- A double. -/
def doubleText (d : Double) : List Char :=
  if d.negative then '-' :: doubleBody d else doubleBody d

/-! ## Values -/

/-- How the parts of a container are set apart. -/
structure Layout where
  /-- What stands before every part and before the closing bracket, given the
  level of nesting. -/
  lineBreak : Nat → List Char
  /-- What stands behind the colon of an entry. -/
  afterColon : List Char

/-- Everything on one line. -/
def oneLine : Layout := ⟨fun _ => [], []⟩

/-- Every part on a line of its own, indented once for every level. -/
def indented (indent : List Char) : Layout :=
  ⟨fun level => '\n' :: (List.replicate level indent).flatten, [' ']⟩

mutual

/-- Writes a value that stands at a level of nesting. -/
def write (layout : Layout) (level : Nat) : Json → List Char
  | .null | .meaningless => ['n', 'u', 'l', 'l']
  | .bool true => ['t', 'r', 'u', 'e']
  | .bool false => ['f', 'a', 'l', 's', 'e']
  | .integer value => integerText value
  | .double value => doubleText value
  | .string value => quotedString value
  | .array [] => ['[', ']']
  | .array (first :: rest) =>
    '[' :: (layout.lineBreak (level + 1) ++ first.write layout (level + 1) ++
      writeItems layout (level + 1) rest ++ layout.lineBreak level ++ [']'])
  | .object [] => ['\x7b', '\x7d']
  | .object ((key, value) :: rest) =>
    '\x7b' :: (layout.lineBreak (level + 1) ++ quotedString key ++ ':' :: layout.afterColon ++
      value.write layout (level + 1) ++
      writeEntries layout (level + 1) rest ++ layout.lineBreak level ++ ['\x7d'])

/-- Writes items, each behind a comma. -/
def writeItems (layout : Layout) (level : Nat) : List Json → List Char
  | [] => []
  | item :: rest =>
    ',' :: (layout.lineBreak level ++ item.write layout level ++ writeItems layout level rest)

/-- Writes entries, each behind a comma. -/
def writeEntries (layout : Layout) (level : Nat) : List (String × Json) → List Char
  | [] => []
  | (key, value) :: rest =>
    ',' :: (layout.lineBreak level ++ quotedString key ++ ':' :: layout.afterColon ++
      value.write layout level ++ writeEntries layout level rest)

end

/-- The value on one line. -/
def compact (json : Json) : String := String.ofList (json.write oneLine 0)

/-- The value spread over lines. -/
def pretty (indent : List Char) (json : Json) : String :=
  String.ofList (json.write (indented indent) 0)

end SdkMigration.Json
