import SdkMigration.Decimal.Scaled
import SdkMigration.Json.Value
import SdkMigration.Text.Hex

/-!
# Reading JSON

`Json.read?` accepts exactly the texts of the format.  Every reader takes the
characters in front of it and gives what it has read with the characters
behind it.
-/

namespace SdkMigration.Json

/-- The characters that may stand between two parts. -/
def isSpace (c : Char) : Bool := c == ' ' || c == '\n' || c == '\t' || c == '\r'

/-- The characters behind the spaces. -/
def skipSpaces (chars : List Char) : List Char := chars.dropWhile isSpace

/-! ## Numbers -/

/-- The value of a decimal digit. -/
def digit? (c : Char) : Option Nat :=
  if 0x30 ≤ c.toNat ∧ c.toNat ≤ 0x39 then some (c.toNat - 0x30) else none

/-- Splits off the digits at the head. -/
def spanDigits (chars : List Char) : List Nat × List Char :=
  match chars with
  | [] => ([], [])
  | c :: rest =>
    match digit? c with
    | some digit =>
      let (digits, rest) := spanDigits rest
      (digit :: digits, rest)
    | none => ([], c :: rest)

/-- A bound on the whole numbers that fit 64 bits. -/
def wordBound : Nat := Nat.pow 2 64

/-- Adds digits to a whole number as long as it fits 64 bits, and counts those
that were added and those that were left out. -/
def accumulate (value added : Nat) : List Nat → Nat × Nat × Nat
  | [] => (value, added, 0)
  | digit :: rest =>
    if value * 10 + digit < wordBound then accumulate (value * 10 + digit) (added + 1) rest
    else (value, added, rest.length + 1)

/-- The parts of a numeral. -/
structure Numeral where
  negative : Bool
  /-- The digits before the point. -/
  whole : List Nat
  /-- The digits after the point, if it has one. -/
  fraction : Option (List Nat)
  /-- The sign and the digits of the exponent, if it has one. -/
  exponent : Option (Bool × List Nat)

/-- Splits off an exponent behind its letter. -/
def spanExponent? (chars : List Char) : Option ((Bool × List Nat) × List Char) :=
  let (negative, rest) :=
    match chars with
    | '-' :: rest => (true, rest)
    | '+' :: rest => (false, rest)
    | _ => (false, chars)
  match spanDigits rest with
  | ([], _) => none
  | (digits, rest) => some ((negative, digits), rest)

/-- Splits off a point with the digits behind it, if there is one. -/
def spanFraction? (chars : List Char) : Option (Option (List Nat) × List Char) :=
  match chars with
  | '.' :: after =>
    match spanDigits after with
    | ([], _) => none
    | (digits, after) => some (some digits, after)
  | _ => some (none, chars)

/-- Splits off an exponent with its letter, if there is one. -/
def spanScale? (chars : List Char) : Option (Option (Bool × List Nat) × List Char) :=
  match chars with
  | c :: after =>
    if c == 'e' || c == 'E' then
      match spanExponent? after with
      | some (exponent, after) => some (some exponent, after)
      | none => none
    else some (none, chars)
  | [] => some (none, chars)

/-- Splits off a numeral behind its sign. -/
def spanUnsigned? (negative : Bool) (chars : List Char) : Option (Numeral × List Char) :=
  match spanDigits chars with
  | ([], _) => none
  | (0 :: _ :: _, _) => none
  | (whole, rest) => do
    let (fraction, rest) ← spanFraction? rest
    let (exponent, rest) ← spanScale? rest
    return (⟨negative, whole, fraction, exponent⟩, rest)

/-- Splits off a numeral. -/
def spanNumeral? (chars : List Char) : Option (Numeral × List Char) :=
  match chars with
  | '-' :: rest => spanUnsigned? true rest
  | _ => spanUnsigned? false chars

/-- The value of digits as a whole number. -/
def digitsValue (digits : List Nat) : Nat := digits.foldl (fun value d => value * 10 + d) 0

namespace Numeral

/-- The digits that count as one whole number, with the power of ten that it
is to be multiplied by.  Digits that do not fit 64 bits are left out. -/
def scaled (numeral : Numeral) : Nat × Int :=
  let (whole, _, omitted) := accumulate 0 0 numeral.whole
  let (value, added, _) := accumulate whole 0 (numeral.fraction.getD [])
  (value, Int.ofNat omitted - Int.ofNat added)

/-- The power of ten that the numeral is multiplied by. -/
def power (numeral : Numeral) : Int :=
  match numeral.exponent with
  | some (true, digits) => -Int.ofNat (digitsValue digits)
  | some (false, digits) => Int.ofNat (digitsValue digits)
  | none => 0

/-- The double that the numeral stands for. -/
def double (numeral : Numeral) : Json :=
  let (digits, exponent) := numeral.scaled
  match Double.ofDecimal numeral.negative digits (exponent + numeral.power) with
  | some value => .double value
  | none => .meaningless

/-- The number that the numeral stands for. -/
def number (numeral : Numeral) : Json :=
  match numeral.fraction, numeral.exponent with
  | none, none =>
    let value := digitsValue numeral.whole
    if numeral.negative then
      if 0 < value ∧ value ≤ Nat.pow 2 63 then .integer (-Int.ofNat value) else numeral.double
    else if value < wordBound then .integer (Int.ofNat value)
    else numeral.double
  | _, _ => numeral.double

end Numeral

/-! ## Strings -/

/-- The character that a one-letter escape stands for. -/
def simpleEscape? (c : Char) : Option Char :=
  if c == '"' || c == '\\' || c == '/' then some c
  else if c == 'b' then some (Char.ofNat 8)
  else if c == 'f' then some (Char.ofNat 12)
  else if c == 'n' then some '\n'
  else if c == 'r' then some '\r'
  else if c == 't' then some '\t'
  else none

/-- A string while it is read. -/
structure Quoted where
  /-- The characters so far, in reverse. -/
  chars : List Char := []
  /-- The first half of a pair, waiting for the second. -/
  half : Option Nat := none
  /-- Whether a half has been left without the other. -/
  broken : Bool := false

/-- Adds a character. -/
def Quoted.push (quoted : Quoted) (c : Char) : Quoted :=
  ⟨c :: quoted.chars, none, quoted.broken || quoted.half.isSome⟩

/-- Adds a code unit. -/
def Quoted.pushUnit (quoted : Quoted) (unit : Nat) : Quoted :=
  if isFirstHalf unit then
    { quoted with half := some unit, broken := quoted.broken || quoted.half.isSome }
  else if isSecondHalf unit then
    match quoted.half with
    | some first => ⟨pairedChar first unit :: quoted.chars, none, quoted.broken⟩
    | none => { quoted with broken := true }
  else quoted.push (Char.ofNat unit)

/-- What was read, or `none` when it is broken. -/
def Quoted.string? (quoted : Quoted) : Option String :=
  if quoted.broken || quoted.half.isSome then none
  else some (String.ofList quoted.chars.reverse)

/-- Reads a string behind its opening quotation mark.  The result is `none`
for a broken string. -/
def spanString? (quoted : Quoted) : List Char → Option (Option String × List Char)
  | [] => none
  | '"' :: rest => some (quoted.string?, rest)
  | '\\' :: 'u' :: a :: b :: c :: d :: rest =>
    match hexFour? a b c d with
    | some unit => spanString? (quoted.pushUnit unit) rest
    | none => none
  | '\\' :: e :: rest =>
    match simpleEscape? e with
    | some c => spanString? (quoted.push c) rest
    | none => none
  | c :: rest =>
    if c == '\\' || c.toNat < 0x20 then none else spanString? (quoted.push c) rest

/-! ## Values -/

/-- The part of a value that is read. -/
inductive Part where
  | value
  /-- Items of an array, the next one coming. -/
  | items
  /-- Entries of an object, the next one coming. -/
  | entries

/-- What is read of a part. -/
inductive Found where
  | value (json : Json)
  | items (list : List Json)
  /-- The entries, or `none` when a key is broken. -/
  | entries (list : Option (List (String × Json)))

/-- Takes the letters of a word. -/
def word? (word : List Char) (json : Json) (chars : List Char) : Option (Found × List Char) :=
  if word.isPrefixOf chars then some (.value json, chars.drop word.length) else none

/-- Reads a part, `fuel` being at least the number of characters. -/
def spanPart? (part : Part) (chars : List Char) : Nat → Option (Found × List Char)
  | 0 => none
  | fuel + 1 =>
    let chars := skipSpaces chars
    match part with
    | .value =>
      match chars with
      | '"' :: rest =>
        match spanString? {} rest with
        | some (some s, rest) => some (.value (.string s), rest)
        | some (none, rest) => some (.value .meaningless, rest)
        | none => none
      | '[' :: rest =>
        match skipSpaces rest with
        | ']' :: after => some (.value (.array []), after)
        | rest =>
          match spanPart? .items rest fuel with
          | some (.items list, after) => some (.value (.array list), after)
          | _ => none
      | '\x7b' :: rest =>
        match skipSpaces rest with
        | '\x7d' :: after => some (.value (.object []), after)
        | rest =>
          match spanPart? .entries rest fuel with
          | some (.entries (some list), after) => some (.value (.object list), after)
          | some (.entries none, after) => some (.value .meaningless, after)
          | _ => none
      | 'n' :: _ => word? ['n', 'u', 'l', 'l'] .null chars
      | 't' :: _ => word? ['t', 'r', 'u', 'e'] (.bool true) chars
      | 'f' :: _ => word? ['f', 'a', 'l', 's', 'e'] (.bool false) chars
      | _ =>
        match spanNumeral? chars with
        | some (numeral, rest) => some (.value numeral.number, rest)
        | none => none
    | .items =>
      match spanPart? .value chars fuel with
      | some (.value first, rest) =>
        match skipSpaces rest with
        | ',' :: rest =>
          match spanPart? .items rest fuel with
          | some (.items others, after) => some (.items (first :: others), after)
          | _ => none
        | ']' :: after => some (.items [first], after)
        | _ => none
      | _ => none
    | .entries =>
      match chars with
      | '"' :: rest =>
        match spanString? {} rest with
        | none => none
        | some (key, rest) =>
          match skipSpaces rest with
          | ':' :: rest =>
            match spanPart? .value rest fuel with
            | some (.value value, rest) =>
              let entry := key.map fun key => (key, value)
              match skipSpaces rest with
              | ',' :: rest =>
                match spanPart? .entries rest fuel with
                | some (.entries others, after) =>
                  some (.entries (do return (← entry) :: (← others)), after)
                | _ => none
              | '\x7d' :: after => some (.entries (do return [← entry]), after)
              | _ => none
            | _ => none
          | _ => none
      | _ => none

/-- Reads a text as a value.  Keys may be repeated in it. -/
def read? (text : String) : Option Json :=
  let chars := text.toList
  match spanPart? .value chars (2 * chars.length + 2) with
  | some (.value json, rest) => if (skipSpaces rest).isEmpty then some json else none
  | _ => none

/-- How many containers may be nested. -/
def maxDepth : Nat := 127

/-- Reads a text as a value with distinct keys. -/
def readSettled? (text : String) : Option Json := do (← read? text).settled maxDepth

end SdkMigration.Json
