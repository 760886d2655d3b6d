import SdkMigration.Text.Alphanumeric
import SdkMigration.Text.Blank
import SdkMigration.Text.NameChars

/-!
# Version requirements

Which texts are version requirements of a package.  A requirement is a list
of alternatives separated by `||`, and an alternative is a range: two
versions with a hyphen between them, or comparators that all have to hold.
A requirement of a single alternative may also be a tag.

What a requirement means is not looked at.  The functions named `after…` take
what they recognize off the head of a text.
-/

namespace SdkMigration.VersionRequirement

/-- The text behind its leading blanks. -/
def skipBlanks (text : Text) : Text := text.dropWhile isBlank

/-- The text behind at least one blank. -/
def afterBlanks? : Text → Option Text
  | c :: rest => if isBlank c then some (skipBlanks rest) else none
  | [] => none

/-- The text behind a given beginning. -/
def after? (start text : Text) : Option Text :=
  if start.isPrefixOf text then some (text.drop start.length) else none

/-! ## Versions -/

/-- The value of decimal digits. -/
def digitsValue (digits : Text) : Nat :=
  digits.foldl (fun value c => value * 10 + (c.toNat - 0x30)) 0

/-- The text behind one part of a version: a wildcard, or a number that fits
64 bits. -/
def afterPart? (text : Text) : Option Text :=
  match text with
  | 'x' :: rest | 'X' :: rest | '*' :: rest => some rest
  | _ =>
    let digits := text.takeWhile NameChars.isAsciiDigit
    if digits.isEmpty || decide (Nat.pow 2 64 ≤ digitsValue digits) then none
    else some (text.drop digits.length)

/-- Whether a character belongs to a qualifier. -/
def isQualifierChar (c : Char) : Bool :=
  NameChars.isAsciiLetter c || NameChars.isAsciiDigit c || c == '-'

/-- The text behind words separated by dots.  At the start of a word, `fresh`
holds and no dot may come. -/
def afterWords (fresh : Bool) : Text → Text
  | [] => []
  | c :: rest =>
    if isQualifierChar c then afterWords false rest
    else if c == '.' && !fresh then afterWords true rest
    else c :: rest

/-- The text behind a qualifier: words behind a hyphen, which may be missing,
and words behind a plus sign. -/
def afterQualifier (text : Text) : Text :=
  let words := afterWords true ((after? ['-'] text).getD text)
  match words with
  | '+' :: rest => afterWords true rest
  | _ => words

/-- The text behind a version of up to three parts.  Three parts may be
followed by a qualifier. -/
def afterVersion? (text : Text) : Option Text :=
  match afterPart? ((after? ['v'] text).getD text) with
  | none => none
  | some rest =>
    match (after? ['.'] rest).bind afterPart? with
    | none => some rest
    | some rest =>
      match (after? ['.'] rest).bind afterPart? with
      | none => some rest
      | some rest => some (afterQualifier rest)

/-! ## Ranges -/

/-- The text behind a sign that compares. -/
def afterSign? (text : Text) : Option Text :=
  match text with
  | '>' :: '=' :: rest | '<' :: '=' :: rest | '<' :: rest | '>' :: rest | '=' :: rest => some rest
  | _ => none

/-- The text behind a sign that allows later versions, and behind the blanks
and the letter that may follow it. -/
def afterLoose? (text : Text) : Option Text :=
  let behind :=
    match text with
    | '~' :: '>' :: rest | '~' :: rest | '^' :: rest => some rest
    | _ => none
  behind.map fun rest =>
    let rest := skipBlanks rest
    skipBlanks ((after? ['v'] rest).getD rest)

/-- The text behind a comparator. -/
def afterComparator? (text : Text) : Option Text :=
  let loose := (((afterSign? text).bind afterBlanks?).bind afterLoose?) <|> afterLoose? text
  (loose.bind afterVersion?) <|>
    ((afterSign? text).bind fun rest => afterVersion? (skipBlanks rest)) <|>
    afterVersion? text

/-- The text behind what separates two comparators. -/
def afterSeparator? (text : Text) : Option Text :=
  let rest := skipBlanks text
  match rest with
  | ',' :: rest | '&' :: '&' :: rest => some (skipBlanks rest)
  | _ => afterBlanks? text

/-- Whether a text consists of comparators with separators between them, the
last of which may be followed by one more separator. -/
def areComparators (text : Text) : Nat → Bool
  | 0 => false
  | fuel + 1 =>
    match text with
    | [] => true
    | _ =>
      match afterComparator? text with
      | none => false
      | some [] => true
      | some rest =>
        match afterSeparator? rest with
        | some rest => areComparators rest fuel
        | none => false

/-- Whether a text is two versions with a hyphen between them. -/
def isHyphenated (text : Text) : Bool :=
  let rest := do
    let rest ← afterVersion? text
    let rest ← after? ['-'] (← afterBlanks? rest)
    afterVersion? (← afterBlanks? rest)
  rest == some []

/-- Whether a text is a range. -/
def isRange (text : Text) : Bool := isHyphenated text || areComparators text (text.length + 1)

/-! ## Tags and alternatives -/

/-- Whether a character can be part of a tag. -/
def isTagChar (c : Char) : Bool :=
  isAlphanumeric c || c == '-' || c == '_' || c == '.' || c == '~'

/-- Whether a text is a tag. -/
def isTag (text : Text) : Bool := !text.isEmpty && text.all isTagChar

/-- Splits a text at every `||`, `current` holding the characters before in
reverse order. -/
def alternativesFrom (current : Text) : Text → List Text
  | [] => [current.reverse]
  | '|' :: '|' :: rest => current.reverse :: alternativesFrom [] rest
  | c :: rest => alternativesFrom (c :: current) rest

/-- The alternatives of a text.  A separator at the end opens no further
one. -/
def alternatives (text : Text) : List Text :=
  let parts := (alternativesFrom [] text).map Text.trim
  if parts.getLast? = some [] then parts.dropLast else parts

/-- Whether a text is a version requirement. -/
def isValid (requirement : String) : Bool :=
  match alternatives (Text.trim requirement.toList) with
  | [only] => isRange only || isTag only
  | _ => true

end SdkMigration.VersionRequirement
