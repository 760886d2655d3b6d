import SdkMigration.Text.Span

/-!
# Blank characters

`isBlank` is the Unicode property `White_Space`.  A text is trimmed of
these characters, and of no others, at its ends.
-/

namespace SdkMigration

/-- The characters with the Unicode property `White_Space`. -/
def isBlank (c : Char) : Bool :=
  let n := c.toNat
  decide (n = 0x20) || (decide (9 ≤ n) && decide (n ≤ 13)) ||
    decide (n = 0x85) || decide (n = 0xA0) || decide (n = 0x1680) ||
    (decide (0x2000 ≤ n) && decide (n ≤ 0x200A)) ||
    decide (n = 0x2028) || decide (n = 0x2029) || decide (n = 0x202F) ||
    decide (n = 0x205F) || decide (n = 0x3000)

namespace Text

/-- The text without its leading blanks. -/
def trimStart (text : Text) : Text := text.dropWhile isBlank

/-- The text without its trailing blanks. -/
def trimEnd (text : Text) : Text := (text.reverse.dropWhile isBlank).reverse

/-- The text without the blanks at both ends. -/
def trim (text : Text) : Text := text.trimStart.trimEnd

/-- Whether the text holds nothing but blanks. -/
def isAllBlank (text : Text) : Bool := text.all isBlank

end Text

end SdkMigration
