import SdkMigration.Text.Unprintable

/-!
# Strings shown in messages

A string is shown between quotation marks.  Characters that would not be seen
or could be misread are written as escapes.
-/

namespace SdkMigration

/-- A character as it is shown inside quotation marks. -/
def shownChar (c : Char) : List Char :=
  if c = '"' then ['\\', '"']
  else if c = '\\' then ['\\', '\\']
  else if c = '\n' then ['\\', 'n']
  else if c = '\r' then ['\\', 'r']
  else if c = '\t' then ['\\', 't']
  else if c.toNat = 0 then ['\\', '0']
  else if isUnprintable c then
    ['\\', 'u', '\x7b'] ++ Nat.toDigits 16 c.toNat ++ ['\x7d']
  else [c]

/-- A string between quotation marks. -/
def shownString (s : String) : String :=
  "\"" ++ String.ofList (s.toList.flatMap shownChar) ++ "\""

/-- Strings between brackets. -/
def shownList (strings : List String) : String :=
  "[" ++ ", ".intercalate (strings.map shownString) ++ "]"

end SdkMigration
