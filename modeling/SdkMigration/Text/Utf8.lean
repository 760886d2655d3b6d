import SdkMigration.Text.Span

/-!
# Bytes as text

Decodes UTF-8.  Bytes that are no text are reported with the place of the
first character that cannot be read and the number of bytes that are wrong
there, or with the place alone when the bytes end too early.
-/

namespace SdkMigration

/-- Why bytes are no text. -/
inductive Utf8Error where
  | invalid (index length : Nat)
  | incomplete (index : Nat)
deriving DecidableEq, Repr

/-- What is told about bytes that are no text. -/
def Utf8Error.message : Utf8Error → String
  | .invalid index length =>
    "invalid utf-8 sequence of " ++ toString length ++ " bytes from index " ++ toString index
  | .incomplete index => "incomplete utf-8 byte sequence from index " ++ toString index

namespace Utf8

/-- Whether a byte goes on with a character. -/
def continues (byte : Nat) : Bool := decide (0x80 ≤ byte) && decide (byte < 0xC0)

/-- Whether a byte may come second in a character of three bytes. -/
def secondOfThree (first second : Nat) : Bool :=
  continues second && !(first == 0xE0 && decide (second < 0xA0)) &&
    !(first == 0xED && decide (0xA0 ≤ second))

/-- Whether a byte may come second in a character of four bytes. -/
def secondOfFour (first second : Nat) : Bool :=
  continues second && !(first == 0xF0 && decide (second < 0x90)) &&
    !(first == 0xF4 && decide (0x90 ≤ second))

/-- Decodes bytes from the given index on, `known` holding the characters
before it in reverse order. -/
def decodeFrom (index : Nat) (known : Text) : List Nat → Except Utf8Error Text
  | [] => .ok known.reverse
  | a :: rest =>
    if a < 0x80 then decodeFrom (index + 1) (Char.ofNat a :: known) rest
    else if 0xC2 ≤ a ∧ a < 0xE0 then
      match rest with
      | [] => .error (.incomplete index)
      | b :: rest =>
        if continues b then
          decodeFrom (index + 2) (Char.ofNat ((a - 0xC0) * 64 + (b - 0x80)) :: known) rest
        else .error (.invalid index 1)
    else if 0xE0 ≤ a ∧ a < 0xF0 then
      match rest with
      | [] => .error (.incomplete index)
      | b :: rest =>
        if secondOfThree a b then
          match rest with
          | [] => .error (.incomplete index)
          | c :: rest =>
            if continues c then
              let code := ((a - 0xE0) * 64 + (b - 0x80)) * 64 + (c - 0x80)
              decodeFrom (index + 3) (Char.ofNat code :: known) rest
            else .error (.invalid index 2)
        else .error (.invalid index 1)
    else if 0xF0 ≤ a ∧ a < 0xF5 then
      match rest with
      | [] => .error (.incomplete index)
      | b :: rest =>
        if secondOfFour a b then
          match rest with
          | [] => .error (.incomplete index)
          | c :: rest =>
            if continues c then
              match rest with
              | [] => .error (.incomplete index)
              | d :: rest =>
                if continues d then
                  let code :=
                    (((a - 0xF0) * 64 + (b - 0x80)) * 64 + (c - 0x80)) * 64 + (d - 0x80)
                  decodeFrom (index + 4) (Char.ofNat code :: known) rest
                else .error (.invalid index 3)
            else .error (.invalid index 2)
        else .error (.invalid index 1)
    else .error (.invalid index 1)

/-- Decodes bytes. -/
def decode (bytes : List Nat) : Except Utf8Error Text := decodeFrom 0 [] bytes

end Utf8

end SdkMigration
