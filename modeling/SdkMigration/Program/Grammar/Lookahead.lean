import SdkMigration.Program.Grammar.Basic

/-!
# Looking behind brackets

What stands in round brackets may be parameters or an expression, and which
of them it is shows only behind the closing bracket.  `Reader.behindBrackets`
passes over the tokens between the brackets without reading them as anything.
A slash counts as the start of a regular expression where no value stands
before it.
-/

namespace SdkMigration

/-- What is open while tokens are passed over. -/
inductive Bracket where
  | round
  | square
  | curly
  /-- A substitution in a template. -/
  | substitution
deriving DecidableEq

namespace Bracket

/-- The bracket that a mark opens. -/
def opened? (mark : String) : Option Bracket :=
  if mark == "(" then some .round
  else if mark == "[" then some .square
  else if mark == "\x7b" then some .curly
  else none

/-- The bracket that a mark closes. -/
def closed? (mark : String) : Option Bracket :=
  if mark == ")" then some .round
  else if mark == "]" then some .square
  else if mark == "\x7d" then some .curly
  else none

end Bracket

/-- The reserved words that are values. -/
def valueWords : List String := ["this", "null", "true", "false", "super"]

/-- Whether a slash behind a token divides. -/
def TokenKind.endsValue : TokenKind → Bool
  | .word name _ => !reservedWords.contains name || valueWords.contains name
  | .privateName _ => true
  | .string _ => true
  | .number => true
  | .pattern => true
  | .template closed _ => closed
  | .mark found => [")", "]", "\x7d", "++", "--"].contains found
  | .endOfText => false
  | .markupText => false
  | .invalid => false

/-- Passes over tokens until all brackets are closed, and gives the token
behind the last of them. -/
def skipBrackets (opened : List Bracket) (afterValue : Bool) (token : Token) :
    Nat → Option Token
  | 0 => none
  | fuel + 1 =>
    let proceed (opened : List Bracket) (token : Token) : Option Token :=
      let next := Token.scan token.stop token.rest
      if opened.isEmpty then some next
      else skipBrackets opened token.kind.endsValue next fuel
    match token.kind with
    | .endOfText | .invalid | .markupText => none
    | .template false _ => proceed (.substitution :: opened) token
    | .mark mark =>
      match Bracket.opened? mark, Bracket.closed? mark with
      | some bracket, _ => proceed (bracket :: opened) token
      | none, some bracket =>
        match opened with
        | found :: rest =>
          if found = bracket then proceed rest token
          else if found = .substitution ∧ bracket = .curly then
            let piece := token.rescanTemplate
            match piece.kind with
            | .template true _ => proceed rest piece
            | .template false _ => proceed opened piece
            | _ => none
          else none
        | [] => none
      | none, none =>
        if (mark == "/" || mark == "/=") && !afterValue then
          let piece := token.rescanPattern
          if piece.kind = .pattern then proceed opened piece else none
        else proceed opened token
    | _ => proceed opened token

/-- The token behind the brackets that a token opens, if they are closed. -/
def Token.behindBrackets (token : Token) (fuel : Nat) : Option Token :=
  if token.kind.isMark "(" then skipBrackets [] false token fuel else none

end SdkMigration
