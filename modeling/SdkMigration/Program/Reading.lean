import SdkMigration.Program.Grammar.Modules

/-!
# Reading a program

Closes the circle of the grammar's productions.  Every call of one production
by another takes one unit of fuel.  The fuel a program starts with is larger
than the nesting that its text has room for, so running out of it is the
same as not being a program.
-/

namespace SdkMigration

namespace Grammar

/-- The reader of a nonterminal, calling the others by `g`. -/
def production (g : Grammar) : Nonterminal → Reader Tree
  | .statement => statement g
  | .moduleItem => moduleItem g
  | .assignment => assignment g
  | .unary => unary g
  | .leftHandSide => leftHandSide g
  | .newCallee => newCallee g
  | .pattern => pattern g
  | .target => target g
  | .type => type g
  | .boundType => boundType g
  | .markup => element g Token.scan
  | .markupChild => element g Token.scanMarkup

/-- The reader of a nonterminal with a bound on the nesting. -/
def reader : Nat → Nonterminal → Reader Tree
  | 0, _ => failure
  | fuel + 1, nonterminal => production ⟨fuel, reader fuel⟩ nonterminal

/-- A bound on the nesting of a text of the given length. -/
def fuelFor (length : Nat) : Nat := 16 * (length + 2)

end Grammar

namespace Program

open Reader

/-- The text without a byte order mark at its start. -/
def withoutMark (text : Text) : Text :=
  match text with
  | c :: rest => if c.toNat == 0xFEFF then rest else text
  | [] => []

/-- The position behind a first line that starts with `#!`. -/
def afterInterpreterLine (text : Text) : Nat :=
  match text with
  | '#' :: '!' :: _ => (text.takeWhile (fun c => !Token.isLineEnd c)).length
  | _ => 0

/-- Reads the items of a program up to its end. -/
def readItems (item : Reader Tree) : Nat → Reader (List Tree)
  | 0 => failure
  | fuel + 1 => do
    if (← peek).kind == .endOfText then
      return []
    else
      let first ← item
      return first :: (← readItems item fuel)

/-- Reads a text, which has no byte order mark, as a program. -/
def read? (dialect : Dialect) (text : Text) : Option Program := do
  let fuel := Grammar.fuelFor text.length
  let start := afterInterpreterLine text
  let state : ReaderState :=
    { token := Token.scan start (text.drop start), lastStop := 0, dialect, surroundings := {} }
  let (found, _) ← readItems (Grammar.reader fuel .moduleItem) fuel state
  return ⟨found⟩

end Program

end SdkMigration
