import SdkMigration.Program.Grammar.Types

/-!
# Patterns

A pattern binds names: in a declaration, in the parameters of a function and
in a `catch` clause.  A target is what an assignment writes to; it has the
same shape, with any place that can be written in the position of a name.  In
both, a plain name becomes `Tree.binding`.
-/

namespace SdkMigration.Grammar

open Reader

/-- Reads the name of a property: the expression of a computed name, and
nothing for any other. -/
def propertyName (g : Grammar) : Reader (List Tree) := do
  match (← peek).kind with
  | .word _ _ | .string _ | .number | .privateName _ =>
    take
    return []
  | _ =>
    expect "["
    let key ← bracketed (g.read .assignment)
    expect "]"
    return [key]

/-- Reads the default behind a pattern, if there is one. -/
def withDefault (g : Grammar) (start : Nat) (pattern : Tree) : Reader Tree := do
  if ← accept "=" then
    let value ← g.read .assignment
    branchFrom .defaulted start [pattern, value]
  else
    return pattern

/-- Reads an element of an array pattern, `one` reading what it binds or
writes. -/
def arrayElement (g : Grammar) (one : Reader Tree) : Reader Tree := do
  let start ← here
  if ← accept "..." then
    let inner ← one
    branchFrom .rest start [inner]
  else
    withDefault g start (← one)

/-- Reads the elements of an array pattern behind its opening bracket. -/
def arrayElements (g : Grammar) (one : Reader Tree) : Nat → Reader (List Tree)
  | 0 => failure
  | fuel + 1 => do
    if ← accept "]" then
      return []
    else if ← accept "," then
      arrayElements g one fuel
    else
      let element ← arrayElement g one
      separator "]"
      let others ← arrayElements g one fuel
      return element :: others

/-- Reads what is bound or written, with its default. -/
def defaulted (g : Grammar) (one : Reader Tree) : Reader Tree := do
  let start ← here
  withDefault g start (← one)

/-- Reads an entry of an object pattern. -/
def objectEntry (g : Grammar) (one : Reader Tree) : Reader Tree := do
  let start ← here
  let second ← peekSecond
  if ← accept "..." then
    let inner ← one
    branchFrom .rest start [inner]
  else if (← peek).kind.isWord && !second.kind.isMark ":" then
    let id ← variableName
    let value ← singleIf (← accept "=") (g.read .assignment)
    branchFrom .objectEntry start (.binding id [] :: value)
  else
    let key ← propertyName g
    expect ":"
    let value ← defaulted g one
    branchFrom .objectEntry start (key ++ [value])

/-- Reads a pattern in brackets or braces. -/
def destructured (g : Grammar) (one : Reader Tree) : Reader Tree := do
  let start ← here
  if ← accept "[" then
    let elements ← bracketed (arrayElements g one g.fuel)
    branchFrom .arrayPattern start elements
  else
    expect "\x7b"
    let entries ← bracketed (commaItems "\x7d" (objectEntry g one) g.fuel)
    branchFrom .objectPattern start entries

/-- Whether the next token opens a pattern in brackets or braces. -/
def atDestructured : Reader Bool := do return (← atMark "[") || (← atMark "\x7b")

/-- Reads a pattern without its type annotation. -/
def pattern (g : Grammar) : Reader Tree := do
  if ← atDestructured then
    destructured g (g.read .pattern)
  else
    return .binding (← variableName) []

/-- What an expression is as the target of an assignment, when it can be
one. -/
def asTarget? (expression : Tree) : Option Tree :=
  match expression.core with
  | .identifier _ id => some (.binding id [])
  | .member _ _ _ _ => some expression
  | .branch kind _ _ =>
    match kind with
    | .element | .privateMember | .superMember | .parenthesized | .typeCast | .typeAssertion
    | .nonNull | .instantiation => some expression
    | _ => none
  | _ => none

/-- Reads a target in brackets or braces. -/
def destructuredTarget (g : Grammar) : Reader Tree := do
  let tree ← destructured g (g.read .target)
  let next ← peek
  require !(next.kind.isMark "." || next.kind.isMark "[" || next.kind.isMark "?." ||
    next.kind.isMark "(")
  return tree

/-- Reads a place that can be written. -/
def place (g : Grammar) : Reader Tree := do
  let expression ← g.read .leftHandSide
  return (asTarget? expression).getD expression

/-- Reads a target. -/
def target (g : Grammar) : Reader Tree := do
  if ← atDestructured then destructuredTarget g <|> place g else place g

end SdkMigration.Grammar
