import SdkMigration.Program.Grammar.Functions

/-!
# Classes

The heritage of a class and its members.
-/

namespace SdkMigration.Grammar

open Reader

/-! ## Heritage -/

/-- Reads an entry of an `implements` clause, or of the `extends` clause of an
interface. -/
def heritage (g : Grammar) : Reader Tree := do
  let start ← here
  let value ← g.read .newCallee
  let arguments ← typeArgumentsOfName g
  return .heritage (← spanFrom start) value arguments

/-- Reads the entries of a clause behind the word that opens it. -/
def heritageClause (g : Grammar) (word : String) : Reader (List Tree) := do
  if ← acceptWordIf (← hasTypes) word then
    commaSeparated (heritage g) g.fuel
  else
    return []

/-- Reads the class behind `extends`, followed by its type arguments. -/
def parentClause (g : Grammar) : Reader (List Tree) := do
  if ← acceptWord "extends" then
    let parent ← g.read .leftHandSide
    let arguments ← (if ← hasTypes then typeArgumentsOfName g else pure [])
    return parent :: arguments
  else
    return []

/-- Reads the `implements` clauses of a class. -/
def interfaceClauses (g : Grammar) : Nat → Reader (List Tree)
  | 0 => failure
  | fuel + 1 => do
    match ← heritageClause g "implements" with
    | [] => return []
    | first => return first ++ (← interfaceClauses g fuel)

/-! ## Members -/

/-- The words that can stand before a member. -/
def memberModifiers (types : Bool) : List String :=
  if types then
    ["static", "public", "private", "protected", "abstract", "override", "readonly", "declare",
      "accessor"]
  else
    ["static", "accessor"]

/-- Reads an index signature of a class. -/
def classIndexSignature (g : Grammar) (start : Nat) : Reader Tree := do
  require (← hasTypes)
  let member ← indexSignature g start
  endStatement
  return member

/-- Reads the parts of a constructor behind its name. -/
def constructorParts (g : Grammar) : Reader (List Tree) := do
  let inputs ← inside (fun _ => {}) (parameters g)
  if (← hasTypes) && !(← atMark "\x7b") then
    endStatement
    return inputs
  else
    return inputs ++ [← functionBody g false]

/-- Takes the marks behind the name of a member. -/
def skipMemberMarks : Reader Unit := do
  if ← hasTypes then
    let _ ← accept "?"
    takeIf (← atMark "!")

/-- Reads the value of a property, if it has one. -/
def propertyValue (g : Grammar) : Reader (List Tree) := do
  singleIf (← accept "=") (inside (fun _ => {}) (g.read .assignment))

/-- Reads a member of a class behind its decorators and modifiers. -/
def namedMember (g : Grammar) (start : Nat) (marks : List Tree) : Reader Tree := do
  let marked := (← atAccessor "get") || (← atAccessor "set") || (← atModifier ["async"])
  takeIf marked
  let generator ← accept "*"
  let isConstructor :=
    match (← peek).kind with
    | .word name _ => name == "constructor"
    | .string name => name == "constructor"
    | _ => false
  let key ← propertyName g
  skipMemberMarks
  if isConstructor && (← atMark "(") then
    branchFrom .method start (key ++ (← constructorParts g))
  else if marked || generator || (← atMark "(") || ((← hasTypes) && (← atMark "<")) then
    let function ← function g generator marks
    branchFrom .method start (key ++ [function])
  else
    let type ← colonType g
    let value ← propertyValue g
    endStatement
    branchFrom .classProperty start (key ++ value ++ type ++ marks)

/-- Reads a member of a class behind its decorators. -/
def undecoratedMember (g : Grammar) (start : Nat) (marks : List Tree) : Reader Tree := do
  let second ← peekSecond
  if (← atWord "static") && second.kind.isMark "\x7b" then
    take
    let body ← functionBody g false
    branchFrom .staticBlock start [body]
  else
    skipModifiers (memberModifiers (← hasTypes)) g.fuel
    classIndexSignature g start <|> namedMember g start marks

/-- Reads a member of a class. -/
def classMember (g : Grammar) : Reader Tree := do
  let start ← here
  if ← accept ";" then
    return .anchored .classMember start (← leafFrom .empty start)
  else
    let marks ← decorators g
    return .anchored .classMember start (← undecoratedMember g start marks)

/-! ## Whole classes -/

/-- Passes over the parents that are named behind the first one. -/
def skipParents (g : Grammar) (first : List Tree) : Reader Unit := do
  if ← acceptIf ((← hasTypes) && !first.isEmpty) "," then
    let _ ← commaSeparated (heritage g) g.fuel

/-- Reads a class behind its name.  A class has one parent; others that are
named behind it are passed over. -/
def classParts (g : Grammar) (marks : List Tree) : Reader (List Tree) := do
  let generics ← typeParameters g
  let first ← parentClause g
  skipParents g first
  let _ ← parentClause g
  let interfaces ← interfaceClauses g g.fuel
  let last ← (if ← hasTypes then parentClause g else pure [])
  let parent := if first.isEmpty then last else first
  expect "\x7b"
  let members ← inside (fun _ => {}) (itemsUntil "\x7d" (classMember g) g.fuel)
  return marks ++ members ++ parent.take 1 ++ generics ++ parent.drop 1 ++ interfaces

/-- Whether the next token names a class. -/
def atClassName : Reader Bool := do
  let second ← peekSecond
  let opensBody := second.kind.isMark "\x7b" || second.kind.isMark "<" ||
    second.kind.isKeyword "extends" || second.kind.isKeyword "implements"
  return (← peek).kind.isName && (!(← atWord "implements") || opensBody)

/-- Takes the words that open a class. -/
def classKeyword : Reader Unit := do
  takeIf ((← hasTypes) && (← atWord "abstract"))
  expectWord "class"

/-- Reads a class as an expression, or as what a module exports by default,
where its name is optional. -/
def anonymousClass (g : Grammar) (start : Nat) (marks : List Tree) : Reader Tree := do
  classKeyword
  let name ← singleIf (← atClassName) (nameAs .className)
  let parts ← classParts g marks
  branchFrom .classExpression start (name ++ parts)

/-- Reads a class declaration. -/
def classDeclaration (g : Grammar) (marks : List Tree) : Reader Tree := do
  classKeyword
  let id ← variableName
  return .declaration .classValue id (← classParts g marks)

/-- Whether the next tokens open a class declaration. -/
def atClass : Reader Bool := do
  let second ← peekSecond
  return (← atWord "class") ||
    ((← hasTypes) && (← atWord "abstract") && second.kind.isKeyword "class" &&
      !second.newlineBefore)

end SdkMigration.Grammar
