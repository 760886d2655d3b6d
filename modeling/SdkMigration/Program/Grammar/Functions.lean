import SdkMigration.Program.Grammar.Patterns

/-!
# Functions

Parameters, bodies and decorators: the parts that functions, methods and
classes share.
-/

namespace SdkMigration.Grammar

open Reader

/-! ## Blocks -/

/-- Reads a block of statements. -/
def block (g : Grammar) : Reader Tree := do
  let start ← here
  expect "\x7b"
  let statements ← itemsUntil "\x7d" (g.read .statement) g.fuel
  branchFrom .block start statements

/-- Reads the body of a function. -/
def functionBody (g : Grammar) (generator : Bool) : Reader Tree :=
  inside (fun _ => { generator := generator }) (block g)

/-! ## Arguments and decorators -/

/-- Reads an argument of a call or an element of an array. -/
def argument (g : Grammar) : Reader Tree := do
  let start ← here
  if ← accept "..." then
    let inner ← g.read .assignment
    branchFrom .spread start [inner]
  else
    g.read .assignment

/-- Reads the arguments of a call. -/
def callArguments (g : Grammar) : Reader (List Tree) := do
  expect "("
  bracketed (commaItems ")" (argument g) g.fuel)

/-- Reads the dotted name of a decorator. -/
def decoratorName (start : Nat) (object : Tree) : Nat → Reader Tree
  | 0 => failure
  | fuel + 1 => do
    if ← accept "." then
      let property ← anyName
      let span ← spanFrom start
      decoratorName start (expressionAt start (.member span object false property)) fuel
    else
      return object

/-- Reads the call that is made of a decorator's name, if there is one. -/
def decoratorCall (g : Grammar) (start : Nat) (name : Tree) : Reader Tree := do
  let generics ← (if (← hasTypes) && (← atMark "<") then typeArguments g else pure [])
  if ← atMark "(" then
    let arguments ← callArguments g
    return expressionAt start (.call (← spanFrom start) name arguments generics)
  else
    return name

/-- Reads the expression of a decorator. -/
def decoratorExpression (g : Grammar) : Reader Tree := do
  let start ← here
  if ← atMark "(" then
    take
    let expression ← bracketed (g.read .assignment)
    expect ")"
    let wrapped ← branchFrom .parenthesized start [expression]
    decoratorCall g start (expressionAt start wrapped)
  else
    let first ← anyName
    let name ← decoratorName start (expressionAt start (.identifier .reference first)) g.fuel
    decoratorCall g start name

/-- Reads a decorator. -/
def decorator (g : Grammar) : Reader Tree := do
  let start ← here
  expect "@"
  branchFrom .decorator start [← decoratorExpression g]

/-- Reads the decorators before a declaration. -/
def decorators (g : Grammar) : Reader (List Tree) :=
  itemsWhile (atMark "@") (decorator g) g.fuel

/-! ## Parameters -/

/-- The words that turn a parameter of a constructor into a property. -/
def parameterModifiers : List String :=
  ["public", "private", "protected", "readonly", "override"]

/-- Reads what a parameter binds. -/
def parameterName (g : Grammar) : Reader Tree := do
  if (← hasTypes) && (← atWord "this") then
    return .binding (← anyName) []
  else
    g.read .pattern

/-- Reads a parameter without its decorators. -/
def plainParameter (g : Grammar) : Reader Tree := do
  let start ← here
  if ← accept "..." then
    let inner ← parameterName g
    let rest ← branchFrom .rest start (inner :: (← colonType g))
    withDefault g start rest
  else
    let inner ← parameterName g
    let _ ← acceptIf (← hasTypes) "?"
    let annotated := inner.annotate (← colonType g)
    withDefault g start annotated

/-- Whether a token opens a pattern in brackets or braces. -/
def opensPattern (kind : TokenKind) : Bool := kind.isMark "[" || kind.isMark "\x7b"

/-- Takes the modifiers of a parameter. -/
def skipParameterModifiers (g : Grammar) : Reader Unit := do
  if ← hasTypes then
    let second ← peekSecond
    unless opensPattern second.kind do
      skipModifiers parameterModifiers g.fuel

/-- Reads a parameter of a function. -/
def parameter (g : Grammar) : Reader Tree := do
  let start ← here
  let marks ← decorators g
  skipParameterModifiers g
  let inner ← plainParameter g
  if marks.isEmpty then
    return inner
  else
    branchFrom .parameter start (marks ++ [inner])

/-- Reads the parameters of a function. -/
def parameters (g : Grammar) : Reader (List Tree) := do
  expect "("
  bracketed (commaItems ")" (parameter g) g.fuel)

/-! ## Functions without their names -/

/-- Reads the body of a function.  In a dialect with types it may be
missing. -/
def bodyOrEnd (g : Grammar) (generator : Bool) : Reader (List Tree) := do
  if (← hasTypes) && !(← atMark "\x7b") then
    endStatement
    return []
  else
    single (functionBody g generator)

/-- Reads the rest of a function from its type parameters on. -/
def function (g : Grammar) (generator : Bool) (marks : List Tree) : Reader Tree := do
  let start ← here
  let generics ← typeParameters g
  let inputs ← inside (fun _ => { generator := generator }) (parameters g)
  let result ← resultType g
  let body ← bodyOrEnd g generator
  branchFrom .function start (inputs ++ marks ++ body ++ generics ++ result)

/-- Whether the next tokens are the words `async function`. -/
def atAsyncFunction : Reader Bool := do
  let second ← peekSecond
  return (← atWord "async") && second.kind.isKeyword "function" && !second.newlineBefore

/-- Takes `function`, with `async` before it and a star behind it if they are
there, and tells whether the star is. -/
def functionHead : Reader Bool := do
  takeIf (← atAsyncFunction)
  expectWord "function"
  accept "*"

end SdkMigration.Grammar
