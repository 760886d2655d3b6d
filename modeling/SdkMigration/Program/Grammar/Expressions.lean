import SdkMigration.Program.Grammar.Classes
import SdkMigration.Program.Grammar.Markup

/-!
# Expressions

Every expression is wrapped in an anchor at the place where it starts.
Arrow functions, generic calls and type assertions begin like other
expressions; they are tried first and given up when their own mark does not
follow.
-/

namespace SdkMigration.Grammar

open Reader

/-! ## Making expressions -/

/-- An expression with parts, ending with the last token taken. -/
def expressionFrom (kind : BranchKind) (start : Nat) (children : List Tree) : Reader Tree := do
  return expressionAt start (← branchFrom kind start children)

/-- An expression without parts, ending with the last token taken. -/
def leafExpression (kind : LeafKind) (start : Nat) : Reader Tree := do
  return expressionAt start (← leafFrom kind start)

/-- Reads expressions separated by commas. -/
def expression (g : Grammar) : Reader Tree := do
  let start ← here
  let first ← g.read .assignment
  if ← atMark "," then
    let others ← itemsWhile (accept ",") (g.read .assignment) g.fuel
    expressionFrom .sequence start (first :: others)
  else
    return first

/-! ## Literals and objects -/

/-- Reads an array behind its opening bracket. -/
def arrayItems (g : Grammar) : Nat → Reader (List Tree)
  | 0 => failure
  | fuel + 1 => do
    if ← accept "]" then
      return []
    else if ← accept "," then
      arrayItems g fuel
    else
      let first ← argument g
      separator "]"
      return first :: (← arrayItems g fuel)

/-- Reads an entry of an object. -/
def property (g : Grammar) : Reader Tree := do
  let start ← here
  let inner ← entry start
  return .anchored .property start inner
where
  /-- The entry without its anchor. -/
  entry (start : Nat) : Reader Tree := do
    if ← accept "..." then
      let inner ← g.read .assignment
      branchFrom .spread start [inner]
    else if ← atAccessor "get" then
      take
      let key ← propertyName g
      let _ ← parameters g
      let result ← colonType g
      let body ← functionBody g false
      branchFrom .accessor start (key ++ result ++ [body])
    else if ← atAccessor "set" then
      take
      let key ← propertyName g
      let inputs ← parameters g
      let _ ← colonType g
      let body ← functionBody g false
      branchFrom .accessor start (key ++ inputs ++ [body])
    else
      let asynchronous ← atModifier ["async"]
      takeIf asynchronous
      let generator ← accept "*"
      if asynchronous || generator then
        method start (← propertyName g) generator
      else
        shorthand start <|> keyed start
  /-- A name that is key and value at once. -/
  shorthand (start : Nat) : Reader Tree := do
    let id ← variableName
    let reference := Tree.identifier .reference id
    if ← accept "=" then
      let value ← g.read .assignment
      branchFrom .assignProperty start [reference, value]
    else
      require ((← atMark ",") || (← atMark "\x7d"))
      return reference
  /-- A key with a value or a method behind it. -/
  keyed (start : Nat) : Reader Tree := do
    let key ← propertyName g
    if ← accept ":" then
      let value ← g.read .assignment
      branchFrom .keyValue start (key ++ [value])
    else
      method start key false
  /-- A method behind its key. -/
  method (start : Nat) (key : List Tree) (generator : Bool) : Reader Tree := do
    let function ← function g generator []
    branchFrom .method start (key ++ [function])

/-- Reads an object. -/
def object (g : Grammar) : Reader Tree := do
  let start ← here
  expect "\x7b"
  let entries ← bracketed (commaItems "\x7d" (property g) g.fuel)
  expressionFrom .object start entries

/-! ## Functions -/

/-- Reads a function as an expression. -/
def functionExpression (g : Grammar) : Reader Tree := do
  let start ← here
  let generator ← functionHead
  let name ← singleIf (← peek).kind.isName (nameAs .functionName)
  let function ← function g generator []
  expressionFrom .functionExpression start (name ++ [function])

/-- Reads an arrow and the body behind it. -/
def arrowBody (g : Grammar) : Reader Tree := do
  require !(← atNewline)
  expect "=>"
  if ← atMark "\x7b" then
    functionBody g false
  else
    inside (fun outer => { outer with generator := false }) (g.read .assignment)

/-- Where a colon has to follow an arrow function with a result type, fails if
none does. -/
def requireColon (result : List Tree) : Reader Unit := do
  if !result.isEmpty && (← surroundings).colonAfterArrow then
    require (← atMark ":")

/-- Reads an arrow function whose parameters stand in brackets. -/
def bracketedArrow (g : Grammar) (start : Nat) : Reader Tree := do
  let generics ← typeParameters g
  let inputs ← parameters g
  let result ← resultType g
  let body ← arrowBody g
  requireColon result
  expressionFrom .arrow start (inputs ++ body :: generics ++ result)

/-- Reads an arrow function with one bare parameter. -/
def bareArrow (g : Grammar) (start : Nat) : Reader Tree := do
  let id ← variableName
  let body ← arrowBody g
  expressionFrom .arrow start [.binding id [], body]

/-- Reads an arrow function behind the word `async`, which is read first. -/
def asyncArrow (g : Grammar) (start : Nat) : Reader Tree := do
  expectWord "async"
  require !(← atNewline)
  bracketedArrow g start <|> bareArrow g start

/-- Reads an arrow function. -/
def arrow (g : Grammar) : Reader Tree := do
  let start ← here
  let second ← peekSecond
  if (← peek).kind.isWord then
    (do require (second.kind.isMark "=>"); bareArrow g start) <|> asyncArrow g start
  else
    bracketedArrow g start

/-- Whether the parameters of an arrow function may start with a token: the
brackets that it opens have to be followed by the arrow or by a type. -/
def opensParameters (g : Grammar) (types : Bool) (token : Token) : Bool :=
  match token.behindBrackets g.fuel with
  | some next => next.kind.isMark "=>" || (types && next.kind.isMark ":")
  | none => false

/-- Whether an arrow function may start with the next token. -/
def atArrow (g : Grammar) : Reader Bool := do
  let types ← hasTypes
  let token ← peek
  match token.kind with
  | .mark "(" => return opensParameters g types token
  | .mark "<" => return types
  | .word name escaped =>
    let second ← peekSecond
    let asynchronous := name == "async" && !escaped && !second.newlineBefore
    return second.kind.isMark "=>" ||
      (asynchronous &&
        (second.kind.isName || (types && second.kind.isMark "<") ||
          opensParameters g types second))
  | _ => return false

/-! ## Primary expressions -/

/-- Reads a template. -/
def template (g : Grammar) (tagged : Bool) : Reader (List Tree) :=
  templateParts tagged (expression g) g.fuel

/-- Reads `super` with the access or the call behind it. -/
def superExpression (g : Grammar) : Reader Tree := do
  let start ← here
  expectWord "super"
  let callee ← leafFrom .superCallee start
  if ← accept "." then
    let _ ← anyName
    expressionFrom .superMember start []
  else if ← accept "[" then
    let index ← bracketed (expression g)
    expect "]"
    expressionFrom .superMember start [index]
  else
    let arguments ← callArguments g
    return expressionAt start (.call (← spanFrom start) callee arguments [])

/-- The words that ask for a module to be loaded in part only. -/
def importPhases : List String := ["source", "defer"]

/-- Reads the name behind `import` and a dot, if there is one. -/
def importProperty : Reader (Option String) := do
  if ← accept "." then
    return some (← anyName).name
  else
    return none

/-- Reads `import` as an expression: a call, in one of its phases, or the
properties of the module. -/
def importExpression (g : Grammar) : Reader Tree := do
  let start ← here
  expectWord "import"
  let callee ← leafFrom .importCallee start
  let property ← importProperty
  if property == some "meta" then
    leafExpression .keyword start
  else
    require (property.all importPhases.contains)
    let arguments ← callArguments g
    return expressionAt start (.call (← spanFrom start) callee arguments [])

/-- Reads an expression that starts with a word. -/
def wordExpression (g : Grammar) (name : String) : Reader Tree := do
  let start ← here
  if (name == "function") || (← atAsyncFunction) then
    functionExpression g
  else if name == "class" then
    return expressionAt start (← anonymousClass g start [])
  else if name == "super" then
    superExpression g
  else if name == "import" then
    importExpression g
  else if name == "this" then
    take
    leafExpression .keyword start
  else if name == "null" || name == "true" || name == "false" then
    take
    leafExpression .literal start
  else
    return expressionAt start (.identifier .reference (← variableName))

/-- Reads an expression that no operator and no access is part of. -/
def primary (g : Grammar) : Reader Tree := do
  let token ← peek
  let start := token.start
  match token.kind with
  | .word name escaped =>
    if escaped then
      return expressionAt start (.identifier .reference (← variableName))
    else
      wordExpression g name
  | .string _ => return expressionAt start (← stringLiteral)
  | .number =>
    take
    leafExpression .literal start
  | .privateName _ =>
    take
    leafExpression .privateName start
  | .template _ _ =>
    let parts ← template g false
    expressionFrom .template start parts
  | .mark "(" =>
    take
    let inner ← bracketed (expression g)
    expect ")"
    expressionFrom .parenthesized start [inner]
  | .mark "[" =>
    take
    let items ← bracketed (arrayItems g g.fuel)
    expressionFrom .array start items
  | .mark "\x7b" => object g
  | .mark "/" | .mark "/=" =>
    reread Token.rescanPattern
    require ((← peek).kind == .pattern)
    take
    leafExpression .literal start
  | .mark "@" =>
    let marks ← decorators g
    return expressionAt start (← anonymousClass g start marks)
  | .mark "<" =>
    require (← get).dialect.markup
    return expressionAt start (← g.read .markup)
  | _ => failure

/-! ## Accesses and calls -/

/-- The marks of the binary operators with their levels, the loosest first. -/
def operatorLevels : List (String × Nat) :=
  [("??", 1), ("||", 1), ("&&", 2), ("|", 3), ("^", 4), ("&", 5), ("==", 6), ("!=", 6),
    ("===", 6), ("!==", 6), ("<", 7), (">", 7), ("<=", 7), (">=", 7), ("<<", 8), (">>", 8),
    (">>>", 8), ("+", 9), ("-", 9), ("*", 10), ("/", 10), ("%", 10), ("**", 11)]

/-- The level of the operators that are words. -/
def wordLevel : Nat := 7

/-- Whether a token is the mark of a binary operator. -/
def isOperator (kind : TokenKind) : Bool :=
  match kind with
  | .mark mark => (operatorLevels.lookup mark).isSome
  | .word name escaped =>
    !escaped && (name == "in" || name == "instanceof" || name == "as" || name == "satisfies")
  | _ => false

/-- Whether an expression can start with a token. -/
def startsExpression (kind : TokenKind) : Bool :=
  match kind with
  | .word name escaped =>
    escaped || !reservedWords.contains name ||
      ["class", "delete", "false", "function", "import", "new", "null", "super", "this", "true",
        "typeof", "void"].contains name
  | .privateName _ | .string _ | .number | .template _ _ | .pattern => true
  | .mark mark =>
    ["(", "[", "\x7b", "+", "-", "++", "--", "!", "~", "/", "/=", "<", "@"].contains mark
  | _ => false

/-- Whether type arguments may end an expression before the next token. -/
def endsInstantiation : Reader Bool := do
  let next ← peek
  let excluded := next.kind.isMark "<" || next.kind.isMark ">" || next.kind.isMark "+" ||
    next.kind.isMark "-"
  return !excluded &&
    (next.newlineBefore || isOperator next.kind || !startsExpression next.kind)

/-- Reads type arguments behind an expression, if that is what stands there. -/
def genericArguments (g : Grammar) : Reader (List Tree) := do
  let generics ← typeArguments g
  let template := (← peek).kind matches .template _ _
  require ((← atMark "(") || template || (← endsInstantiation))
  return generics

/-- Reads what type arguments belong to: a call, a template, or nothing. -/
def genericSuffix (g : Grammar) (start : Nat) (callee : Tree) (generics : List Tree) :
    Reader Tree := do
  if ← atMark "(" then
    let arguments ← callArguments g
    return expressionAt start (.call (← spanFrom start) callee arguments generics)
  else
    match (← peek).kind with
    | .template _ _ =>
      let parts ← template g true
      expressionFrom .taggedTemplate start (callee :: generics ++ parts)
    | _ => expressionFrom .instantiation start (callee :: generics)

/-- Reads an access behind its dot. -/
def dotSuffix (start : Nat) (target : Tree) (optional : Bool) : Reader Tree := do
  match (← peek).kind with
  | .privateName _ =>
    take
    expressionFrom .privateMember start [target]
  | _ =>
    let property ← anyName
    return expressionAt start (.member (← spanFrom start) target optional property)

/-- Reads an access in brackets behind the opening one. -/
def bracketSuffix (g : Grammar) (start : Nat) (target : Tree) : Reader Tree := do
  let index ← bracketed (expression g)
  expect "]"
  expressionFrom .element start [target, index]

/-- Reads what stands behind the mark of an optional access. -/
def optionalSuffix (g : Grammar) (start : Nat) (target : Tree) : Reader Tree := do
  if ← accept "[" then
    bracketSuffix g start target
  else if (← atMark "(") || (← atMark "<") then
    let generics ← (if ← atMark "<" then typeArguments g else pure [])
    let arguments ← callArguments g
    return expressionAt start (.call (← spanFrom start) target arguments generics)
  else
    dotSuffix start target true

/-- Reads the accesses and calls behind an expression; without `calls`, only
what may stand between `new` and its arguments. -/
def suffixes (g : Grammar) (start : Nat) (calls : Bool) (target : Tree) : Nat → Reader Tree
  | 0 => failure
  | fuel + 1 => do
    let token ← peek
    match token.kind with
    | .mark "." =>
      take
      suffixes g start calls (← dotSuffix start target false) fuel
    | .mark "[" =>
      take
      suffixes g start calls (← bracketSuffix g start target) fuel
    | .mark "?." =>
      require calls
      take
      suffixes g start calls (← optionalSuffix g start target) fuel
    | .mark "(" =>
      if calls then
        let arguments ← callArguments g
        let call := expressionAt start (.call (← spanFrom start) target arguments [])
        suffixes g start calls call fuel
      else
        return target
    | .mark "!" =>
      if (← hasTypes) && !token.newlineBefore then
        take
        suffixes g start calls (← expressionFrom .nonNull start [target]) fuel
      else
        return target
    | .template _ _ =>
      let parts ← template g true
      suffixes g start calls (← expressionFrom .taggedTemplate start (target :: parts)) fuel
    | .mark mark =>
      if calls && (← hasTypes) && (mark == "<" || mark == "<<") then
        match ← optional (genericArguments g) with
        | some generics =>
          suffixes g start calls (← genericSuffix g start target generics) fuel
        | none => return target
      else
        return target
    | _ => return target

/-- Reads the type arguments of what is constructed. -/
def constructedArguments (g : Grammar) : Reader (List Tree) := do
  let generics ← typeArguments g
  require ((← atMark "(") || (← endsInstantiation))
  return generics

/-- Reads `new` with what is constructed. -/
def newExpression (g : Grammar) : Reader Tree := do
  let start ← here
  expectWord "new"
  if ← accept "." then
    expectWord "target"
    leafExpression .keyword start
  else
    let callee ← g.read .newCallee
    let generics ← (if ← hasTypes then constructedArguments g <|> pure [] else pure [])
    let arguments ← (if ← atMark "(" then callArguments g else pure [])
    expressionFrom .new start (callee :: arguments ++ generics)

/-- Reads what stands between `new` and its arguments. -/
def newCallee (g : Grammar) : Reader Tree := do
  let start ← here
  let first ← (if ← atWord "new" then newExpression g else primary g)
  suffixes g start false first g.fuel

/-- Reads an expression with its accesses and calls. -/
def leftHandSide (g : Grammar) : Reader Tree := do
  let start ← here
  let first ← (if ← atWord "new" then newExpression g else primary g)
  suffixes g start true first g.fuel

/-! ## Operators -/

/-- Whether a token is the mark that raises or lowers by one. -/
def isStep (kind : TokenKind) : Bool := kind.isMark "++" || kind.isMark "--"

/-- Reads an expression with what may be written behind it. -/
def stepped (g : Grammar) : Reader Tree := do
  let start ← here
  let inner ← g.read .leftHandSide
  if isStep (← peek).kind && !(← atNewline) then
    take
    expressionFrom .update start [inner]
  else
    return inner

/-- Whether a token is an operator before its operand. -/
def isUnaryOperator (kind : TokenKind) : Bool :=
  match kind with
  | .mark mark => mark == "!" || mark == "~" || mark == "+" || mark == "-"
  | .word name escaped => !escaped && (name == "typeof" || name == "void" || name == "delete")
  | _ => false

/-- Reads an expression behind `await`, which is read first. -/
def awaited (g : Grammar) (start : Nat) : Reader Tree := do
  take
  let inner ← g.read .unary
  expressionFrom .await start [inner]

/-- Reads an expression with the operators before it. -/
def unary (g : Grammar) : Reader Tree := do
  let start ← here
  let kind := (← peek).kind
  if isUnaryOperator kind then
    take
    let inner ← g.read .unary
    expressionFrom .unary start [inner]
  else if isStep kind then
    take
    let inner ← g.read .unary
    expressionFrom .update start [inner]
  else if kind.isKeyword "await" then
    awaited g start <|> stepped g
  else if (← hasTypes) && kind.isMark "<" && !(← get).dialect.markup then
    require (← acceptFirst '<')
    let type ← singleIf (!(← acceptWord "const")) (bracketed (g.read .type))
    require (← acceptFirst '>')
    let inner ← g.read .unary
    expressionFrom .typeAssertion start (inner :: type)
  else
    stepped g

/-- The kind of branch that a binary operator makes. -/
def operatorKind (mark : String) : BranchKind :=
  if mark == "||" || mark == "&&" then .logical
  else if mark == "??" then .coalesce
  else .binary

/-- The binary operator that comes next, with its level. -/
def nextOperator : Reader (Option (BranchKind × Nat)) := do
  let token ← peek
  match token.kind with
  | .mark mark => return (operatorLevels.lookup mark).map (operatorKind mark, ·)
  | .word name false =>
    if name == "instanceof" || (name == "in" && !(← surroundings).noIn) then
      return some (.binary, wordLevel)
    else if (name == "as" || name == "satisfies") && (← hasTypes) && !token.newlineBefore then
      return some (.typeCast, wordLevel)
    else
      return none
  | _ => return none

/-- The level of the power. -/
def powerLevel : Nat := 11

/-- The level from which the operators of the right operand have to be: those
of the level above, or of the same one for the power, which associates to the
right. -/
def rightLevel (level : Nat) : Nat := if level == powerLevel then level else level + 1

/-- Whether an expression has an operator before it, which the base of a power
must not have. -/
def hasOperatorBefore (expression : Tree) : Bool :=
  match expression.core with
  | .branch .unary _ _ | .branch .await _ _ => true
  | _ => false

/-- Reads an operand and, by `more`, the operators behind it that bind it. -/
def operand (g : Grammar) (more : Nat → Tree → Reader Tree) : Reader Tree := do
  let start ← here
  more start (← g.read .unary)

/-- Reads the operators of at least a level behind their left operand. -/
def operators (g : Grammar) (start level : Nat) (left : Tree) : Nat → Reader Tree
  | 0 => failure
  | fuel + 1 => do
    match ← nextOperator with
    | none => return left
    | some (kind, found) =>
      if found < level then
        return left
      else
        require !(found == powerLevel && hasOperatorBefore left)
        take
        let cast := kind == .typeCast
        let constant ← (if cast then acceptWord "const" else pure false)
        let right ← singleIf (!constant)
          (if cast then g.read .type
          else operand g fun start first => operators g start (rightLevel found) first fuel)
        operators g start level (← expressionFrom kind start (left :: right)) fuel

/-- Whether a binary operator comes next where its left operand is missing. -/
def atLoneOperator : Reader Bool := do
  let state ← get
  let kind := state.token.kind
  let opensElement := state.dialect.types || state.dialect.markup
  return isOperator kind && !(kind.isKeyword "in" && state.surroundings.noIn) &&
    (!startsExpression kind || (kind.isMark "<" && !opensElement))

/-- Reads binary operators and their operands.  The first operand may be
missing. -/
def binary (g : Grammar) : Reader Tree := do
  let start ← here
  let first ← (if ← atLoneOperator then leafExpression .empty start else g.read .unary)
  operators g start 0 first g.fuel

/-- Reads an expression with a condition and its two outcomes, if a question
mark follows. -/
def conditional (g : Grammar) : Reader Tree := do
  let start ← here
  let test ← binary g
  if ← accept "?" then
    let yes ← inside
      (fun outer => { generator := outer.generator, colonAfterArrow := true })
      (g.read .assignment)
    expect ":"
    let no ← g.read .assignment
    expressionFrom .conditional start [test, yes, no]
  else
    return test

/-! ## Assignments -/

/-- The marks that assign the result of an operator. -/
def compoundAssignments : List String :=
  ["+=", "-=", "*=", "/=", "%=", "**=", "<<=", ">>=", ">>>=", "&=", "|=", "^=", "&&=", "||=",
    "??="]

/-- Whether an expression was written in brackets or braces, as a
destructuring target is. -/
def isDestructurable (expression : Tree) : Bool :=
  match expression.core with
  | .branch .array _ _ | .branch .object _ _ => true
  | _ => false

/-- Reads the operand of `yield`. -/
def yieldOperand (g : Grammar) : Reader (List Tree) := do
  require !(← atNewline)
  require ((← accept "*") || startsExpression (← peek).kind)
  single (g.read .assignment)

/-- Reads `yield` with its operand, if there is one. -/
def yieldExpression (g : Grammar) : Reader Tree := do
  let start ← here
  expectWord "yield"
  expressionFrom .yield start (← yieldOperand g <|> pure [])

/-- Makes a target of what was read as an expression, which `before` is the state
in front of.  Brackets and braces are read again. -/
def assignmentTarget (g : Grammar) (before : ReaderState) (left : Tree) : Reader Tree := do
  if isDestructurable left then
    set before
    g.read .target
  else
    match asTarget? left with
    | some target => return target
    | none => failure

/-- Reads an expression that is no arrow function, with the assignment it may
be the target of. -/
def plainAssignment (g : Grammar) : Reader Tree := do
  let start ← here
  let before ← get
  let left ← conditional g
  match (← peek).kind with
  | .mark "=" =>
    let target ← assignmentTarget g before left
    expect "="
    let value ← g.read .assignment
    expressionFrom .assign start [target, value]
  | .mark mark =>
    if compoundAssignments.contains mark then
      match asTarget? left with
      | some target =>
        take
        let value ← g.read .assignment
        expressionFrom .assign start [target, value]
      | none => failure
    else
      return left
  | _ => return left

/-- Reads an expression up to the next comma. -/
def assignment (g : Grammar) : Reader Tree := do
  if (← surroundings).generator && (← atWord "yield") then
    yieldExpression g
  else if ← atArrow g then
    arrow g <|> plainAssignment g
  else
    plainAssignment g

end SdkMigration.Grammar
