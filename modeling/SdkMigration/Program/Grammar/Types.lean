import SdkMigration.Program.Grammar.Lookahead

/-!
# Types

Type annotations, type parameters and the types themselves.  A type is read
only where the dialect has types; elsewhere the optional parts are empty and
the tokens that would introduce them are left to the productions that use
them otherwise.
-/

namespace SdkMigration.Grammar

open Reader

/-! ## Parts shared with expressions -/

/-- Reads the type after a colon, if the dialect has types and a colon comes
next. -/
def colonType (g : Grammar) : Reader (List Tree) := do
  singleIf (← acceptIf (← hasTypes) ":") (g.read .type)

/-- Takes the comma between two items in angle brackets. -/
def angleSeparator : Reader Unit := do
  unless (← peek).kind.isMarkFrom '>' do
    expect ","

/-- Reads items between angle brackets.  The closing bracket may be the first
character of a longer mark. -/
def angleItems (item : Reader Tree) : Nat → Reader (List Tree)
  | 0 => failure
  | fuel + 1 => do
    if ← acceptFirst '>' then
      return []
    else
      let first ← item
      angleSeparator
      let others ← angleItems item fuel
      return first :: others

/-- Reads type arguments from their opening bracket. -/
def typeArguments (g : Grammar) : Reader (List Tree) := do
  require (← acceptFirst '<')
  angleItems (bracketed (g.read .type)) g.fuel

/-- Reads type arguments on the line of the name they belong to, if there are
any. -/
def typeArgumentsOfName (g : Grammar) : Reader (List Tree) := do
  if (← peek).kind.isMarkFrom '<' && !(← atNewline) then
    typeArguments g
  else
    return []

/-- Whether the next token is a modifier, that is, one of the words with a
name behind it. -/
def atModifier (words : List String) : Reader Bool := do
  match (← peek).kind with
  | .word name false =>
    if words.contains name then
      let second ← peekSecond
      return !second.newlineBefore &&
        (second.kind.startsPropertyName || second.kind.isMark "\x7b" || second.kind.isMark "*" ||
          second.kind.isMark "...")
    else
      return false
  | _ => return false

/-- Whether the next token is the given word before the name of an accessor. -/
def atAccessor (word : String) : Reader Bool := do
  let second ← peekSecond
  return (← atWord word) && second.kind.startsPropertyName

/-- Takes modifiers as long as there are any. -/
def skipModifiers (words : List String) : Nat → Reader Unit
  | 0 => failure
  | fuel + 1 => do
    if ← atModifier words then
      take
      skipModifiers words fuel

/-- Reads a type parameter with its bound and its default. -/
def typeParameter (g : Grammar) : Reader Tree := do
  let start ← here
  skipModifiers ["const", "in", "out"] g.fuel
  let id ← anyName
  let bound ← singleIf (← acceptWord "extends") (g.read .type)
  let default ← singleIf (← accept "=") (g.read .type)
  branchFrom .typeParameter start (.identifier .typeParameter id :: bound ++ default)

/-- Reads type parameters, if the dialect has types and there are any. -/
def typeParameters (g : Grammar) : Reader (List Tree) := do
  if (← hasTypes) && (← atMark "<") then
    require (← acceptFirst '<')
    angleItems (typeParameter g) g.fuel
  else
    return []

/-- Reads a dotted name. -/
def dottedName (g : Grammar) : Reader Tree := do
  let first ← anyName
  let rec more (start : Nat) (left : Tree) : Nat → Reader Tree
    | 0 => failure
    | fuel + 1 => do
      if ← accept "." then
        let right ← anyName
        more start (.qualified (← spanFrom start) left right) fuel
      else
        return left
  more first.span.start (.identifier .reference first) g.fuel

/-- Reads the type behind the word `is`. -/
def statedType (g : Grammar) : Reader Tree := do
  expectWord "is"
  g.read .type

/-- Reads a type, or a statement about a parameter such as `x is T` or
`asserts x`. -/
def typeOrPredicate (g : Grammar) : Reader Tree := do
  let start ← here
  let second ← peekSecond
  let asserts := (← atWord "asserts") && second.kind.isName && !second.newlineBefore
  takeIf asserts
  let third ← peekSecond
  let tells := ((← peek).kind.isName || (← atWord "this")) && third.kind.isKeyword "is" &&
    !third.newlineBefore
  if asserts || tells then
    let id ← anyName
    let type ← singleIf tells (statedType g)
    branchFrom .typePredicate start (.identifier .reference id :: type)
  else if (← atWord "asserts") && second.kind.isKeyword "this" && !second.newlineBefore then
    take
    take
    let type ← singleIf (← acceptWord "is") (g.read .type)
    branchFrom .typePredicate start type
  else
    g.read .type

/-- Reads the result type after a colon, if there is one. -/
def resultType (g : Grammar) : Reader (List Tree) := do
  singleIf (← acceptIf (← hasTypes) ":") (typeOrPredicate g)

/-! ## Parameters of function types -/

/-- Reads what a parameter of a function type binds. -/
def typedName (g : Grammar) : Reader Tree := do
  if ← atWord "this" then
    return .binding (← anyName) []
  else
    g.read .pattern

/-- Reads a parameter of a function type. -/
def typedParameter (g : Grammar) : Reader Tree := do
  let start ← here
  if ← accept "..." then
    let inner ← typedName g
    branchFrom .rest start (inner :: (← colonType g))
  else
    let inner ← typedName g
    let _ ← accept "?"
    return inner.annotate (← colonType g)

/-- Reads the parameters of a function type. -/
def typedParameters (g : Grammar) : Reader Tree := do
  let start ← here
  expect "("
  let items ← bracketed (commaItems ")" (typedParameter g) g.fuel)
  branchFrom .parameters start items

/-! ## Members of object types -/

/-- Takes the end of a member: a semicolon, a comma, a line end, or nothing
before the closing brace. -/
def endTypeMember : Reader Unit := do
  unless ← accept ";" do
    unless ← accept "," do
      require ((← atNewline) || (← atMark "\x7d"))

/-- Reads the key of a member.  A plain key counts as an expression. -/
def typeMemberKey (g : Grammar) : Reader Tree := do
  let token ← peek
  match token.kind with
  | .word _ _ => return expressionAt token.start (.identifier .reference (← anyName))
  | .string _ => return expressionAt token.start (← stringLiteral)
  | .number =>
    take
    return expressionAt token.start (← leafFrom .literal token.start)
  | _ =>
    expect "["
    let key ← bracketed (g.read .assignment)
    expect "]"
    return key

/-- Reads an index signature behind its modifiers. -/
def indexSignature (g : Grammar) (start : Nat) : Reader Tree := do
  expect "["
  let id ← anyName
  expect ":"
  let key ← bracketed (g.read .type)
  expect "]"
  let value ← colonType g
  branchFrom .typeMember start (.binding id [key] :: value)

/-- Reads parameters and a result: `parameters`, then the result and the type
parameters, in the order in which they are visited. -/
def signature (g : Grammar) (start : Nat) (key : List Tree) : Reader Tree := do
  let generics ← typeParameters g
  let parameters ← typedParameters g
  let result ← resultType g
  branchFrom .typeMember start (key ++ parameters :: result ++ generics)

/-- Reads a member that has a key, behind its modifiers. -/
def keyedTypeMember (g : Grammar) (start : Nat) : Reader Tree := do
  if ← atModifier ["get"] then
    take
    let key ← typeMemberKey g
    let _ ← typedParameters g
    let result ← colonType g
    branchFrom .typeMember start (key :: result)
  else if ← atModifier ["set"] then
    take
    let key ← typeMemberKey g
    let parameters ← typedParameters g
    let _ ← colonType g
    branchFrom .typeMember start [key, parameters]
  else
    let key ← typeMemberKey g
    let _ ← accept "?"
    if (← atMark "(") || (← atMark "<") then
      signature g start [key]
    else
      let type ← colonType g
      branchFrom .typeMember start (key :: type)

/-- Reads a member of an object type without its end. -/
def unendedTypeMember (g : Grammar) : Reader Tree := do
  let start ← here
  let second ← peekSecond
  if (← atMark "(") || (← atMark "<") then
    signature g start []
  else if (← atWord "new") && (second.kind.isMark "(" || second.kind.isMark "<") then
    take
    signature g start []
  else
    skipModifiers ["readonly"] g.fuel
    indexSignature g start <|> keyedTypeMember g start

/-- Reads a member of an object type. -/
def typeMember (g : Grammar) : Reader Tree := do
  let member ← unendedTypeMember g
  endTypeMember
  return member

/-- Reads the members of an object type between its braces. -/
def typeMembers (g : Grammar) : Reader (List Tree) := do
  expect "\x7b"
  bracketed (itemsUntil "\x7d" (typeMember g) g.fuel)

/-- Takes a sign before a modifier of a mapped type, and the modifier. -/
def mappedModifier (modifier : Reader Bool) : Reader Unit := do
  let adds ← accept "+"
  let removes ← acceptIf (!adds) "-"
  let found ← modifier
  require (found || !(adds || removes))

/-- Reads a mapped type up to the name that it runs over. -/
def mappedTypeHead : Reader Identifier := do
  expect "\x7b"
  mappedModifier (acceptWord "readonly")
  expect "["
  let id ← anyName
  expectWord "in"
  return id

/-- Reads a mapped type. -/
def mappedType (g : Grammar) : Reader Tree := do
  let start ← here
  let id ← mappedTypeHead
  let source ← bracketed (g.read .type)
  let name ← singleIf (← acceptWord "as") (bracketed (g.read .type))
  expect "]"
  mappedModifier (accept "?")
  let type ← colonType g
  let _ ← accept ";"
  let _ ← accept ","
  expect "\x7d"
  let parameter := .branch .typeParameter id.span [.identifier .typeParameter id, source]
  branchFrom .mappedType start (parameter :: name ++ type)

/-! ## Types proper -/

/-- Reads the label of an element of a tuple type as a binding. -/
def tupleLabel : Reader (List Tree) := do
  let id ← anyName
  let _ ← accept "?"
  expect ":"
  return [.binding id []]

/-- Reads an element of a tuple type with its label. -/
def tupleElement (g : Grammar) : Reader Tree := do
  let start ← here
  let spread ← accept "..."
  let label ← tupleLabel <|> pure []
  let type ← g.read .type
  let _ ← acceptIf (!spread) "?"
  branchFrom .tupleElement start (label ++ [type])

/-- Reads the options behind the module of an import on the spot. -/
def importTypeOptions (g : Grammar) : Reader Unit := do
  if ← accept "," then
    unless ← atMark ")" do
      let _ ← bracketed (g.read .assignment)
      let _ ← accept ","

/-- Reads the type of something imported on the spot. -/
def importType (g : Grammar) : Reader Tree := do
  let start ← here
  expectWord "import"
  expect "("
  let _ ← stringLiteral
  importTypeOptions g
  expect ")"
  let name ← singleIf (← accept ".") (dottedName g)
  let arguments ← typeArgumentsOfName g
  branchFrom .importType start (name ++ arguments)

/-- Reads the type of a value. -/
def typeQuery (g : Grammar) : Reader Tree := do
  let start ← here
  expectWord "typeof"
  let value ← (if ← atWord "import" then importType g else dottedName g)
  let arguments ← typeArgumentsOfName g
  branchFrom .typeQuery start (value :: arguments)

/-- Reads a reference to a type. -/
def typeReference (g : Grammar) : Reader Tree := do
  let start ← here
  let name ← dottedName g
  let arguments ← typeArgumentsOfName g
  return .typeReference (← spanFrom start) name arguments

/-- Reads the pieces of a template and what stands between them.  Only behind
a tag may a piece have escapes without a value. -/
def templateParts (tagged : Bool) (part : Reader Tree) : Nat → Reader (List Tree)
  | 0 => failure
  | fuel + 1 => do
    match (← peek).kind with
    | .template true valid =>
      require (tagged || valid)
      take
      return []
    | .template false valid =>
      require (tagged || valid)
      take
      let first ← bracketed part
      require (← atMark "\x7d")
      reread Token.rescanTemplate
      let others ← templateParts tagged part fuel
      return first :: others
    | _ => failure

/-- The words that are types by themselves. -/
def typeKeywords : List String :=
  ["any", "unknown", "number", "object", "boolean", "bigint", "string", "symbol", "void",
    "undefined", "null", "never", "intrinsic"]

/-- Reads a function type, or a constructor type behind its keywords. -/
def functionType (g : Grammar) (start : Nat) : Reader Tree := do
  let generics ← typeParameters g
  let parameters ← typedParameters g
  expect "=>"
  let result ← typeOrPredicate g
  branchFrom .functionType start (parameters :: generics ++ [result])

/-- Reads a type that is no operator applied to another one. -/
def primaryType (g : Grammar) : Reader Tree := do
  let token ← peek
  let start := token.start
  match token.kind with
  | .string _ => stringLiteral
  | .number =>
    take
    leafFrom .literal start
  | .template _ _ => branchFrom .templateType start (← templateParts false (g.read .type) g.fuel)
  | .word name _ =>
    let second ← peekSecond
    if name == "this" then
      take
      if (← atWord "is") && !(← atNewline) then
        take
        branchFrom .typePredicate start [← g.read .type]
      else
        leafFrom .keyword start
    else if name == "typeof" then
      typeQuery g
    else if name == "import" then
      importType g
    else if name == "true" || name == "false" then
      take
      leafFrom .literal start
    else if typeKeywords.contains name && !second.kind.isMark "." then
      take
      leafFrom .keyword start
    else
      require (!reservedWords.contains name || name == "void" || name == "null")
      typeReference g
  | .mark "-" =>
    take
    require ((← peek).kind == .number)
    take
    leafFrom .literal start
  | .mark "\x7b" =>
    if ← ahead mappedTypeHead then
      mappedType g
    else
      branchFrom .typeLiteral start (← typeMembers g)
  | .mark "[" =>
    take
    branchFrom .tupleType start (← bracketed (commaItems "]" (tupleElement g) g.fuel))
  | .mark "(" =>
    take
    let inner ← bracketed (g.read .type)
    expect ")"
    branchFrom .parenthesized start [inner]
  | _ => failure

/-- Reads the brackets behind a type: array types and indexed accesses. -/
def typeBrackets (g : Grammar) (start : Nat) (type : Tree) : Nat → Reader Tree
  | 0 => failure
  | fuel + 1 => do
    if (← atMark "[") && !(← atNewline) then
      take
      if ← accept "]" then
        typeBrackets g start (← branchFrom .arrayType start [type]) fuel
      else
        let index ← bracketed (g.read .type)
        expect "]"
        typeBrackets g start (← branchFrom .indexedType start [type, index]) fuel
    else
      return type

/-- Reads the bound of a type that is inferred.  Where a conditional type may
stand, the bound is none when a question mark follows. -/
def inferBound (g : Grammar) : Reader (List Tree) := do
  expectWord "extends"
  let bound ← g.read .boundType
  require ((← surroundings).noConditionalType || !(← atMark "?"))
  return [bound]

/-- Reads a type with the operators before it. -/
def operatorType (g : Grammar) : Nat → Reader Tree
  | 0 => failure
  | fuel + 1 => do
    let start ← here
    if (← atWord "keyof") || (← atWord "unique") || (← atWord "readonly") then
      take
      let inner ← operatorType g fuel
      branchFrom .typeOperator start [inner]
    else if ← atWord "infer" then
      take
      let id ← anyName
      let bound ← inferBound g <|> pure []
      branchFrom .inferType start
        [.branch .typeParameter id.span (.identifier .typeParameter id :: bound)]
    else
      let type ← primaryType g
      typeBrackets g start type g.fuel

/-- Reads types joined by a mark, which may also stand before the first. -/
def joinedTypes (mark : String) (item : Reader Tree) (fuel : Nat) : Reader Tree := do
  let start ← here
  let _ ← accept mark
  let first ← item
  let others ← itemsWhile (accept mark) item fuel
  if others.isEmpty then
    return first
  else
    branchFrom .unionType start (first :: others)

/-- Whether a function type starts with the next token. -/
def atFunctionType (g : Grammar) : Reader Bool := do
  let token ← peek
  let second ← peekSecond
  let parameters :=
    match token.behindBrackets g.fuel with
    | some next => next.kind.isMark "=>"
    | none => false
  return parameters || token.kind.isMark "<" || token.kind.isKeyword "new" ||
    (token.kind.isKeyword "abstract" && second.kind.isKeyword "new")

/-- Reads a function type or a constructor type. -/
def prefixedFunctionType (g : Grammar) : Reader Tree := do
  let start ← here
  let _ ← acceptWord "abstract"
  let _ ← acceptWord "new"
  functionType g start

/-- Reads a type that others may be joined to. -/
def unjoinedType (g : Grammar) : Reader Tree := do
  if ← atFunctionType g then prefixedFunctionType g else operatorType g g.fuel

/-- Reads a type that is not conditional. -/
def plainType (g : Grammar) : Reader Tree := do
  if ← atFunctionType g then
    prefixedFunctionType g
  else
    joinedTypes "|" (joinedTypes "&" (unjoinedType g) g.fuel) g.fuel

/-- Reads a type. -/
def type (g : Grammar) : Reader Tree := do
  let start ← here
  let checked ← inside (fun outer => { outer with noConditionalType := false }) (plainType g)
  if ← acceptWordIf (!(← atNewline)) "extends" then
    let bound ← g.read .boundType
    expect "?"
    let yes ← g.read .type
    expect ":"
    let no ← g.read .type
    branchFrom .conditionalType start [checked, bound, yes, no]
  else
    return checked

/-- Reads the bound of a conditional type. -/
def boundType (g : Grammar) : Reader Tree :=
  inside (fun outer => { outer with noConditionalType := true }) (plainType g)

end SdkMigration.Grammar
