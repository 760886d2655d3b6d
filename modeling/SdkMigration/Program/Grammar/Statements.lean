import SdkMigration.Program.Grammar.Expressions

/-!
# Statements and declarations

A statement is wrapped in an anchor at the place where it starts.  The parts
of a statement that is itself part of a declaration, such as the body of a
function or the block of a `try`, are not statements.
-/

namespace SdkMigration.Grammar

open Reader

/-! ## Variables -/

/-- Reads a declarator. -/
def declarator (g : Grammar) : Reader Tree := do
  let start ← here
  let inner ← g.read .pattern
  let _ ← acceptIf (← hasTypes) "!"
  let annotated := inner.annotate (← colonType g)
  let value ← singleIf (← accept "=") (g.read .assignment)
  return .anchored .declarator start (← branchFrom .declarator start (annotated :: value))

/-- Whether a declarator binds a pattern in brackets or braces to nothing. -/
def lacksValue (declarator : Tree) : Bool :=
  match declarator.core with
  | .branch .declarator _ [.branch _ _ _] => true
  | _ => false

/-- Takes the words that open a variable declaration, or fails. -/
def variableKeyword : Reader Unit := do
  let token ← peek
  let second ← peekSecond
  let startsPattern := second.kind.isName || second.kind.isMark "[" || second.kind.isMark "\x7b"
  if token.kind.isKeyword "var" || token.kind.isKeyword "const" then
    take
  else if token.kind.isKeyword "let" then
    require startsPattern
    take
  else if token.kind.isKeyword "using" then
    require (second.kind.isName && !second.newlineBefore && !second.kind.isKeyword "of")
    take
  else if token.kind.isKeyword "await" then
    require (second.kind.isKeyword "using" && !second.newlineBefore)
    take
    let third ← peekSecond
    require (third.kind.isName && !third.newlineBefore)
    take
  else
    failure

/-- Reads the declarators of a variable declaration from its keyword on. -/
def declarators (g : Grammar) : Reader (List Tree) := do
  variableKeyword
  commaSeparated (declarator g) g.fuel

/-- Reads a variable declaration without its end.  Patterns in brackets or
braces need a value. -/
def variableDeclaration (g : Grammar) : Reader Tree := do
  let start ← here
  let found ← declarators g
  require !(found.any lacksValue)
  branchFrom .variableDeclaration start found

/-! ## Declarations -/

/-- Reads a function declaration. -/
def functionDeclaration (g : Grammar) : Reader Tree := do
  let generator ← functionHead
  let id ← variableName
  return .declaration .functionValue id [← function g generator []]

/-- Reads an interface. -/
def interface (g : Grammar) : Reader Tree := do
  let start ← here
  expectWord "interface"
  let id ← variableName
  let generics ← typeParameters g
  let parents ← heritageClause g "extends"
  let members ← typeMembers g
  branchFrom .interface start
    (.identifier .interfaceName id :: generics ++ parents ++ members)

/-- Reads a type alias. -/
def typeAlias (g : Grammar) : Reader Tree := do
  let start ← here
  expectWord "type"
  let id ← variableName
  let generics ← typeParameters g
  expect "="
  let type ← g.read .type
  endStatement
  branchFrom .typeAlias start (.identifier .aliasName id :: generics ++ [type])

/-- Reads the key of a member of an enumeration.  Only a plain one counts. -/
def enumKey (g : Grammar) : Reader (List Tree) := do
  match (← peek).kind with
  | .string _ | .number =>
    take
    return []
  | .mark "[" =>
    take
    let _ ← bracketed (expression g)
    expect "]"
    return []
  | _ => return [.identifier .enumMember (← anyName)]

/-- Reads a member of an enumeration. -/
def enumMember (g : Grammar) : Reader Tree := do
  let start ← here
  let key ← enumKey g
  let value ← singleIf (← accept "=") (g.read .assignment)
  branchFrom .enumMember start (key ++ value)

/-- Reads an enumeration. -/
def enumDeclaration (g : Grammar) : Reader Tree := do
  let _ ← acceptWord "const"
  expectWord "enum"
  let id ← variableName
  expect "\x7b"
  let members ← bracketed (commaItems "\x7d" (enumMember g) g.fuel)
  return .declaration .enumValue id members

/-- Reads the items between the braces of a namespace. -/
def namespaceBody (g : Grammar) : Reader Tree := do
  let start ← here
  expect "\x7b"
  let items ← inside (fun _ => {}) (itemsUntil "\x7d" (g.read .moduleItem) g.fuel)
  branchFrom .block start items

/-- Reads a namespace behind its keyword.  The name may have several parts,
each of which is a namespace in the one before. -/
def namespaceParts (g : Grammar) (start : Nat) : Nat → Reader Tree
  | 0 => failure
  | fuel + 1 => do
    let id ← variableName
    let name := Tree.identifier .namespaceName id
    let body ← (if ← accept "." then fromHere fun inner => namespaceParts g inner fuel
      else namespaceBody g)
    branchFrom .namespace start [name, body]

/-- Reads the body of a module that is declared under a quoted name, if it has
one. -/
def quotedBody (g : Grammar) : Reader (List Tree) := do
  if ← atMark "\x7b" then
    single (namespaceBody g)
  else
    endStatement
    return []

/-- Reads a namespace, or a module that is declared under a quoted name. -/
def namespaceDeclaration (g : Grammar) : Reader Tree := do
  let start ← here
  if ← atWord "global" then
    let id ← anyName
    let body ← namespaceBody g
    branchFrom .namespace start [.identifier .namespaceName id, body]
  else
    take
    match (← peek).kind with
    | .string _ =>
      take
      let body ← quotedBody g
      branchFrom .namespace start body
    | _ => namespaceParts g start g.fuel

/-- The reader of the declaration that comes next, if it is one that only
dialects with types have. -/
def typedDeclaration? (g : Grammar) : Reader (Option (Reader Tree)) := do
  let types ← hasTypes
  let token ← peek
  let second ← peekSecond
  let sameLine := !second.newlineBefore
  let named := second.kind.isName && sameLine
  let quoted := second.kind matches .string _
  if !types then
    return none
  else if token.kind.isKeyword "interface" && second.kind.isName then
    return some (interface g)
  else if token.kind.isKeyword "type" && named then
    return some (typeAlias g)
  else if token.kind.isKeyword "enum" ||
      (token.kind.isKeyword "const" && second.kind.isKeyword "enum") then
    return some (enumDeclaration g)
  else if token.kind.isKeyword "namespace" && named then
    return some (namespaceDeclaration g)
  else if token.kind.isKeyword "module" && (named || (quoted && sameLine)) then
    return some (namespaceDeclaration g)
  else if token.kind.isKeyword "global" && second.kind.isMark "\x7b" && sameLine then
    return some (namespaceDeclaration g)
  else
    return none

/-- Whether the next token starts a declaration that can be exported or
declared. -/
def atDeclaration : Reader Bool := do
  return (← atWord "function") || (← atAsyncFunction) || (← atClass) || (← atMark "@")

/-- Reads a variable declaration with its end. -/
def variableStatement (g : Grammar) : Reader Tree := do
  let tree ← variableDeclaration g
  endStatement
  return tree

/-- Reads a declaration that can be exported or declared. -/
def declaration (g : Grammar) (marks : List Tree) : Reader Tree := do
  let marks := marks ++ (← decorators g)
  if (← atWord "function") || (← atAsyncFunction) then
    functionDeclaration g
  else if ← atClass then
    classDeclaration g marks
  else
    match ← typedDeclaration? g with
    | some reader => reader
    | none => variableStatement g

/-- Reads a declaration behind the word `declare`. -/
def ambientDeclaration (g : Grammar) (marks : List Tree) : Reader Tree := do
  require (← hasTypes)
  let second ← peekSecond
  require (second.kind.isWord && !second.newlineBefore)
  expectWord "declare"
  declaration g marks

/-! ## Control flow -/

/-- Reads a condition in brackets. -/
def condition (g : Grammar) : Reader Tree := do
  expect "("
  let test ← bracketed (expression g)
  expect ")"
  return test

/-- Reads an `if` statement. -/
def ifStatement (g : Grammar) (start : Nat) : Reader Tree := do
  take
  let test ← condition g
  let yes ← g.read .statement
  let no ← singleIf (← acceptWord "else") (g.read .statement)
  branchFrom .condition start (test :: yes :: no)

/-- Reads the rest of a loop over the entries of something, from `of` or `in`
on. -/
def loopOver (g : Grammar) : Reader Tree := do
  if ← acceptWord "of" then
    bracketed (g.read .assignment)
  else
    expectWord "in"
    bracketed (expression g)

/-- Reads an optional expression up to a mark, which is taken. -/
def expressionUntil (g : Grammar) (mark : String) : Reader (List Tree) := do
  if ← accept mark then
    return []
  else
    let found ← bracketed (expression g)
    expect mark
    return [found]

/-- Reads the rest of the head of a loop that counts, behind its first
part. -/
def loopSteps (g : Grammar) (first : List Tree) : Reader (List Tree) := do
  expect ";"
  let test ← expressionUntil g ";"
  let update ← expressionUntil g ")"
  return first ++ test ++ update

/-- Whether a loop over the entries of something goes on here. -/
def atLoopOver : Reader Bool := do return (← atWord "of") || (← atWord "in")

/-- Reads the rest of the head of a loop over the entries of something, behind
what each entry is bound to. -/
def loopEntries (g : Grammar) (first : Tree) : Reader (List Tree) := do
  let second ← loopOver g
  expect ")"
  return [first, second]

/-- Runs a reader where `in` is no operator. -/
def inHead (reader : Reader α) : Reader α :=
  inside (fun outer => { outer with noIn := true }) reader

/-- Reads the head of a `for` loop behind its opening bracket. -/
def forHead (g : Grammar) : Reader (List Tree) := do
  let start ← here
  let before ← get
  if ← atMark ";" then
    loopSteps g []
  else if ← ahead variableKeyword then
    let found ← inHead (declarators g)
    let first ← branchFrom .variableDeclaration start found
    if ← atLoopOver then
      loopEntries g first
    else
      require !(found.any lacksValue)
      loopSteps g [first]
  else
    let first ← inHead (expression g)
    if ← atLoopOver then
      if isDestructurable first then
        set before
        loopEntries g (← inHead (g.read .target))
      else
        match asTarget? first with
        | some target => loopEntries g target
        | none => failure
    else
      loopSteps g [first]

/-- Reads a `for` loop. -/
def forStatement (g : Grammar) (start : Nat) : Reader Tree := do
  take
  let _ ← acceptWord "await"
  expect "("
  let head ← forHead g
  let body ← g.read .statement
  branchFrom .loop start (head ++ [body])

/-- Reads a `while` loop. -/
def whileStatement (g : Grammar) (start : Nat) : Reader Tree := do
  take
  let test ← condition g
  let body ← g.read .statement
  branchFrom .loop start [test, body]

/-- Reads a loop whose test stands at its end. -/
def doStatement (g : Grammar) (start : Nat) : Reader Tree := do
  take
  let body ← g.read .statement
  expectWord "while"
  let test ← condition g
  let _ ← accept ";"
  branchFrom .loop start [test, body]

/-- Reads the statements of a `switch` case. -/
def caseBody (g : Grammar) : Nat → Reader (List Tree)
  | 0 => failure
  | fuel + 1 => do
    if (← atWord "case") || (← atWord "default") || (← atMark "\x7d") then
      return []
    else
      let first ← g.read .statement
      return first :: (← caseBody g fuel)

/-- Reads the value of a `switch` case.  The default case has none. -/
def caseValue (g : Grammar) : Reader (List Tree) := do
  if ← acceptWord "default" then
    return []
  else
    expectWord "case"
    single (bracketed (expression g))

/-- Reads a `switch` case. -/
def switchCase (g : Grammar) : Reader Tree := do
  let start ← here
  let test ← caseValue g
  expect ":"
  let body ← caseBody g g.fuel
  branchFrom .switchCase start (test ++ body)

/-- Reads a `switch` statement. -/
def switchStatement (g : Grammar) (start : Nat) : Reader Tree := do
  take
  let value ← condition g
  expect "\x7b"
  let cases ← itemsUntil "\x7d" (switchCase g) g.fuel
  branchFrom .switch start (value :: cases)

/-- Reads what a `catch` clause binds, if it binds anything. -/
def catchParameter (g : Grammar) : Reader (List Tree) := do
  if ← accept "(" then
    let parameter ← g.read .pattern
    let annotated := parameter.annotate (← colonType g)
    expect ")"
    return [annotated]
  else
    return []

/-- Reads a `catch` clause. -/
def catchClause (g : Grammar) : Reader Tree := do
  let start ← here
  expectWord "catch"
  let parameter ← catchParameter g
  branchFrom .catch start (parameter ++ [← block g])

/-- Reads a `try` statement. -/
def tryStatement (g : Grammar) (start : Nat) : Reader Tree := do
  take
  let body ← block g
  let handler ← singleIf (← atWord "catch") (catchClause g)
  let last ← singleIf (← acceptWord "finally") (block g)
  require !(handler.isEmpty && last.isEmpty)
  branchFrom .try start (body :: handler ++ last)

/-- Reads `return` or `throw` with its operand. -/
def exitStatement (g : Grammar) (start : Nat) (kind : BranchKind) (needed : Bool) :
    Reader Tree := do
  take
  let next ← peek
  let ended := next.newlineBefore || next.kind.isMark ";" || next.kind.isMark "\x7d" ||
    next.kind == .endOfText
  require !(needed && ended)
  let value ← singleIf (!ended) (expression g)
  endStatement
  branchFrom kind start value

/-- Reads `break` or `continue` with its label. -/
def jumpStatement (start : Nat) : Reader Tree := do
  take
  let label ← singleIf ((← peek).kind.isName && !(← atNewline)) (nameAs .label)
  endStatement
  branchFrom .jump start label

/-- Reads a statement that starts with a reserved word, if the next token is
one. -/
def keywordStatement (g : Grammar) (start : Nat) (name : String) : Option (Reader Tree) :=
  if name == "if" then some (ifStatement g start)
  else if name == "for" then some (forStatement g start)
  else if name == "while" then some (whileStatement g start)
  else if name == "do" then some (doStatement g start)
  else if name == "switch" then some (switchStatement g start)
  else if name == "try" then some (tryStatement g start)
  else if name == "return" then some (exitStatement g start .return false)
  else if name == "throw" then some (exitStatement g start .throw true)
  else if name == "break" || name == "continue" then some (jumpStatement start)
  else if name == "with" then some do
    take
    let value ← condition g
    let body ← g.read .statement
    branchFrom .with start [value, body]
  else if name == "debugger" then some do
    take
    endStatement
    leafFrom .keyword start
  else none

/-- Reads an expression as a statement. -/
def expressionStatement (g : Grammar) (start : Nat) : Reader Tree := do
  let found ← expression g
  endStatement
  branchFrom .expressionStatement start [found]

/-- Reads a statement with a label. -/
def labeledStatement (g : Grammar) (start : Nat) : Reader Tree := do
  let label ← variableName
  expect ":"
  let body ← g.read .statement
  branchFrom .labeled start [.identifier .label label, body]

/-- Reads a statement without its anchor. -/
def plainStatement (g : Grammar) (start : Nat) : Reader Tree := do
  let token ← peek
  let second ← peekSecond
  match token.kind with
  | .mark "\x7b" => block g
  | .mark ";" =>
    take
    leafFrom .empty start
  | .mark "@" =>
    let marks ← decorators g
    if (← hasTypes) && (← atWord "declare") then
      ambientDeclaration g marks
    else
      declaration g marks
  | .word name escaped =>
    if second.kind.isMark ":" && token.kind.isName then
      labeledStatement g start
    else if escaped then
      expressionStatement g start
    else
      match keywordStatement g start name with
      | some reader => reader
      | none =>
        if ← atDeclaration then
          declaration g []
        else if (← hasTypes) && name == "declare" && second.kind.isWord &&
            !second.newlineBefore then
          ambientDeclaration g []
        else
          match ← typedDeclaration? g with
          | some reader => reader
          | none =>
            if ← ahead variableKeyword then
              variableStatement g
            else
              expressionStatement g start
  | _ => expressionStatement g start

/-- Reads a statement. -/
def statement (g : Grammar) : Reader Tree := do
  let start ← here
  return .anchored .statement start (← plainStatement g start)

end SdkMigration.Grammar
