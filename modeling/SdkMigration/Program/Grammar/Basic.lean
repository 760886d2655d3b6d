import SdkMigration.Program.Token
import SdkMigration.Program.Tree

/-!
# Readers of the grammar

A `Reader` takes the state in front of the next token to a tree and the
state behind it, or fails.  Failing has no reason attached, because nobody
is told why a program could not be read; alternatives are tried with `<|>`,
which goes back to the state before the first one.

The productions call each other in a circle.  `Grammar` is what one
production may call: the reader of each `Nonterminal`, together with `fuel`,
a number at least as large as the number of tokens left, which bounds the
loops.  The circle is closed in `SdkMigration.Program.Reading`.
-/

namespace SdkMigration

/-- Which parts of the language a file may use. -/
structure Dialect where
  /-- Type annotations and declarations. -/
  types : Bool
  /-- Markup elements in expressions. -/
  markup : Bool
  /-- Import and export declarations. -/
  modules : Bool
deriving DecidableEq

/-- What the surroundings say about an expression. -/
structure Surroundings where
  /-- The head of a `for` loop, where `in` is no operator. -/
  noIn : Bool := false
  /-- The body of a generator, where `yield` is an operator. -/
  generator : Bool := false
  /-- The middle of a conditional, where an arrow function with a return type
  has to be followed by the colon. -/
  colonAfterArrow : Bool := false
  /-- The bound of a conditional type. -/
  noConditionalType : Bool := false

/-- The state between two tokens. -/
structure ReaderState where
  /-- The next token. -/
  token : Token
  /-- The position where the last token that was taken ends. -/
  lastStop : Nat
  dialect : Dialect
  surroundings : Surroundings

/-- A reader of some part of a program. -/
abbrev Reader := StateT ReaderState Option

/-- The parts of the grammar that productions refer to. -/
inductive Nonterminal where
  | statement
  | moduleItem
  | assignment
  | unary
  | leftHandSide
  | newCallee
  | pattern
  | target
  | type
  | boundType
  | markup
  | markupChild
deriving DecidableEq

/-- What a production may call. -/
structure Grammar where
  fuel : Nat
  read : Nonterminal → Reader Tree

namespace Reader

/-! ## Looking at the next token -/

/-- The next token. -/
def peek : Reader Token := do return (← get).token

/-- The token after the next one. -/
def peekSecond : Reader Token := do
  let token ← peek
  return Token.scan token.stop token.rest

/-- The position where the next token starts. -/
def here : Reader Nat := do return (← peek).start

/-- Whether a line end stands before the next token. -/
def atNewline : Reader Bool := do return (← peek).newlineBefore

/-- Whether the file may use types. -/
def hasTypes : Reader Bool := do return (← get).dialect.types

/-- What the surroundings of the next token say. -/
def surroundings : Reader Surroundings := do return (← get).surroundings

end Reader

namespace TokenKind

/-- Whether a token is the given mark. -/
def isMark (text : String) : TokenKind → Bool
  | .mark found => found == text
  | _ => false

/-- Whether a token is the given word, written without escapes. -/
def isKeyword (name : String) : TokenKind → Bool
  | .word found escaped => found == name && !escaped
  | _ => false

/-- Whether a token is any word. -/
def isWord : TokenKind → Bool
  | .word _ _ => true
  | _ => false

/-- Whether a token is a mark that starts with the given character. -/
def isMarkFrom (first : Char) : TokenKind → Bool
  | .mark found => found.toList.head? == some first
  | _ => false

/-- Whether a token can start the name of a property. -/
def startsPropertyName : TokenKind → Bool
  | .word _ _ => true
  | .privateName _ => true
  | .string _ => true
  | .number => true
  | .mark found => found == "["
  | _ => false

end TokenKind

/-- The words that can never name a variable. -/
def reservedWords : List String :=
  ["break", "case", "catch", "class", "const", "continue", "debugger", "default", "delete",
    "do", "else", "enum", "export", "extends", "false", "finally", "for", "function", "if",
    "import", "in", "instanceof", "new", "null", "return", "super", "switch", "this", "throw",
    "true", "try", "typeof", "var", "void", "while", "with"]

/-- Whether a token can name a variable. -/
def TokenKind.isName : TokenKind → Bool
  | .word name _ => !reservedWords.contains name
  | _ => false

namespace Reader

/-- Whether the next token is the given mark. -/
def atMark (text : String) : Reader Bool := do return (← peek).kind.isMark text

/-- Whether the next token is the given word. -/
def atWord (name : String) : Reader Bool := do return (← peek).kind.isKeyword name

/-- Whether a reader would succeed from here. -/
def ahead (reader : Reader α) : Reader Bool := fun state => some ((reader state).isSome, state)

/-- Succeeds only when the condition holds. -/
def require (condition : Bool) : Reader Unit := if condition then pure () else failure

/-! ## Taking tokens -/

/-- Takes the next token, the one after it being found by `next` from the
position and the characters behind it. -/
def takeThen (next : Nat → List Char → Token) : Reader Unit :=
  modify fun state =>
    { state with
      token := next state.token.stop state.token.rest
      lastStop := state.token.stop }

/-- Takes the next token. -/
def take : Reader Unit := takeThen Token.scan

/-- Reads the next token in another way. -/
def reread (change : Token → Token) : Reader Unit :=
  modify fun state => { state with token := change state.token }

/-- Takes the given mark if it comes next. -/
def accept (text : String) : Reader Bool := do
  if ← atMark text then
    take
    return true
  else
    return false

/-- Takes the given word if it comes next. -/
def acceptWord (name : String) : Reader Bool := do
  if ← atWord name then
    take
    return true
  else
    return false

/-- Takes the next token where a condition holds. -/
def takeIf (condition : Bool) : Reader Unit := if condition then take else pure ()

/-- Takes the given mark if it comes next and a condition holds. -/
def acceptIf (condition : Bool) (text : String) : Reader Bool :=
  if condition then accept text else pure false

/-- Takes the given word if it comes next and a condition holds. -/
def acceptWordIf (condition : Bool) (name : String) : Reader Bool :=
  if condition then acceptWord name else pure false

/-- Takes the given mark or fails. -/
def expect (text : String) : Reader Unit := do
  require (← accept text)

/-- Takes the given word or fails. -/
def expectWord (name : String) : Reader Unit := do
  require (← acceptWord name)

/-- Takes the first character of a mark that starts with `c`, leaving the
others to be read again. -/
def acceptFirst (c : Char) : Reader Bool := do
  if (← peek).kind.isMarkFrom c then
    reread Token.firstOfMark
    take
    return true
  else
    return false

/-- The span from a position to the end of the last token taken. -/
def spanFrom (start : Nat) : Reader Span := do
  return Span.between start (← get).lastStop

/-- A branch that starts at a position and ends with the last token taken. -/
def branchFrom (kind : BranchKind) (start : Nat) (children : List Tree) : Reader Tree := do
  return .branch kind (← spanFrom start) children

/-- A leaf that starts at a position and ends with the last token taken. -/
def leafFrom (kind : LeafKind) (start : Nat) : Reader Tree := do
  return .leaf kind (← spanFrom start)

/-- Runs a reader in other surroundings. -/
def inside (change : Surroundings → Surroundings) (reader : Reader α) : Reader α := do
  let outer ← surroundings
  modify fun state => { state with surroundings := change outer }
  let result ← reader
  modify fun state => { state with surroundings := outer }
  return result

/-- Runs a reader between brackets, where what the head of a loop or a
conditional forbids is allowed again. -/
def bracketed (reader : Reader α) : Reader α :=
  inside (fun outer => { generator := outer.generator }) reader

/-- Takes the end of a statement: a semicolon, or nothing before a closing
brace, at the end of the text, and on a new line. -/
def endStatement : Reader Unit := do
  unless ← accept ";" do
    let token ← peek
    require (token.newlineBefore || token.kind.isMark "\x7d" || token.kind == .endOfText)

/-- Runs a reader that is told where the next token starts. -/
def fromHere (reader : Nat → Reader α) : Reader α := do reader (← here)

/-! ## Names -/

/-- Reads any word. -/
def anyName : Reader Identifier := do
  let token ← peek
  match token.kind with
  | .word name _ =>
    take
    return ⟨name, Span.between token.start token.stop⟩
  | _ => failure

/-- Reads a word that can name a variable. -/
def variableName : Reader Identifier := do
  require (← peek).kind.isName
  anyName

/-- Reads a word that can name a variable, as an identifier in a role. -/
def nameAs (role : Role) : Reader Tree := do
  return .identifier role (← variableName)

/-- Reads a string literal. -/
def stringLiteral : Reader Tree := do
  let token ← peek
  match token.kind with
  | .string value =>
    take
    return .text value (Span.between token.start token.stop)
  | _ => failure

/-! ## Lists -/

/-- Reads one tree. -/
def single (reader : Reader Tree) : Reader (List Tree) := do return [← reader]

/-- Reads one tree where a condition holds, and none elsewhere. -/
def singleIf (condition : Bool) (reader : Reader Tree) : Reader (List Tree) :=
  if condition then single reader else pure []

/-- Reads items up to a closing mark, which is taken. -/
def itemsUntil (close : String) (item : Reader Tree) : Nat → Reader (List Tree)
  | 0 => failure
  | fuel + 1 => do
    if ← accept close then
      return []
    else
      let first ← item
      let others ← itemsUntil close item fuel
      return first :: others

/-- Takes the comma between two items.  Before a closing mark there may be
none. -/
def separator (close : String) : Reader Unit := do
  unless ← atMark close do
    expect ","

/-- Reads items separated by commas up to a closing mark, which is taken.  A
comma before the closing mark is allowed. -/
def commaItems (close : String) (item : Reader Tree) : Nat → Reader (List Tree)
  | 0 => failure
  | fuel + 1 => do
    if ← accept close then
      return []
    else
      let first ← item
      separator close
      let others ← commaItems close item fuel
      return first :: others

/-- Reads the items that follow a first one as long as `continues` takes a
separator. -/
def itemsWhile (continues : Reader Bool) (item : Reader Tree) : Nat → Reader (List Tree)
  | 0 => failure
  | fuel + 1 => do
    if ← continues then
      let first ← item
      let others ← itemsWhile continues item fuel
      return first :: others
    else
      return []

/-- Reads at least one item, separated by commas. -/
def commaSeparated (item : Reader Tree) (fuel : Nat) : Reader (List Tree) := do
  let first ← item
  let others ← itemsWhile (accept ",") item fuel
  return first :: others

/-- Wraps a tree as an expression that starts at a position. -/
def expressionAt (start : Nat) (inner : Tree) : Tree := .anchored .expression start inner

end Reader

end SdkMigration
