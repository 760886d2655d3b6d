import SdkMigration.Program.Grammar.Functions

/-!
# Markup elements

An element stands in the place of an expression or among the children of
another one.  The two differ only in how the token behind the last bracket
is read, which `element` takes as a parameter.

The names of elements are identifiers, in the closing tag once more; the
names of attributes are not.
-/

namespace SdkMigration.Grammar

open Reader

/-! ## Names -/

/-- Reads a word of a markup name. -/
def markupWord : Reader Identifier := do
  reread Token.rescanMarkupName
  anyName

/-- Reads the properties behind the first word of a dotted markup name. -/
def markupProperties : Nat → Reader (List String)
  | 0 => failure
  | fuel + 1 => do
    if ← accept "." then
      let property ← markupWord
      return property.name :: (← markupProperties fuel)
    else
      return []

/-- The name of an element: its words, and what it refers to. -/
structure MarkupName where
  words : List String
  reference : List Tree

/-- Reads the name of an element.  A name with a colon refers to nothing. -/
def markupName (g : Grammar) : Reader MarkupName := do
  let start ← here
  let first ← markupWord
  if ← accept ":" then
    let second ← markupWord
    return ⟨[first.name, ":", second.name], []⟩
  else
    let reference := Tree.identifier .reference first
    match ← markupProperties g.fuel with
    | [] => return ⟨[first.name], [reference]⟩
    | words => return ⟨first.name :: words, [← branchFrom .jsxMember start [reference]]⟩

/-! ## Attributes -/

/-- Reads what stands in braces, if anything does. -/
def contained (g : Grammar) : Reader (List Tree) := do
  if ← atMark "\x7d" then
    return []
  else
    let _ ← accept "..."
    single (bracketed (g.read .assignment))

/-- Reads an expression in braces, behind the opening one. -/
def container (g : Grammar) (start : Nat) : Reader Tree := do
  let inner ← contained g
  require (← atMark "\x7d")
  branchFrom .jsxContainer start inner

/-- Reads the value of an attribute. -/
def attributeValue (g : Grammar) : Reader (List Tree) := do
  let start ← here
  match (← peek).kind with
  | .string _ =>
    take
    return []
  | .mark "\x7b" =>
    take
    let value ← container g start
    expect "\x7d"
    return [value]
  | _ => return [← g.read .markup]

/-- Takes the name of an attribute. -/
def attributeName : Reader Unit := do
  let _ ← markupWord
  if ← accept ":" then
    let _ ← markupWord

/-- Reads an attribute. -/
def markupAttribute (g : Grammar) : Reader Tree := do
  let start ← here
  if ← accept "\x7b" then
    expect "..."
    let inner ← bracketed (g.read .assignment)
    expect "\x7d"
    branchFrom .spread start [inner]
  else
    attributeName
    if ← atMark "=" then
      takeThen Token.scanMarkupValue
      branchFrom .jsxAttribute start (← attributeValue g)
    else
      branchFrom .jsxAttribute start []

/-- Whether the next token can start an attribute. -/
def atAttribute : Reader Bool := do return (← peek).kind.isWord || (← atMark "\x7b")

/-! ## Elements -/

/-- Takes the bracket that closes a tag. -/
def closeTag (after : Nat → List Char → Token) : Reader Unit := do
  require ((← peek).kind.isMarkFrom '>')
  reread Token.firstOfMark
  takeThen after

/-- Whether the next token opens the closing tag of an element. -/
def atClosingTag : Reader Bool := do
  let second ← peekSecond
  return (← atMark "<") && second.kind.isMarkFrom '/'

/-- Reads the children of an element up to its closing tag. -/
def markupChildren (g : Grammar) : Nat → Reader (List Tree)
  | 0 => failure
  | fuel + 1 => do
    if ← atClosingTag then
      return []
    else
      let start ← here
      match (← peek).kind with
      | .markupText =>
        takeThen Token.scanMarkup
        markupChildren g fuel
      | .mark "\x7b" =>
        take
        let child ← container g start
        takeThen Token.scanMarkup
        return child :: (← markupChildren g fuel)
      | _ =>
        let child ← g.read .markupChild
        return child :: (← markupChildren g fuel)

/-- A tag while it is read: its name, and the trees of what stands behind it in
the order in which they are visited. -/
structure OpenedTag where
  name : MarkupName
  parts : List Tree

/-- Reads a tag behind its opening bracket, up to the bracket or the slash that
ends it.  A tag may have no name. -/
def openedTag (g : Grammar) : Reader OpenedTag := do
  if (← peek).kind.isMarkFrom '>' then
    return ⟨⟨[], []⟩, []⟩
  else
    let name ← markupName g
    let generics ← (if (← hasTypes) && (← atMark "<") then typeArguments g else pure [])
    let attributes ← itemsWhile atAttribute (markupAttribute g) g.fuel
    return ⟨name, attributes ++ generics⟩

/-- Reads the name of a closing tag, if it has one. -/
def closingName (g : Grammar) : Reader MarkupName := do
  if (← peek).kind.isMarkFrom '>' then
    return ⟨[], []⟩
  else
    markupName g

/-- Reads an element, the token behind it being found by `after`. -/
def element (g : Grammar) (after : Nat → List Char → Token) : Reader Tree := do
  let start ← here
  expect "<"
  let tag ← openedTag g
  if ← acceptFirst '/' then
    require !tag.name.words.isEmpty
    closeTag after
    branchFrom .jsxElement start (tag.name.reference ++ tag.parts)
  else
    closeTag Token.scanMarkup
    let children ← markupChildren g g.fuel
    expect "<"
    require (← acceptFirst '/')
    let closing ← closingName g
    require (closing.words == tag.name.words)
    closeTag after
    branchFrom .jsxElement start
      (tag.name.reference ++ tag.parts ++ children ++ closing.reference)

end SdkMigration.Grammar
