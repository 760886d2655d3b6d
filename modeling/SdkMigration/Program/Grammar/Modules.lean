import SdkMigration.Program.Grammar.Statements

/-!
# Imports and exports

The items that only a module has.  They stand at the top level of a file and
in the body of a namespace.
-/

namespace SdkMigration.Grammar

open Reader

/-! ## Parts -/

/-- Reads an attribute of a module that is named. -/
def importAttribute (g : Grammar) : Reader Tree := do
  let start ← here
  let _ ← propertyName g
  expect ":"
  let _ ← stringLiteral
  leafFrom .literal start

/-- Reads the attributes behind the name of a module. -/
def importAttributes (g : Grammar) : Reader Unit := do
  let first ← acceptWord "with"
  if first || (← acceptWordIf (!first && !(← atNewline)) "assert") then
    expect "\x7b"
    let _ ← bracketed (commaItems "\x7d" (importAttribute g) g.fuel)

/-- Reads the name of a module with its attributes. -/
def moduleSource (g : Grammar) : Reader String := do
  match (← peek).kind with
  | .string value =>
    take
    importAttributes g
    return value
  | _ => failure

/-- A name that is exported: a word or a string. -/
inductive ExportedName where
  | word (id : Identifier)
  | quoted (value : String)

/-- The spelling of an exported name. -/
def ExportedName.text : ExportedName → String
  | .word id => id.name
  | .quoted value => value

/-- The identifiers of an exported name. -/
def ExportedName.identifiers : ExportedName → List Tree
  | .word id => [.identifier .exportName id]
  | .quoted _ => []

/-- Reads an exported name. -/
def exportedName : Reader ExportedName := do
  match (← peek).kind with
  | .string value =>
    take
    return .quoted value
  | _ => return .word (← anyName)

/-- A specifier while it is read: whether it is for types only, the name
before `as`, and what follows it. -/
structure Specifier (α : Type) where
  isTypeOnly : Bool
  name : ExportedName
  renamed : Option α

/-- Reads a specifier, `target` reading the name behind `as`.  The word
`type` makes it one for types only when another word follows; it may be the
name itself, as in `type as other`. -/
def specifier (target : Reader α) : Reader (Specifier α) := do
  let startsWithType := (← hasTypes) && (← atWord "type")
  let first ← exportedName
  let next ← peek
  if startsWithType && next.kind.isWord then
    let second ← exportedName
    let third ← peek
    if next.kind.isKeyword "as" && third.kind.isWord then
      let renamed ← target
      if third.kind.isKeyword "as" && (← peek).kind.isWord then
        return ⟨true, second, some (← target)⟩
      else
        return ⟨false, first, some renamed⟩
    else if ← acceptWord "as" then
      return ⟨true, second, some (← target)⟩
    else
      return ⟨true, second, none⟩
  else if ← acceptWord "as" then
    return ⟨false, first, some (← target)⟩
  else
    return ⟨false, first, none⟩

/-- Reads items between braces, separated by commas. -/
def bracedItems (item : Reader α) : Nat → Reader (List α)
  | 0 => failure
  | fuel + 1 => do
    if ← accept "\x7d" then
      return []
    else
      let first ← item
      separator "\x7d"
      return first :: (← bracedItems item fuel)

/-! ## Imports -/

/-- Reads a named specifier of an import. -/
def importSpecifier : Reader ImportSpecifier := do
  let found ← specifier variableName
  match found.renamed, found.name with
  | some local_, name => return .named (some name.text) local_ found.isTypeOnly
  | none, .word id =>
    require (!reservedWords.contains id.name)
    return .named none id found.isTypeOnly
  | none, .quoted _ => failure

/-- Reads the specifiers behind a default import, or those of an import
without one. -/
def importedNames (g : Grammar) : Reader (List ImportSpecifier) := do
  if ← accept "*" then
    expectWord "as"
    return [.whole (← variableName)]
  else
    expect "\x7b"
    bracedItems importSpecifier g.fuel

/-- Reads the specifiers of an import. -/
def importSpecifiers (g : Grammar) : Reader (List ImportSpecifier) := do
  if (← peek).kind.isName then
    let first ← variableName
    let others ← (if (← accept ",") && !(← atWord "from") then importedNames g else pure [])
    return .default first :: others
  else
    importedNames g

/-- Reads an import declaration behind `import`, and behind `type` when it is
for types only. -/
def importFrom (g : Grammar) (start : Nat) (isTypeOnly : Bool) : Reader Tree := do
  let specifiers ← importSpecifiers g
  expectWord "from"
  let source ← moduleSource g
  endStatement
  return .importDeclaration ⟨← spanFrom start, isTypeOnly, specifiers, source⟩

/-- Reads the module behind `import name =`. -/
def importedModule (g : Grammar) : Reader Tree := do
  let second ← peekSecond
  if (← atWord "require") && second.kind.isMark "(" then
    take
    take
    let source ← stringLiteral
    expect ")"
    return source
  else
    dottedName g

/-- Reads an `import name = …` declaration behind `import`, and behind `type`
when it is for types only. -/
def importEquals (g : Grammar) (start : Nat) (isExport isTypeOnly : Bool) : Reader Tree := do
  require (← hasTypes)
  let name ← variableName
  expect "="
  let module ← importedModule g
  endStatement
  return .importEquals ⟨← spanFrom start, name, isExport, isTypeOnly⟩ module

/-- Reads an import declaration for types only behind `import`. -/
def typeImport (g : Grammar) (start : Nat) : Reader Tree := do
  require (← hasTypes)
  expectWord "type"
  importEquals g start false true <|> importFrom g start true

/-- Reads an import declaration of a phase behind `import`. -/
def phasedImport (g : Grammar) (start : Nat) : Reader Tree := do
  require (importPhases.any (← peek).kind.isKeyword)
  take
  importFrom g start false

/-- Reads an import declaration of any form behind `import`. -/
def importRest (g : Grammar) (start : Nat) : Reader Tree := do
  match (← peek).kind with
  | .string _ =>
    let source ← moduleSource g
    endStatement
    return .importDeclaration ⟨← spanFrom start, false, [], source⟩
  | _ =>
    importEquals g start false false <|> importFrom g start false <|>
      typeImport g start <|> phasedImport g start

/-- Reads an import declaration of any form. -/
def importItem (g : Grammar) : Reader Tree := do
  let start ← here
  expectWord "import"
  return .anchored .moduleItem start (← importRest g start)

/-! ## Exports -/

/-- Reads a specifier of an export. -/
def exportSpecifier : Reader (List Tree) := do
  let found ← specifier exportedName
  let renamed := match found.renamed with
    | some name => name.identifiers
    | none => []
  return found.name.identifiers ++ renamed

/-- Reads the module that names are exported from, if there is one. -/
def exportSource (g : Grammar) : Reader Unit := do
  if ← acceptWord "from" then
    let _ ← moduleSource g

/-- Reads an export of names, from its opening brace on. -/
def exportNames (g : Grammar) (start : Nat) : Reader Tree := do
  expect "\x7b"
  let names ← bracedItems exportSpecifier g.fuel
  exportSource g
  endStatement
  branchFrom .exportNames start names.flatten

/-- Reads the name that everything in a module is exported under. -/
def exportedIdentifiers : Reader (List Tree) := do return (← exportedName).identifiers

/-- Reads an export of everything in a module, from its star on. -/
def exportAll (g : Grammar) (start : Nat) : Reader Tree := do
  expect "*"
  let name ← (if ← acceptWord "as" then exportedIdentifiers else pure [])
  expectWord "from"
  let _ ← moduleSource g
  endStatement
  branchFrom (if name.isEmpty then .exportAll else .exportNames) start name

/-- Reads a function that is exported by default. -/
def defaultFunction (g : Grammar) : Reader Tree := do
  let start ← here
  let generator ← functionHead
  let name ← singleIf (← peek).kind.isName (nameAs .functionName)
  let function ← function g generator []
  branchFrom .functionExpression start (name ++ [function])

/-- Reads what is exported by default, its decorators being read already. -/
def defaultValue (g : Grammar) (marks : List Tree) : Reader Tree := do
  let second ← peekSecond
  if (← atWord "function") || (← atAsyncFunction) then
    defaultFunction g
  else if ← atClass then
    anonymousClass g (← here) marks
  else if (← hasTypes) && (← atWord "interface") && second.kind.isName then
    interface g
  else
    let value ← g.read .assignment
    endStatement
    return value

/-- Reads a default export behind `default`. -/
def exportDefault (g : Grammar) (start : Nat) (marks : List Tree) : Reader Tree := do
  let more ← decorators g
  branchFrom .exportDefault start [← defaultValue g (marks ++ more)]

/-- Reads the names that are exported behind a first one. -/
def otherExports (g : Grammar) : Reader (List (List Tree)) := do
  if ← accept "," then
    if ← accept "*" then
      expectWord "as"
      return [← exportedIdentifiers]
    else
      expect "\x7b"
      bracedItems exportSpecifier g.fuel
  else
    return []

/-- Reads an `import name = …` declaration behind `export`. -/
def exportedImport (g : Grammar) (start : Nat) : Reader Tree := do
  expectWord "import"
  importEquals g start true false <|> (do expectWord "type"; importEquals g start true true)

/-- Reads an export behind `export`. -/
def exportRest (g : Grammar) (start : Nat) (marks : List Tree) : Reader Tree := do
  let types ← hasTypes
  let second ← peekSecond
  if ← acceptWord "default" then
    exportDefault g start marks
  else if ← atMark "*" then
    exportAll g start
  else if ← atMark "\x7b" then
    exportNames g start
  else if types && (← atWord "type") && second.kind.isMark "\x7b" then
    take
    exportNames g start
  else if types && (← atWord "type") && second.kind.isMark "*" then
    take
    exportAll g start
  else if types && (← atWord "import") then
    exportedImport g start
  else if types && (← atMark "=") then
    take
    let value ← expression g
    endStatement
    branchFrom .exportAssignment start [value]
  else if types && (← atWord "as") && second.kind.isKeyword "namespace" then
    take
    take
    let id ← anyName
    endStatement
    branchFrom .namespaceExport start [.identifier .exportName id]
  else if !types && (← peek).kind.isName &&
      (second.kind.isKeyword "from" || second.kind.isMark ",") then
    let id ← anyName
    let names ← otherExports g
    expectWord "from"
    let _ ← moduleSource g
    endStatement
    branchFrom .exportNames start (.identifier .exportName id :: names.flatten)
  else if types && (← atWord "declare") && second.kind.isWord then
    branchFrom .exportDeclaration start [← ambientDeclaration g marks]
  else
    branchFrom .exportDeclaration start [← declaration g marks]

/-- Reads an export of any form, the decorators before it being read
already. -/
def exportItem (g : Grammar) (marks : List Tree) : Reader Tree := do
  let start ← here
  expectWord "export"
  return .anchored .moduleItem start (← exportRest g start marks)

/-! ## Items -/

/-- Reads a top-level item.  In a dialect without modules it is a
statement. -/
def moduleItem (g : Grammar) : Reader Tree := do
  let modules := (← get).dialect.modules
  let second ← peekSecond
  if !modules then
    g.read .statement
  else if (← atWord "import") && !second.kind.isMark "(" && !second.kind.isMark "." then
    importItem g
  else if ← atWord "export" then
    exportItem g []
  else if ← atMark "@" then
    (do exportItem g (← decorators g)) <|> g.read .statement
  else
    g.read .statement

end SdkMigration.Grammar
