import SdkMigration.Import.Bindings
import SdkMigration.Text.NameChars

/-!
# Import declarations

The declarations that bindings call for: one with every name that is taken
from the module, in the order in which the names first come up, and one for
every alias.  When nothing is bound but the module was loaded for its side
effects, it still is.
-/

namespace SdkMigration

/-- The names that no binding can have, in modules and in classes. -/
def unusableNames : List String :=
  ["arguments", "await", "break", "case", "catch", "class", "const", "continue", "debugger",
    "default", "delete", "do", "else", "enum", "eval", "export", "extends", "false", "finally",
    "for", "function", "if", "implements", "import", "in", "instanceof", "interface", "let",
    "new", "null", "package", "private", "protected", "public", "return", "static", "super",
    "switch", "this", "throw", "true", "try", "typeof", "var", "void", "while", "with", "yield"]

/-- Whether a name can be written without quotes. -/
def isPlainName (name : String) : Bool :=
  match name.toList with
  | [] => false
  | first :: rest =>
    NameChars.canStart first && rest.all NameChars.canContinue && !unusableNames.contains name

namespace Declarations

/-- The characters of a quoted text: a backslash and a quotation mark are
written with a backslash before them. -/
def escape : List Char → List Char
  | [] => []
  | c :: rest =>
    if c = '\\' ∨ c = '"' then '\\' :: c :: escape rest else c :: escape rest

/-- A text in quotation marks. -/
def quoted (text : String) : String := "\"" ++ String.ofList (escape text.toList) ++ "\""

/-- An exported name as it is written in a specifier. -/
def exportedName (name : String) : String := if isPlainName name then name else quoted name

/-- The specifier that binds a single export as it was bound before. -/
def sameBinding (named : NamedImport) : String :=
  match named.renamed with
  | some name => exportedName named.exported ++ " as " ++ name
  | none => exportedName named.exported

/-- The specifiers that a single export calls for. -/
def specifiersOf (named : NamedImport) : List String :=
  match named.target with
  | some target => if named.keepsLocalBinding then [target, sameBinding named] else [target]
  | none => [sameBinding named]

/-- A specifier with whether it is for types only. -/
structure Specifier where
  text : String
  isTypeOnly : Bool
deriving DecidableEq, Repr

/-- Adds a specifier.  One that is there already stays in its place, and is
for types only when both are. -/
def addSpecifier (text : String) (isTypeOnly : Bool) : List Specifier → List Specifier
  | [] => [⟨text, isTypeOnly⟩]
  | found :: rest =>
    if found.text = text then ⟨text, found.isTypeOnly && isTypeOnly⟩ :: rest
    else found :: addSpecifier text isTypeOnly rest

/-- The specifiers that single exports call for. -/
def specifiers (named : List NamedImport) : List Specifier :=
  named.foldl
    (fun found next =>
      (specifiersOf next).foldl (fun found text => addSpecifier text next.isTypeOnly found) found)
    []

/-- A declaration with the given specifiers. -/
def namedDeclaration (module : String) (found : List Specifier) : String :=
  let allTypeOnly := found.all (·.isTypeOnly)
  let one (specifier : Specifier) : String :=
    if specifier.isTypeOnly && !allTypeOnly then "type " ++ specifier.text else specifier.text
  "import " ++ (if allTypeOnly then "type " else "") ++ "\x7b " ++
    ", ".intercalate (found.map one) ++ " \x7d from " ++ quoted module ++ ";"

/-- The declaration of an alias. -/
def wholeDeclaration (module : String) (whole : WholeImport) : String :=
  let target :=
    match whole.style with
    | .default => whole.name ++ " from " ++ quoted module
    | .namespace => "* as " ++ whole.name ++ " from " ++ quoted module
    | .requireEquals => whole.name ++ " = require(" ++ quoted module ++ ")"
  "import " ++ target ++ ";"

/-- The first import of every alias, `seen` being the aliases met before. -/
def distinctAliases (seen : List String) : List WholeImport → List WholeImport
  | [] => []
  | whole :: rest =>
    if seen.contains whole.name then distinctAliases seen rest
    else whole :: distinctAliases (whole.name :: seen) rest

end Declarations

/-- The declarations that bindings of a module call for, one a line. -/
def Bindings.declarations (bindings : Bindings) (module : String) (sideEffect : Bool) :
    List String :=
  let found := Declarations.specifiers bindings.named
  let named := if found.isEmpty then [] else [Declarations.namedDeclaration module found]
  let whole := (Declarations.distinctAliases [] bindings.whole).map
    (Declarations.wholeDeclaration module)
  match named ++ whole with
  | [] => if sideEffect then ["import " ++ Declarations.quoted module ++ ";"] else []
  | lines => lines

end SdkMigration
