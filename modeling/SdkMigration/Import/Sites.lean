import SdkMigration.Import.Bindings
import SdkMigration.Program.Visits
import SdkMigration.Text.Lines

/-!
# Where a file meets the module

Finds what a program binds from the module, where the declarations are that
do it, and where the module is loaded in a way that binds nothing that could
be followed.  It also tells whether the global name of the module is used and
whether the file gives that name a meaning of its own.
-/

namespace SdkMigration

/-! ## Names that are used and names that are declared -/

mutual

/-- Whether the name occurs as an identifier other than as a variable that is
bound or as the name of a function, class or enumeration. -/
def Tree.mentions (name : String) : Tree → Bool
  | .leaf _ _ => false
  | .text _ _ => false
  | .identifier _ id => id.name == name
  | .binding _ type => anyMentions name type
  | .member _ object _ _ => object.mentions name
  | .call _ callee arguments typeArguments =>
    callee.mentions name || anyMentions name arguments || anyMentions name typeArguments
  | .qualified _ left _ => left.mentions name
  | .typeReference _ reference arguments =>
    reference.mentions name || anyMentions name arguments
  | .heritage _ value arguments => value.mentions name || anyMentions name arguments
  | .declaration _ _ parts => anyMentions name parts
  | .importDeclaration _ => false
  | .importEquals _ _ => false
  | .anchored _ _ inner => inner.mentions name
  | .branch _ _ children => anyMentions name children

/-- Whether the name occurs so in one of the trees. -/
def anyMentions (name : String) : List Tree → Bool
  | [] => false
  | tree :: rest => tree.mentions name || anyMentions name rest

end

mutual

/-- Whether the name is bound as a variable, declared as a function, class or
enumeration, or imported. -/
def Tree.declares (name : String) : Tree → Bool
  | .leaf _ _ => false
  | .text _ _ => false
  | .identifier _ _ => false
  | .binding id type => id.name == name || anyDeclares name type
  | .member _ object _ _ => object.declares name
  | .call _ callee arguments typeArguments =>
    callee.declares name || anyDeclares name arguments || anyDeclares name typeArguments
  | .qualified _ left _ => left.declares name
  | .typeReference _ reference arguments =>
    reference.declares name || anyDeclares name arguments
  | .heritage _ value arguments => value.declares name || anyDeclares name arguments
  | .declaration _ id parts => id.name == name || anyDeclares name parts
  | .importDeclaration found => found.specifiers.any fun specifier =>
      specifier.localName.name == name
  | .importEquals header _ => header.name.name == name
  | .anchored _ _ inner => inner.declares name
  | .branch _ _ children => anyDeclares name children

/-- Whether one of the trees gives the name a meaning so. -/
def anyDeclares (name : String) : List Tree → Bool
  | [] => false
  | tree :: rest => tree.declares name || anyDeclares name rest

end

/-! ## Declarations that import the module -/

/-- The single export that a specifier binds, if it binds one. -/
def ImportSpecifier.named? (declared : Bool) : ImportSpecifier → Option NamedImport
  | .named imported localName isTypeOnly =>
    let exported := imported.getD localName.name
    some
      { exported
        renamed := if localName.name = exported then none else some localName.name
        isTypeOnly := declared || isTypeOnly }
  | _ => none

/-- The alias that a specifier binds, if it binds one. -/
def ImportSpecifier.whole? : ImportSpecifier → Option WholeImport
  | .default name => some { name := name.name, style := .default }
  | .whole name => some { name := name.name, style := .namespace }
  | .named _ _ _ => none

/-- Adds what a declaration binds. -/
def Bindings.addDeclaration (bindings : Bindings) (found : ImportDeclaration) : Bindings :=
  { named := bindings.named ++ found.specifiers.filterMap (·.named? found.isTypeOnly)
    whole := bindings.whole ++ found.specifiers.filterMap (·.whole?) }

/-- How the module is loaded without binding anything. -/
inductive LoadKind where
  | require
  | dynamicImport
deriving DecidableEq, Repr

/-- A load of the module that cannot be followed. -/
structure OpaqueLoad where
  kind : LoadKind
  /-- Where a comment about it goes. -/
  position : Nat
deriving DecidableEq, Repr

/-- Where a file meets the module. -/
structure ImportSites where
  bindings : Bindings := {}
  /-- The declarations that import the module. -/
  declarations : List Span := []
  /-- Whether it is imported for its side effects alone. -/
  sideEffect : Bool := false
  opaqueLoads : List OpaqueLoad := []
  /-- Whether the global name of the module is used. -/
  aliasMentioned : Bool := false
  /-- Whether the file gives the global name a meaning of its own. -/
  aliasDeclared : Bool := false
  /-- Where the first item starts. -/
  firstItem : Option Nat := none

namespace ImportSites

/-- Whether the global name stands for the module. -/
def usesImplicitAlias (sites : ImportSites) : Bool :=
  sites.aliasMentioned && !sites.aliasDeclared &&
    (sites.sideEffect || sites.declarations.isEmpty)

/-- Adds what a top-level item contributes. -/
def addItem (module : String) (sites : ImportSites) (item : Tree) : ImportSites :=
  match item.core with
  | .importDeclaration found =>
    if found.source = module then
      { sites with
        bindings := sites.bindings.addDeclaration found
        declarations := sites.declarations ++ [found.span]
        sideEffect := sites.sideEffect || found.specifiers.isEmpty }
    else sites
  | .importEquals header (.text source _) =>
    if source = module ∧ !header.isExport then
      { sites with
        bindings :=
          sites.bindings.addWhole { name := header.name.name, style := .requireEquals }
        declarations := sites.declarations ++ [header.span] }
    else sites
  | _ => sites

end ImportSites

/-! ## Loads that cannot be followed -/

/-- The value of the first argument, when it is a string literal. -/
def firstText? (arguments : List Tree) : Option String :=
  match arguments with
  | first :: _ =>
    match first.core with
    | .text value _ => some value
    | _ => none
  | [] => none

/-- How a call loads a module, if it is a call that does. -/
def CallSite.loadKind? (site : CallSite) : Option LoadKind :=
  match site.callee.core with
  | .identifier _ id => if id.name = "require" then some .require else none
  | .leaf .importCallee _ => some .dynamicImport
  | _ => none

/-- The load of the module at a stop of a walk, if there is one. -/
def opaqueLoad? (text : Text) (module : String) : Visit → Option OpaqueLoad
  | .call site around =>
    match site.loadKind? with
    | some kind =>
      if firstText? site.arguments = some module then
        some ⟨kind, insertionPoint text.lineIndex around site.start⟩
      else none
    | none => none
  | .identifier _ _ => none

/-- Where a program meets the module. -/
def Program.importSites (program : Program) (text : Text) (module globalName : String) :
    ImportSites :=
  let start : ImportSites :=
    { opaqueLoads := (program.visits fun _ => false).filterMap (opaqueLoad? text module)
      aliasMentioned := anyMentions globalName program.items
      aliasDeclared := anyDeclares globalName program.items
      firstItem := program.items.head?.map Tree.start }
  program.items.foldl (ImportSites.addItem module) start

end SdkMigration
