import SdkMigration.Migration.Chain
import SdkMigration.Migration.Draft

/-!
# Types

The second stage of a migration replaces the names of types: in type
references and in the clauses in which a class or an interface names what it
builds on.
-/

namespace SdkMigration

mutual

/-- The chains that name a type in a tree. -/
def Tree.typeChains : Tree → List Chain
  | .leaf _ _ => []
  | .text _ _ => []
  | .identifier _ _ => []
  | .binding _ type => allTypeChains type
  | .member _ object _ _ => object.typeChains
  | .call _ callee arguments typeArguments =>
    callee.typeChains ++ allTypeChains arguments ++ allTypeChains typeArguments
  | .qualified _ left _ => left.typeChains
  | .typeReference _ name arguments => name.chain?.toList ++ allTypeChains arguments
  | .heritage _ value arguments =>
    value.chain?.toList ++ value.typeChains ++ allTypeChains arguments
  | .declaration _ _ parts => allTypeChains parts
  | .importDeclaration _ => []
  | .importEquals _ _ => []
  | .anchored _ _ inner => inner.typeChains
  | .branch _ _ children => allTypeChains children

/-- The chains that name a type in trees. -/
def allTypeChains : List Tree → List Chain
  | [] => []
  | tree :: rest => tree.typeChains ++ allTypeChains rest

end

namespace Draft

/-- Deals with a name of a type. -/
def rewriteType (lookups : Lookups) (draft : Draft) (chain : Chain) : Draft :=
  match lookups.find? chain.names with
  | none => draft
  | some replacement =>
    if replacement.isIdentity then
      draft.recordMatch replacement.origin replacement.target
    else
      let (edited, done) := draft.tryEdit ⟨chain.span, replacement.target.dotted.toList⟩
      if done then
        (edited.count fun report =>
          { report with rewrittenTypes := report.rewrittenTypes + 1 }).recordMatch
            replacement.origin replacement.target
      else edited

/-- Deals with all names of types in a program. -/
def rewriteTypes (draft : Draft) (program : Program) (rules : List Rule) : Draft :=
  if draft.bindings.isEmpty then draft
  else
    let (lookups, notes) := Lookups.build draft.bindings rules
    (allTypeChains program.items).foldl (rewriteType lookups) (draft.addNotes notes)

end Draft

end SdkMigration
