import SdkMigration.Program.Tree

/-!
# Visits to calls and identifiers

A walk through a program in the order of its trees that stops at every call
and at every identifier, together with the starts of the nodes around it
before which a comment line can stand.  Imports, and variables and parameters
where they are bound, are passed over.

Whoever walks may consume a call's callee, which is passed over then.
-/

namespace SdkMigration

/-- A call, of a function or of `import` or `super`. -/
structure CallSite where
  callee : Tree
  arguments : List Tree
  start : Nat

/-- A stop of a walk.  The starts of the nodes around it come innermost
first. -/
inductive Visit where
  | call (site : CallSite) (around : List Nat)
  | identifier (id : Identifier) (around : List Nat)

mutual

/-- The stops in a tree, `around` being the starts of the nodes around it. -/
def Tree.visits (consumes : CallSite → Bool) (around : List Nat) : Tree → List Visit
  | .leaf _ _ => []
  | .text _ _ => []
  | .identifier _ id => [.identifier id around]
  | .binding _ type => visitsAll consumes around type
  | .member _ object _ _ => object.visits consumes around
  | .call span callee arguments typeArguments =>
    let site : CallSite := ⟨callee, arguments, span.start⟩
    .call site around ::
      ((if consumes site then [] else callee.visits consumes around) ++
        visitsAll consumes around arguments ++ visitsAll consumes around typeArguments)
  | .qualified _ left _ => left.visits consumes around
  | .typeReference _ name arguments =>
    name.visits consumes around ++ visitsAll consumes around arguments
  | .heritage _ value arguments =>
    value.visits consumes around ++ visitsAll consumes around arguments
  | .declaration _ id parts => .identifier id around :: visitsAll consumes around parts
  | .importDeclaration _ => []
  | .importEquals _ _ => []
  | .anchored _ start inner => inner.visits consumes (start :: around)
  | .branch _ _ children => visitsAll consumes around children

/-- The stops in trees. -/
def visitsAll (consumes : CallSite → Bool) (around : List Nat) : List Tree → List Visit
  | [] => []
  | tree :: rest => tree.visits consumes around ++ visitsAll consumes around rest

end

/-- The stops in a program. -/
def Program.visits (program : Program) (consumes : CallSite → Bool) : List Visit :=
  visitsAll consumes [] program.items

/-- The place for a comment line about a node: the start of the outermost
node around it that begins on the same line. -/
def insertionPoint (line : Nat → Nat) (around : List Nat) (start : Nat) : Nat :=
  (around.takeWhile fun outer => line outer == line start).foldl min start

end SdkMigration
