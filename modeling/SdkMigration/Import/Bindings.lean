import SdkMigration.Mapping.Path

/-!
# Bindings of the module

What a file binds from the module: single exports by name, and the module as
a whole under an alias.  While references are rewritten, each binding learns
what it is needed for afterwards: a single export the first namespace that a
reference through it was moved to, and an alias whether it was used.

A tentative alias stands for the global name of the module in a file that
does not import it.  It is kept only when it was used.
-/

namespace SdkMigration

/-- A single export that is bound by name. -/
structure NamedImport where
  /-- The name under which the module exports it. -/
  exported : String
  /-- The name it is bound to, when that is another one. -/
  renamed : Option String := none
  /-- The first namespace a reference through it was moved to. -/
  target : Option String := none
  /-- Whether references to the bound name are left. -/
  keepsLocalBinding : Bool := false
  isTypeOnly : Bool := false
deriving DecidableEq, Repr

namespace NamedImport

/-- The name it is bound to. -/
def localName (named : NamedImport) : String := named.renamed.getD named.exported

/-- Whether what is imported in its place no longer binds that name. -/
def dropsLocalBinding (named : NamedImport) : Bool :=
  match named.target with
  | some target => target != named.localName
  | none => false

end NamedImport

/-- How the module is imported as a whole. -/
inductive WholeStyle where
  /-- `import alias from "module"` -/
  | default
  /-- `import * as alias from "module"` -/
  | namespace
  /-- `import alias = require("module")` -/
  | requireEquals
deriving DecidableEq, Repr

/-- The module as a whole under an alias. -/
structure WholeImport where
  name : String
  style : WholeStyle
  tentative : Bool := false
  /-- Whether a reference through it was rewritten. -/
  matched : Bool := false
deriving DecidableEq, Repr

/-- The binding that a reference goes through. -/
inductive Origin where
  | named (index : Nat)
  | whole (index : Nat)
deriving DecidableEq, Repr

/-- Everything a file binds from the module. -/
structure Bindings where
  named : List NamedImport := []
  whole : List WholeImport := []
deriving DecidableEq, Repr

namespace Bindings

/-- Whether nothing is bound. -/
def isEmpty (bindings : Bindings) : Bool := bindings.named.isEmpty && bindings.whole.isEmpty

/-- The first alias of the given name. -/
def wholeIndex? (bindings : Bindings) (name : String) : Option Nat :=
  bindings.whole.findIdx? fun found => found.name == name

/-- The first single export bound to the given name. -/
def namedIndex? (bindings : Bindings) (name : String) : Option Nat :=
  bindings.named.findIdx? fun found => found.localName == name

/-- Whether the name is an alias of the module. -/
def isAlias (bindings : Bindings) (name : String) : Bool := (bindings.wholeIndex? name).isSome

/-- Whether the name is bound to the module or to one of its exports. -/
def tracks (bindings : Bindings) (name : String) : Bool :=
  bindings.isAlias name || (bindings.namedIndex? name).isSome

/-- Binds one more single export. -/
def addNamed (bindings : Bindings) (named : NamedImport) : Bindings :=
  { bindings with named := bindings.named ++ [named] }

/-- Binds one more alias. -/
def addWhole (bindings : Bindings) (whole : WholeImport) : Bindings :=
  { bindings with whole := bindings.whole ++ [whole] }

/-- Changes the entry at an index, if there is one. -/
def changeAt (change : α → α) : Nat → List α → List α
  | _, [] => []
  | 0, entry :: rest => change entry :: rest
  | index + 1, entry :: rest => entry :: changeAt change index rest

/-- Records that a reference through a binding was moved to a path with the
given first name. -/
def recordMatch (bindings : Bindings) (origin : Origin) (target : String) : Bindings :=
  match origin with
  | .named index =>
    let record (named : NamedImport) : NamedImport :=
      { named with target := named.target <|> some target }
    { bindings with named := changeAt record index bindings.named }
  | .whole index =>
    let record (whole : WholeImport) : WholeImport := { whole with matched := true }
    { bindings with whole := changeAt record index bindings.whole }

/-- Records that references to the bound name of a single export are left. -/
def keepLocal (bindings : Bindings) (index : Nat) : Bindings :=
  let record (named : NamedImport) : NamedImport := { named with keepsLocalBinding := true }
  { bindings with named := changeAt record index bindings.named }

/-- Adds a tentative alias, unless the name is bound already. -/
def addTentative (bindings : Bindings) (name : String) : Bindings :=
  if bindings.tracks name then bindings
  else bindings.addWhole { name, style := .namespace, tentative := true }

/-- Drops the tentative aliases that were not used. -/
def settle (bindings : Bindings) : Bindings :=
  { bindings with whole := bindings.whole.filter fun found => !found.tentative || found.matched }

/-- Whether a tentative alias is among the bindings. -/
def hasTentative (bindings : Bindings) : Bool := bindings.whole.any (·.tentative)

end Bindings

end SdkMigration
