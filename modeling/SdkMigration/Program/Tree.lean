import SdkMigration.Text.Span

/-!
# Syntax trees

A program is read into a tree that keeps what a migration looks at and folds
everything else into plain branches.

Identifiers come in three forms, and the difference carries the whole
migration.  `Tree.identifier` is a name that is looked up or that names a
declaration, a label or a type; `Tree.binding` is a variable or parameter
being bound; the property after a dot is part of `Tree.member` and is no
node of its own.

The children of a node stand in the order in which they are visited.  That
is the order of the grammar's own parts and not always that of the text: the
body of a class comes before its `extends` clause, the body of a function
before its return type.

Some nodes mark a place before which a comment line can stand.  Such a node
is wrapped in `Tree.anchored` together with the position where it starts.
-/

namespace SdkMigration

/-- A name as it is spelled after escapes are resolved, with its place. -/
structure Identifier where
  name : String
  span : Span
deriving DecidableEq

/-- What an identifier that is not bound as a variable stands for. -/
inductive Role where
  | reference
  | functionName
  | className
  | enumName
  | interfaceName
  | aliasName
  | namespaceName
  | enumMember
  | typeParameter
  | label
  | exportName
deriving DecidableEq

/-- Declarations that introduce a value under a name of their own. -/
inductive DeclarationKind where
  | functionValue
  | classValue
  | enumValue
deriving DecidableEq

/-- The nodes that a comment line can be placed before. -/
inductive AnchorKind where
  | moduleItem
  | statement
  | expression
  | declarator
  | classMember
  | property
deriving DecidableEq

/-- Nodes without parts that matter. -/
inductive LeafKind where
  | literal
  | keyword
  | privateName
  | empty
  | superCallee
  | importCallee
deriving DecidableEq

/-- Nodes that only hold their children together. -/
inductive BranchKind where
  -- expressions
  | array
  | object
  | parenthesized
  | sequence
  | unary
  | update
  | logical
  | coalesce
  | binary
  | assign
  | conditional
  | element
  | privateMember
  | superMember
  | new
  | template
  | taggedTemplate
  | arrow
  | functionExpression
  | classExpression
  | yield
  | await
  | spread
  | keyValue
  | assignProperty
  | method
  | accessor
  | typeAssertion
  | typeCast
  | nonNull
  | instantiation
  | jsxElement
  | jsxAttribute
  | jsxContainer
  | jsxMember
  -- patterns, functions and classes
  | arrayPattern
  | objectPattern
  | rest
  | defaulted
  | objectEntry
  | parameters
  | parameter
  | function
  | block
  | decorator
  | classProperty
  | staticBlock
  -- statements and declarations
  | expressionStatement
  | variableDeclaration
  | declarator
  | labeled
  | jump
  | condition
  | loop
  | switch
  | switchCase
  | try
  | catch
  | with
  | return
  | throw
  | interface
  | typeAlias
  | enumMember
  | namespace
  | exportDeclaration
  | exportNames
  | exportDefault
  | exportAll
  | exportAssignment
  | namespaceExport
  -- types
  | unionType
  | conditionalType
  | typeOperator
  | arrayType
  | indexedType
  | tupleType
  | tupleElement
  | functionType
  | typeLiteral
  | typeMember
  | mappedType
  | typeQuery
  | typePredicate
  | inferType
  | importType
  | templateType
  | typeParameter
deriving DecidableEq

/-- A name taken from another module. -/
inductive ImportSpecifier where
  /-- `{ imported as localName }`, or `{ localName }` without an `imported`. -/
  | named (imported : Option String) (localName : Identifier) (isTypeOnly : Bool)
  | default (localName : Identifier)
  | whole (localName : Identifier)
deriving DecidableEq

/-- The identifier that a specifier binds in the importing file. -/
def ImportSpecifier.localName : ImportSpecifier → Identifier
  | .named _ name _ => name
  | .default name => name
  | .whole name => name

/-- An `import … from "source"` declaration. -/
structure ImportDeclaration where
  span : Span
  isTypeOnly : Bool
  specifiers : List ImportSpecifier
  source : String
deriving DecidableEq

/-- The left part of an `import name = …` declaration. -/
structure ImportEquals where
  span : Span
  name : Identifier
  isExport : Bool
  isTypeOnly : Bool
deriving DecidableEq

/-- A syntax tree. -/
inductive Tree where
  | leaf (kind : LeafKind) (span : Span)
  /-- A string literal with its value. -/
  | text (value : String) (span : Span)
  | identifier (role : Role) (id : Identifier)
  /-- A bound variable with its type annotation, if any. -/
  | binding (id : Identifier) (type : List Tree)
  /-- An access `object.property`, or `object?.property` when `optional`. -/
  | member (span : Span) (object : Tree) (optional : Bool) (property : Identifier)
  | call (span : Span) (callee : Tree) (arguments typeArguments : List Tree)
  /-- A dotted name in a place where a type or namespace is named. -/
  | qualified (span : Span) (left : Tree) (right : Identifier)
  | typeReference (span : Span) (name : Tree) (arguments : List Tree)
  /-- An entry of an `implements` clause or of an interface's `extends` clause. -/
  | heritage (span : Span) (value : Tree) (arguments : List Tree)
  | declaration (kind : DeclarationKind) (id : Identifier) (parts : List Tree)
  | importDeclaration (found : ImportDeclaration)
  /-- `import name = module`, where the module is a `text` when it is given by
  `require("…")` and a dotted name otherwise. -/
  | importEquals (header : ImportEquals) (module : Tree)
  | anchored (kind : AnchorKind) (start : Nat) (inner : Tree)
  | branch (kind : BranchKind) (span : Span) (children : List Tree)

namespace Tree

instance : Inhabited Tree := ⟨.leaf .empty default⟩

/-- The tree without the anchor around it. -/
def core : Tree → Tree
  | .anchored _ _ inner => inner
  | tree => tree

/-- The position where a tree starts. -/
def start : Tree → Nat
  | .leaf _ span => span.start
  | .text _ span => span.start
  | .identifier _ id => id.span.start
  | .binding id _ => id.span.start
  | .member span _ _ _ => span.start
  | .call span _ _ _ => span.start
  | .qualified span _ _ => span.start
  | .typeReference span _ _ => span.start
  | .heritage span _ _ => span.start
  | .declaration _ id _ => id.span.start
  | .importDeclaration found => found.span.start
  | .importEquals header _ => header.span.start
  | .anchored _ start _ => start
  | .branch _ span _ => span.start

/-- Adds a type annotation to a pattern: to the bound name itself, or behind
the elements of a destructuring pattern. -/
def annotate (type : List Tree) : Tree → Tree
  | .binding id _ => .binding id type
  | .branch kind span children => .branch kind span (children ++ type)
  | tree => tree

end Tree

/-- A program is the list of its top-level items. -/
structure Program where
  items : List Tree

end SdkMigration
