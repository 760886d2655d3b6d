import SdkMigration.Text.Lines

/-!
# Advisories

Comment lines that ask a reader to look at a place that could not be migrated
all the way.  One that stands directly above a place already is not written
again.
-/

namespace SdkMigration

/-- What a comment line asks for. -/
inductive Advisory where
  | callbackToPromise
  | contextSchemaChanged
  | requireNotHandled
  | dynamicImportNotHandled
  | unmigratedReference
deriving DecidableEq, Repr

namespace Advisory

/-- The comment line. -/
def comment : Advisory → String
  | .callbackToPromise => "// TODO (Teams JS migration): This API has been converted from a callback-based API to a promise-based API. Please review the call site."
  | .contextSchemaChanged => "// TODO (Teams JS migration): The schema of the context object returned by app.getContext() has changed. Please review how its properties are used."
  | .requireNotHandled => "// TODO (Teams JS migration): require() of the legacy module is not handled. Please migrate the usages below manually."
  | .dynamicImportNotHandled => "// TODO (Teams JS migration): Dynamic import() of the legacy module is not handled. Please migrate the usages manually."
  | .unmigratedReference => "// TODO (Teams JS migration): This reference to a legacy import could not be migrated. Please migrate it manually."

/-- All advisories. -/
def all : List Advisory :=
  [.callbackToPromise, .contextSchemaChanged, .requireNotHandled, .dynamicImportNotHandled,
    .unmigratedReference]

/-- The advisory that ends a line, if one does. -/
def endOf? (line : Text) : Option Advisory :=
  all.find? fun advisory => advisory.comment.toList.isSuffixOf line.trimEnd

/-- The advisories of the lines up to the first that ends with none. -/
def unbroken : List Text → List Advisory
  | [] => []
  | line :: rest =>
    match endOf? line with
    | some advisory => advisory :: unbroken rest
    | none => []

/-- The advisories on the lines directly above a position.  There are none
when something else stands before the position on its own line. -/
def above (text : Text) (position : Nat) : List Advisory :=
  let lineStart := text.lineStart position
  if Text.isAllBlank (text.slice (Span.between lineStart position)) then
    unbroken (Text.lines (text.take lineStart)).reverse
  else []

/-- What is inserted for an advisory at a position: the comment line, and the
indentation of the line for what it pushes down. -/
def insertion (text : Text) (position : Nat) (advisory : Advisory) : Text :=
  advisory.comment.toList ++ '\n' :: text.lineIndent position

end Advisory

end SdkMigration
