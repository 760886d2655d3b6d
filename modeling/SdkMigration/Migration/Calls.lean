import SdkMigration.Migration.Chain
import SdkMigration.Migration.Draft

/-!
# Calls

The first stage of a migration replaces the callee of every call that a rule
for functions applies to.  A call that still passes a callback where the
function now returns a promise receives a comment.
-/

namespace SdkMigration

/-- The function whose result has changed its shape. -/
def contextFunction : String := "getContext"

/-- The replacement for a call, if a rule applies to it. -/
def Lookups.forCall? (lookups : Lookups) (site : CallSite) : Option Replacement :=
  match site.callee.chain? with
  | some chain => lookups.find? chain.names
  | none => none

/-- The comments for a call with the given number of arguments. -/
def callAdvisories (rule : Rule) (arguments : Nat) : List Advisory :=
  match rule.callback with
  | some position =>
    if position < arguments then
      if rule.source.last = contextFunction then
        [.callbackToPromise, .contextSchemaChanged]
      else [.callbackToPromise]
    else []
  | none => []

namespace Draft

/-- Writes the comments for a call. -/
def flagCall (draft : Draft) (text : Text) (site : CallSite) (around : List Nat)
    (advisories : List Advisory) : Draft :=
  match advisories with
  | [] => draft
  | _ =>
    let position := insertionPoint text.lineIndex around site.start
    let (flagged, inserted) := draft.insertComments text position advisories
    if inserted then
      flagged.count fun report => { report with flaggedCalls := report.flaggedCalls + 1 }
    else flagged

/-- Carries out a replacement of a callee. -/
def replaceCallee (draft : Draft) (chain : Chain) (replacement : Replacement) : Draft :=
  if replacement.isIdentity then
    draft.recordMatch replacement.origin replacement.target
  else
    let (edited, done) := draft.tryEdit ⟨chain.span, chain.render replacement.target⟩
    if done then
      (edited.count fun report =>
        { report with rewrittenCalls := report.rewrittenCalls + 1 }).recordMatch
          replacement.origin replacement.target
    else edited

/-- Deals with a call. -/
def rewriteCall (text : Text) (lookups : Lookups) (draft : Draft) (visit : Visit) : Draft :=
  match visit with
  | .identifier _ _ => draft
  | .call site around =>
    match site.callee.chain? with
    | none => draft
    | some chain =>
      match lookups.find? chain.names with
      | some replacement =>
        (draft.flagCall text site around
          (callAdvisories replacement.rule site.arguments.length)).replaceCallee chain
            replacement
      | none =>
        if draft.bindings.tracks chain.root then
          (draft.addNotes [.noFunctionRule chain.dotted]).count fun report =>
            { report with unmatchedReferences := report.unmatchedReferences + 1 }
        else draft

/-- Deals with all calls of a program. -/
def rewriteCalls (draft : Draft) (text : Text) (program : Program) (rules : List Rule) :
    Draft :=
  if draft.bindings.isEmpty then draft
  else
    let (lookups, notes) := Lookups.build draft.bindings rules
    let stops := program.visits fun site => (lookups.forCall? site).isSome
    stops.foldl (rewriteCall text lookups) (draft.addNotes notes)

end Draft

end SdkMigration
