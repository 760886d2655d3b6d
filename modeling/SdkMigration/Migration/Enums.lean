import SdkMigration.Migration.Chain
import SdkMigration.Migration.Draft

/-!
# Enumerations

The third stage of a migration replaces the names of enumerations, wherever
they stand: as a value, before one of their members, or as a type.

A chain that is the source of a rule is replaced by its target.  Where none
is, the last name may still tell the enumeration.  Behind an alias of the
module the end of the chain is replaced then; a single export is replaced
when a rule for a longer path ends with its name.
-/

namespace SdkMigration

/-- The first rule whose source ends with the given name. -/
def ruleEndingWith? (rules : List Rule) (name : String) : Option Rule :=
  rules.find? fun rule => rule.source.last == name

/-- What the stage looks up. -/
structure EnumRules where
  text : Text
  lookups : Lookups
  rules : List Rule

namespace Draft

/-- Replaces the part of a chain at a span, unless it reads like the new text
already.  The second part tells whether the chain is settled. -/
def replaceEnum (draft : Draft) (text : Text) (span : Span) (newText : Text) (origin : Origin)
    (target : NamePath) : Draft × Bool :=
  if text.slice span = newText then (draft, true)
  else
    let (edited, done) := draft.tryEdit ⟨span, newText⟩
    if done then
      ((edited.count fun report =>
        { report with rewrittenEnums := report.rewrittenEnums + 1 }).recordMatch origin target,
        true)
    else (edited, false)

/-- Replaces a chain that is the source of a rule. -/
def rewriteExactEnum (draft : Draft) (rules : EnumRules) (chain : Chain) : Draft × Bool :=
  if draft.bindings.tracks chain.root then
    match rules.lookups.find? chain.names with
    | none => (draft, false)
    | some replacement =>
      if replacement.isIdentity then (draft, true)
      else
        draft.replaceEnum rules.text chain.span (chain.render replacement.target)
          replacement.origin replacement.target
  else (draft, false)

/-- Where the end of a chain starts that a rule stands for.  The alias itself
never belongs to it. -/
def suffixStart (chain : Chain) (rule : Rule) : Nat :=
  let index := max (chain.names.length - rule.source.names.length) 1
  ((chain.segments[index]?).getD chain.last).span.start

/-- Replaces the end of a chain behind an alias by the target of the rule for
the enumeration that the chain ends with. -/
def rewriteAliasedEnum (draft : Draft) (rules : EnumRules) (chain : Chain) (index : Nat) :
    Draft × Bool :=
  match chain.rest with
  | [] => (draft, false)
  | _ =>
    match ruleEndingWith? rules.rules chain.last.name with
    | none => (draft, false)
    | some rule =>
      if rule.target.names.isSuffixOf chain.names.tail then (draft, false)
      else
        let span := Span.between (suffixStart chain rule) chain.span.stop
        draft.replaceEnum rules.text span rule.target.dotted.toList (.whole index) rule.target

/-- Replaces a single name that is bound to an export which the rule for a
longer path ends with. -/
def rewriteNamedEnum (draft : Draft) (rules : EnumRules) (chain : Chain) : Draft × Bool :=
  match chain.rest, draft.bindings.namedIndex? chain.root with
  | [], some index =>
    let exported := (draft.bindings.named[index]?).map (·.exported)
    match exported.bind (ruleEndingWith? rules.rules) with
    | some rule =>
      if rule.source.rest.isEmpty then (draft, false)
      else
        draft.replaceEnum rules.text chain.span (chain.render rule.target) (.named index)
          rule.target
    | none => (draft, false)
  | _, _ => (draft, false)

/-- Deals with a chain that may name an enumeration. -/
def rewriteEnum (draft : Draft) (rules : EnumRules) (chain : Chain) : Draft × Bool :=
  if draft.bindings.tracks chain.root then
    let (next, done) := draft.rewriteExactEnum rules chain
    if done then (next, true)
    else
      match next.bindings.wholeIndex? chain.root with
      | some index => next.rewriteAliasedEnum rules chain index
      | none => next.rewriteNamedEnum rules chain
  else (draft, false)

/-- Deals with the chain that a tree is, if it is one. -/
def rewriteEnumTree (draft : Draft) (rules : EnumRules) (tree : Tree) : Draft × Bool :=
  match tree.chain? with
  | some chain => draft.rewriteEnum rules chain
  | none => (draft, false)

/-- Deals with an access as a whole, its last name counting as reached by a
plain access. -/
def rewriteWholeMember (draft : Draft) (rules : EnumRules) (object : Tree)
    (property : Identifier) : Draft × Bool :=
  match object.chain? with
  | some chain =>
    draft.rewriteExactEnum rules (chain.extend ⟨property.name, property.span, false⟩)
  | none => (draft, false)

end Draft

mutual

/-- Deals with the enumerations in a tree.  The parts of a chain that is
settled are left alone. -/
def Tree.rewriteEnums (rules : EnumRules) : Tree → Draft → Draft
  | .leaf _ _, draft => draft
  | .text _ _, draft => draft
  | .identifier _ _, draft => draft
  | .binding _ type, draft => rewriteAllEnums rules type draft
  | .member _ object _ property, draft =>
    let (first, settled) := draft.rewriteWholeMember rules object property
    if settled then first
    else
      let (second, settled) := first.rewriteEnumTree rules object
      if settled then second else object.rewriteEnums rules second
  | .call _ callee arguments typeArguments, draft =>
    rewriteAllEnums rules typeArguments
      (rewriteAllEnums rules arguments (callee.rewriteEnums rules draft))
  | .qualified _ left _, draft =>
    let (next, settled) := draft.rewriteEnumTree rules left
    if settled then next else left.rewriteEnums rules next
  | .typeReference _ name arguments, draft =>
    let (next, settled) := draft.rewriteEnumTree rules name
    rewriteAllEnums rules arguments (if settled then next else name.rewriteEnums rules next)
  | .heritage _ value arguments, draft =>
    rewriteAllEnums rules arguments (value.rewriteEnums rules draft)
  | .declaration _ _ parts, draft => rewriteAllEnums rules parts draft
  | .importDeclaration _, draft => draft
  | .importEquals _ module, draft => module.rewriteEnums rules draft
  | .anchored _ _ inner, draft => inner.rewriteEnums rules draft
  | .branch _ _ children, draft => rewriteAllEnums rules children draft

/-- Deals with the enumerations in trees. -/
def rewriteAllEnums (rules : EnumRules) : List Tree → Draft → Draft
  | [], draft => draft
  | tree :: rest, draft => rewriteAllEnums rules rest (tree.rewriteEnums rules draft)

end

/-- Deals with all enumerations in a program. -/
def Draft.rewriteEnums (draft : Draft) (text : Text) (program : Program) (rules : List Rule) :
    Draft :=
  if draft.bindings.isEmpty then draft
  else
    let (lookups, notes) := Lookups.build draft.bindings rules
    rewriteAllEnums ⟨text, lookups, rules⟩ program.items (draft.addNotes notes)

end SdkMigration
