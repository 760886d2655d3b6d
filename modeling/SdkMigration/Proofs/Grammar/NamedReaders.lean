import SdkMigration.Proofs.Grammar.NamedTrees
import SdkMigration.Proofs.Grammar.Programs

/-!
# Programs are named well

Every production returns what is named well if those that it calls do, so all
of them do.  Two readers decide it.  `typeReference` takes the name of a type
from `dottedName`, and `importEquals` takes that of a module from
`importedModule`.  The other ones put together what they have read.
-/

namespace SdkMigration

set_option synthInstance.maxSize 4000

namespace Reader

variable {α : Type}

/-! ## Basic readers -/

instance (kind : BranchKind) (start : Nat) (children : List Tree) [WellNamed children] :
    NamesWell (branchFrom kind start children) := by
  unfold branchFrom; infer_instance

instance (kind : LeafKind) (start : Nat) : NamesWell (leafFrom kind start) := by
  unfold leafFrom; infer_instance

instance (role : Role) : NamesWell (nameAs role) := by unfold nameAs; infer_instance

theorem returns_stringLiteral :
    Returns (fun found => ∃ value span, found = .text value span) stringLiteral := by
  refine .bind fun token => ?_
  split
  · exact .bind fun _ => .pure ⟨_, _, rfl⟩
  · exact .failure

instance : NamesWell stringLiteral :=
  ⟨returns_stringLiteral.mono fun _ ⟨_, _, htext⟩ => htext ▸ trivial⟩

instance (reader : Reader Tree) [NamesWell reader] : NamesWell (single reader) := by
  unfold single; infer_instance

instance (condition : Bool) (reader : Reader Tree) [NamesWell reader] :
    NamesWell (singleIf condition reader) := by
  unfold singleIf; infer_instance

instance (close : String) (item : Reader Tree) [NamesWell item] (fuel : Nat) :
    NamesWell (itemsUntil close item fuel) := by
  induction fuel with
  | zero => unfold itemsUntil; infer_instance
  | succ fuel ih => unfold itemsUntil; infer_instance

instance (close : String) (item : Reader Tree) [NamesWell item] (fuel : Nat) :
    NamesWell (commaItems close item fuel) := by
  induction fuel with
  | zero => unfold commaItems; infer_instance
  | succ fuel ih => unfold commaItems; infer_instance

instance (continues : Reader Bool) (item : Reader Tree) [NamesWell item] (fuel : Nat) :
    NamesWell (itemsWhile continues item fuel) := by
  induction fuel with
  | zero => unfold itemsWhile; infer_instance
  | succ fuel ih => unfold itemsWhile; infer_instance

instance (item : Reader Tree) [NamesWell item] (fuel : Nat) :
    NamesWell (commaSeparated item fuel) := by
  unfold commaSeparated; infer_instance

instance [Names α] (change : Surroundings → Surroundings) (reader : Reader α) [NamesWell reader] :
    NamesWell (inside change reader) := by
  unfold inside; infer_instance

instance [Names α] (reader : Reader α) [NamesWell reader] : NamesWell (bracketed reader) := by
  unfold bracketed; infer_instance

instance [Names α] (reader : Nat → Reader α) [∀ start, NamesWell (reader start)] :
    NamesWell (fromHere reader) := by
  unfold fromHere; infer_instance

instance (reader : Reader (List Tree)) [NamesWell reader] : NamesWell (optional reader) := by
  have hsome : NamesWell (some <$> reader) := by
    rw [map_eq_pure_bind]
    infer_instance
  exact (inferInstance : NamesWell (some <$> reader <|> pure none))

instance (start : Nat) (tree : Tree) [h : WellNamed tree] :
    WellNamed (expressionAt start tree) :=
  ⟨h.holds⟩

end Reader

namespace Grammar

open Reader

/-- Whether all nonterminals of a grammar are read as what is named well. -/
class Naming (g : Grammar) : Prop where
  read : ∀ nonterminal, NamesWell (g.read nonterminal)

variable {g : Grammar}

/-! ## Names of types and modules -/

/-- Each name behind a dot leaves a dotted name. -/
theorem returns_moreNames {start : Nat} {left : Tree} (hleft : left.IsDottedName) (fuel : Nat) :
    Returns Tree.IsDottedName (dottedName.more start left fuel) := by
  induction fuel generalizing left with
  | zero => exact .failure
  | succ fuel ih =>
    exact .bind fun _ => .ite (.bind fun right => .bind fun span => ih hleft) (.pure hleft)

theorem returns_dottedName : Returns Tree.IsDottedName (dottedName g) := by
  refine .bind fun first => ?_
  have hfirst : (Tree.identifier .reference first).IsDottedName := trivial
  exact returns_moreNames hfirst g.fuel

theorem returns_importedModule : Returns Tree.IsModuleName (importedModule g) := by
  refine .bind fun second => .bind fun _ => .ite ?_ (returns_dottedName.mono fun _ => .inr)
  refine .bind fun _ => .bind fun _ => .bindOf returns_stringLiteral fun source hsource => ?_
  exact .bind fun _ => .pure (.inl hsource)

variable [h : g.Naming]

instance (nonterminal : Nonterminal) : NamesWell (g.read nonterminal) := h.read nonterminal

/-! ## Types -/

instance : NamesWell (colonType g) := by unfold colonType; infer_instance

instance (item : Reader Tree) [NamesWell item] (fuel : Nat) : NamesWell (angleItems item fuel) := by
  induction fuel with
  | zero => unfold angleItems; infer_instance
  | succ fuel ih => unfold angleItems; infer_instance

instance : NamesWell (typeArguments g) := by unfold typeArguments; infer_instance

instance : NamesWell (typeArgumentsOfName g) := by unfold typeArgumentsOfName; infer_instance

instance : NamesWell (typeParameter g) := by unfold typeParameter; infer_instance

instance : NamesWell (typeParameters g) := by unfold typeParameters; infer_instance

instance : NamesWell (dottedName g) :=
  ⟨returns_dottedName.mono fun _ => Tree.IsDottedName.wellNamed⟩

instance : NamesWell (statedType g) := by unfold statedType; infer_instance

instance : NamesWell (typeOrPredicate g) := by unfold typeOrPredicate; infer_instance

instance : NamesWell (resultType g) := by unfold resultType; infer_instance

instance : NamesWell (typedName g) := by unfold typedName; infer_instance

instance : NamesWell (typedParameter g) := by unfold typedParameter; infer_instance

instance : NamesWell (typedParameters g) := by unfold typedParameters; infer_instance

instance : NamesWell (typeMemberKey g) := by
  refine .bind fun token => ?_
  split <;> infer_instance

instance (start : Nat) : NamesWell (indexSignature g start) := by
  unfold indexSignature; infer_instance

instance (start : Nat) (key : List Tree) [WellNamed key] : NamesWell (signature g start key) := by
  unfold signature; infer_instance

instance (start : Nat) : NamesWell (keyedTypeMember g start) := by
  unfold keyedTypeMember; infer_instance

instance : NamesWell (unendedTypeMember g) := by unfold unendedTypeMember; infer_instance

instance : NamesWell (typeMember g) := by unfold typeMember; infer_instance

instance : NamesWell (typeMembers g) := by unfold typeMembers; infer_instance

instance : NamesWell (mappedType g) := by
  refine .bind fun start => .bind fun id => .bind fun source => ?_
  infer_instance

instance : NamesWell tupleLabel := by unfold tupleLabel; infer_instance

instance : NamesWell (tupleElement g) := by unfold tupleElement; infer_instance

instance : NamesWell (importType g) := by unfold importType; infer_instance

instance : NamesWell (typeQuery g) := by unfold typeQuery; infer_instance

/-- A reference to a type names it by a dotted name. -/
instance : NamesWell (typeReference g) := by
  refine ⟨.bind fun start => .bindOf returns_dottedName fun name hname => ?_⟩
  refine .bindOf NamesWell.returns fun arguments harguments => ?_
  exact .bind fun _ => .pure ⟨hname, harguments⟩

instance (tagged : Bool) (part : Reader Tree) [NamesWell part] (fuel : Nat) :
    NamesWell (templateParts tagged part fuel) := by
  induction fuel with
  | zero => unfold templateParts; infer_instance
  | succ fuel ih =>
    refine .bind fun token => ?_
    split <;> infer_instance

instance (start : Nat) : NamesWell (functionType g start) := by unfold functionType; infer_instance

instance : NamesWell (primaryType g) := by
  refine .bind fun token => ?_
  dsimp only
  split <;> infer_instance

instance (start : Nat) (type : Tree) [WellNamed type] (fuel : Nat) :
    NamesWell (typeBrackets g start type fuel) := by
  induction fuel generalizing type with
  | zero => unfold typeBrackets; infer_instance
  | succ fuel ih => unfold typeBrackets; infer_instance

instance : NamesWell (inferBound g) := by unfold inferBound; infer_instance

instance (fuel : Nat) : NamesWell (operatorType g fuel) := by
  induction fuel with
  | zero => unfold operatorType; infer_instance
  | succ fuel ih => unfold operatorType; infer_instance

instance (mark : String) (item : Reader Tree) [NamesWell item] (fuel : Nat) :
    NamesWell (joinedTypes mark item fuel) := by
  unfold joinedTypes; infer_instance

instance : NamesWell (prefixedFunctionType g) := by unfold prefixedFunctionType; infer_instance

instance : NamesWell (unjoinedType g) := by unfold unjoinedType; infer_instance

instance : NamesWell (plainType g) := by unfold plainType; infer_instance

instance : NamesWell (type g) := by unfold type; infer_instance

instance : NamesWell (boundType g) := by unfold boundType; infer_instance

/-! ## Patterns -/

instance : NamesWell (propertyName g) := by
  refine .bind fun token => ?_
  split <;> infer_instance

instance (start : Nat) (pattern : Tree) [WellNamed pattern] :
    NamesWell (withDefault g start pattern) := by
  unfold withDefault; infer_instance

instance (one : Reader Tree) [NamesWell one] : NamesWell (arrayElement g one) := by
  unfold arrayElement; infer_instance

instance (one : Reader Tree) [NamesWell one] (fuel : Nat) :
    NamesWell (arrayElements g one fuel) := by
  induction fuel with
  | zero => unfold arrayElements; infer_instance
  | succ fuel ih => unfold arrayElements; infer_instance

instance (one : Reader Tree) [NamesWell one] : NamesWell (defaulted g one) := by
  unfold defaulted; infer_instance

instance (one : Reader Tree) [NamesWell one] : NamesWell (objectEntry g one) := by
  unfold objectEntry; infer_instance

instance (one : Reader Tree) [NamesWell one] : NamesWell (destructured g one) := by
  unfold destructured; infer_instance

instance : NamesWell (pattern g) := by unfold pattern; infer_instance

instance : NamesWell (destructuredTarget g) := by unfold destructuredTarget; infer_instance

theorem wellNamed_of_asTarget? {expression target : Tree} [h : WellNamed expression]
    (htarget : asTarget? expression = some target) : WellNamed target := by
  unfold asTarget? at htarget
  split at htarget
  · cases htarget
    exact ⟨trivial⟩
  · cases htarget
    exact h
  · split at htarget
    all_goals cases htarget
    all_goals exact h
  · cases htarget

instance (expression : Tree) [h : WellNamed expression] :
    WellNamed ((asTarget? expression).getD expression) := by
  cases htarget : asTarget? expression with
  | none => exact h
  | some target => exact wellNamed_of_asTarget? htarget

instance : NamesWell (place g) := by unfold place; infer_instance

instance : NamesWell (target g) := by unfold target; infer_instance

/-! ## Functions -/

instance : NamesWell (block g) := by unfold block; infer_instance

instance (generator : Bool) : NamesWell (functionBody g generator) := by
  unfold functionBody; infer_instance

instance : NamesWell (argument g) := by unfold argument; infer_instance

instance : NamesWell (callArguments g) := by unfold callArguments; infer_instance

instance (start : Nat) (object : Tree) [WellNamed object] (fuel : Nat) :
    NamesWell (decoratorName start object fuel) := by
  induction fuel generalizing object with
  | zero => unfold decoratorName; infer_instance
  | succ fuel ih => unfold decoratorName; infer_instance

instance (start : Nat) (name : Tree) [WellNamed name] : NamesWell (decoratorCall g start name) := by
  unfold decoratorCall; infer_instance

instance : NamesWell (decoratorExpression g) := by unfold decoratorExpression; infer_instance

instance : NamesWell (decorator g) := by unfold decorator; infer_instance

instance : NamesWell (decorators g) := by unfold decorators; infer_instance

instance : NamesWell (parameterName g) := by unfold parameterName; infer_instance

instance : NamesWell (plainParameter g) := by unfold plainParameter; infer_instance

instance : NamesWell (parameter g) := by unfold parameter; infer_instance

instance : NamesWell (parameters g) := by unfold parameters; infer_instance

instance (generator : Bool) : NamesWell (bodyOrEnd g generator) := by
  unfold bodyOrEnd; infer_instance

instance (generator : Bool) (marks : List Tree) [WellNamed marks] :
    NamesWell (function g generator marks) := by
  unfold function; infer_instance

/-! ## Classes -/

instance : NamesWell (heritage g) := by unfold heritage; infer_instance

instance (word : String) : NamesWell (heritageClause g word) := by
  unfold heritageClause; infer_instance

instance : NamesWell (parentClause g) := by unfold parentClause; infer_instance

instance (fuel : Nat) : NamesWell (interfaceClauses g fuel) := by
  induction fuel with
  | zero => unfold interfaceClauses; infer_instance
  | succ fuel ih =>
    refine .bind fun found => ?_
    split <;> infer_instance

instance (start : Nat) : NamesWell (classIndexSignature g start) := by
  unfold classIndexSignature; infer_instance

instance : NamesWell (constructorParts g) := by unfold constructorParts; infer_instance

instance : NamesWell (propertyValue g) := by unfold propertyValue; infer_instance

instance (start : Nat) (marks : List Tree) [WellNamed marks] :
    NamesWell (namedMember g start marks) := by
  unfold namedMember; dsimp only; infer_instance

instance (start : Nat) (marks : List Tree) [WellNamed marks] :
    NamesWell (undecoratedMember g start marks) := by
  unfold undecoratedMember; infer_instance

instance : NamesWell (classMember g) := by unfold classMember; infer_instance

instance (marks : List Tree) [WellNamed marks] : NamesWell (classParts g marks) := by
  unfold classParts; dsimp only; infer_instance

instance (start : Nat) (marks : List Tree) [WellNamed marks] :
    NamesWell (anonymousClass g start marks) := by
  unfold anonymousClass; infer_instance

instance (marks : List Tree) [WellNamed marks] : NamesWell (classDeclaration g marks) := by
  unfold classDeclaration; infer_instance

/-! ## Markup -/

instance : Names MarkupName := ⟨fun name => AllWellNamed name.reference⟩

instance : Names OpenedTag := ⟨fun tag => AllWellNamed tag.name.reference ∧ AllWellNamed tag.parts⟩

instance (name : MarkupName) [h : WellNamed name] : WellNamed name.reference := ⟨h.holds⟩

instance (words : List String) (reference : List Tree) [h : WellNamed reference] :
    WellNamed (⟨words, reference⟩ : MarkupName) := ⟨h.holds⟩

instance (tag : OpenedTag) [h : WellNamed tag] : WellNamed tag.name.reference := ⟨h.holds.1⟩

instance (tag : OpenedTag) [h : WellNamed tag] : WellNamed tag.parts := ⟨h.holds.2⟩

instance (name : MarkupName) (parts : List Tree) [hname : WellNamed name]
    [hparts : WellNamed parts] : WellNamed (⟨name, parts⟩ : OpenedTag) :=
  ⟨hname.holds, hparts.holds⟩

instance : NamesWell (markupName g) := by
  refine .bind fun start => .bind fun first => .bind fun _ => .ite inferInstance ?_
  dsimp only
  refine .bind fun words => ?_
  split <;> infer_instance

instance : NamesWell (contained g) := by unfold contained; infer_instance

instance (start : Nat) : NamesWell (container g start) := by unfold container; infer_instance

instance : NamesWell (attributeValue g) := by
  refine .bind fun start => .bind fun token => ?_
  split <;> infer_instance

instance : NamesWell (markupAttribute g) := by unfold markupAttribute; infer_instance

instance (fuel : Nat) : NamesWell (markupChildren g fuel) := by
  induction fuel with
  | zero => unfold markupChildren; infer_instance
  | succ fuel ih =>
    refine .bind fun _ => .ite inferInstance (.bind fun start => .bind fun token => ?_)
    split <;> infer_instance

instance : NamesWell (openedTag g) := by unfold openedTag; infer_instance

instance : NamesWell (closingName g) := by unfold closingName; infer_instance

instance (after : Nat → List Char → Token) : NamesWell (element g after) := by
  refine .bind fun start => .bind fun _ => .bind fun tag => .bind fun _ => ?_
  exact .ite inferInstance inferInstance

/-! ## Expressions -/

instance (kind : BranchKind) (start : Nat) (children : List Tree) [WellNamed children] :
    NamesWell (expressionFrom kind start children) := by
  unfold expressionFrom; infer_instance

instance (kind : LeafKind) (start : Nat) : NamesWell (leafExpression kind start) := by
  unfold leafExpression; infer_instance

instance : NamesWell (expression g) := by unfold expression; infer_instance

instance (fuel : Nat) : NamesWell (arrayItems g fuel) := by
  induction fuel with
  | zero => unfold arrayItems; infer_instance
  | succ fuel ih => unfold arrayItems; infer_instance

instance (start : Nat) (key : List Tree) [WellNamed key] (generator : Bool) :
    NamesWell (property.method g start key generator) := by
  unfold property.method; infer_instance

instance (start : Nat) : NamesWell (property.keyed g start) := by
  unfold property.keyed; infer_instance

instance (start : Nat) : NamesWell (property.shorthand g start) := by
  unfold property.shorthand; infer_instance

instance (start : Nat) : NamesWell (property.entry g start) := by
  unfold property.entry; infer_instance

instance : NamesWell (property g) := by unfold property; infer_instance

instance : NamesWell (object g) := by unfold object; infer_instance

instance : NamesWell (functionExpression g) := by unfold functionExpression; infer_instance

instance : NamesWell (arrowBody g) := by unfold arrowBody; infer_instance

instance (start : Nat) : NamesWell (bracketedArrow g start) := by
  unfold bracketedArrow; infer_instance

instance (start : Nat) : NamesWell (bareArrow g start) := by unfold bareArrow; infer_instance

instance (start : Nat) : NamesWell (asyncArrow g start) := by unfold asyncArrow; infer_instance

instance : NamesWell (arrow g) := by unfold arrow; infer_instance

instance (tagged : Bool) : NamesWell (template g tagged) := by unfold template; infer_instance

instance : NamesWell (superExpression g) := by unfold superExpression; infer_instance

instance : NamesWell (importExpression g) := by unfold importExpression; infer_instance

instance (name : String) : NamesWell (wordExpression g name) := by
  unfold wordExpression; infer_instance

instance : NamesWell (primary g) := by
  refine .bind fun token => ?_
  dsimp only
  split <;> infer_instance

instance : NamesWell (genericArguments g) := by unfold genericArguments; infer_instance

instance (start : Nat) (callee : Tree) [WellNamed callee] (generics : List Tree)
    [WellNamed generics] : NamesWell (genericSuffix g start callee generics) := by
  refine .bind fun _ => .ite inferInstance (.bind fun token => ?_)
  split <;> infer_instance

instance (start : Nat) (target : Tree) [WellNamed target] (optional : Bool) :
    NamesWell (dotSuffix start target optional) := by
  refine .bind fun token => ?_
  split <;> infer_instance

instance (start : Nat) (target : Tree) [WellNamed target] :
    NamesWell (bracketSuffix g start target) := by
  unfold bracketSuffix; infer_instance

instance (start : Nat) (target : Tree) [WellNamed target] :
    NamesWell (optionalSuffix g start target) := by
  unfold optionalSuffix; infer_instance

instance (start : Nat) (calls : Bool) (target : Tree) [WellNamed target] (fuel : Nat) :
    NamesWell (suffixes g start calls target fuel) := by
  induction fuel generalizing target with
  | zero => unfold suffixes; infer_instance
  | succ fuel ih =>
    refine .bind fun token => ?_
    split
    case h_7 =>
      refine .bind fun _ => .ite (.bind fun found => ?_) inferInstance
      split
      · have := WellNamed.of_eq_some ‹_›
        infer_instance
      · infer_instance
    all_goals infer_instance

instance : NamesWell (constructedArguments g) := by unfold constructedArguments; infer_instance

instance : NamesWell (newExpression g) := by unfold newExpression; infer_instance

instance : NamesWell (newCallee g) := by unfold newCallee; infer_instance

instance : NamesWell (leftHandSide g) := by unfold leftHandSide; infer_instance

instance : NamesWell (stepped g) := by unfold stepped; infer_instance

instance (start : Nat) : NamesWell (awaited g start) := by unfold awaited; infer_instance

instance : NamesWell (unary g) := by unfold unary; infer_instance

instance (more : Nat → Tree → Reader Tree)
    [∀ (start : Nat) (first : {first : Tree // Names.WellNamed first}),
      NamesWell (more start first.val)] :
    NamesWell (operand g more) := by
  unfold operand; infer_instance

instance (start level : Nat) (left : Tree) [WellNamed left] (fuel : Nat) :
    NamesWell (operators g start level left fuel) := by
  induction fuel generalizing left level start with
  | zero => unfold operators; infer_instance
  | succ fuel ih =>
    refine .bind fun next => ?_
    split
    · infer_instance
    · dsimp only
      infer_instance

instance : NamesWell (binary g) := by unfold binary; infer_instance

instance : NamesWell (conditional g) := by unfold conditional; infer_instance

instance : NamesWell (yieldOperand g) := by unfold yieldOperand; infer_instance

instance : NamesWell (yieldExpression g) := by unfold yieldExpression; infer_instance

instance (before : ReaderState) (left : Tree) [WellNamed left] :
    NamesWell (assignmentTarget g before left) := by
  refine .ite inferInstance ?_
  split
  · have := wellNamed_of_asTarget? ‹_›
    infer_instance
  · infer_instance

instance : NamesWell (plainAssignment g) := by
  refine .bind fun start => .bind fun before => .bind fun left => .bind fun token => ?_
  split
  · infer_instance
  · refine .ite ?_ inferInstance
    split
    · have := wellNamed_of_asTarget? ‹_›
      infer_instance
    · infer_instance
  · infer_instance

instance : NamesWell (assignment g) := by unfold assignment; infer_instance

/-! ## Statements -/

instance : NamesWell (declarator g) := by unfold declarator; infer_instance

instance : NamesWell (declarators g) := by unfold declarators; infer_instance

instance : NamesWell (variableDeclaration g) := by unfold variableDeclaration; infer_instance

instance : NamesWell (functionDeclaration g) := by unfold functionDeclaration; infer_instance

instance : NamesWell (interface g) := by unfold interface; infer_instance

instance : NamesWell (typeAlias g) := by unfold typeAlias; infer_instance

instance : NamesWell (enumKey g) := by
  refine .bind fun token => ?_
  split <;> infer_instance

instance : NamesWell (enumMember g) := by unfold enumMember; infer_instance

instance : NamesWell (enumDeclaration g) := by unfold enumDeclaration; infer_instance

instance : NamesWell (namespaceBody g) := by unfold namespaceBody; infer_instance

instance (start fuel : Nat) : NamesWell (namespaceParts g start fuel) := by
  induction fuel generalizing start with
  | zero => unfold namespaceParts; infer_instance
  | succ fuel ih => unfold namespaceParts; infer_instance

instance : NamesWell (quotedBody g) := by unfold quotedBody; infer_instance

instance : NamesWell (namespaceDeclaration g) := by
  refine .bind fun start => .bind fun _ => .ite inferInstance (.bind fun _ => .bind fun token => ?_)
  split <;> infer_instance

instance : NamesWell (variableStatement g) := by unfold variableStatement; infer_instance

instance : NamesWell (typedDeclaration? g) := by
  unfold typedDeclaration?; dsimp only; infer_instance

instance (marks : List Tree) [WellNamed marks] : NamesWell (declaration g marks) := by
  refine .bind fun more => .bind fun _ => .bind fun _ => .ite inferInstance ?_
  refine .bind fun _ => .ite inferInstance (.bind fun found => ?_)
  split
  · exact .of_eq_some ‹_›
  · infer_instance

instance (marks : List Tree) [WellNamed marks] : NamesWell (ambientDeclaration g marks) := by
  unfold ambientDeclaration; infer_instance

instance : NamesWell (condition g) := by unfold condition; infer_instance

instance (start : Nat) : NamesWell (ifStatement g start) := by unfold ifStatement; infer_instance

instance : NamesWell (loopOver g) := by unfold loopOver; infer_instance

instance (mark : String) : NamesWell (expressionUntil g mark) := by
  unfold expressionUntil; infer_instance

instance (first : List Tree) [WellNamed first] : NamesWell (loopSteps g first) := by
  unfold loopSteps; infer_instance

instance (first : Tree) [WellNamed first] : NamesWell (loopEntries g first) := by
  unfold loopEntries; infer_instance

instance {α : Type} [Names α] (reader : Reader α) [NamesWell reader] :
    NamesWell (inHead reader) := by
  unfold inHead; infer_instance

instance : NamesWell (forHead g) := by
  refine .bind fun start => .bind fun before => .bind fun _ => .ite inferInstance ?_
  refine .bind fun _ => .ite inferInstance (.bind fun first => .bind fun _ => .ite ?_ inferInstance)
  refine .ite inferInstance ?_
  split
  · have := wellNamed_of_asTarget? ‹_›
    infer_instance
  · infer_instance

instance (start : Nat) : NamesWell (forStatement g start) := by unfold forStatement; infer_instance

instance (start : Nat) : NamesWell (whileStatement g start) := by
  unfold whileStatement; infer_instance

instance (start : Nat) : NamesWell (doStatement g start) := by unfold doStatement; infer_instance

instance (fuel : Nat) : NamesWell (caseBody g fuel) := by
  induction fuel with
  | zero => unfold caseBody; infer_instance
  | succ fuel ih => unfold caseBody; infer_instance

instance : NamesWell (caseValue g) := by unfold caseValue; infer_instance

instance : NamesWell (switchCase g) := by unfold switchCase; infer_instance

instance (start : Nat) : NamesWell (switchStatement g start) := by
  unfold switchStatement; infer_instance

instance : NamesWell (catchParameter g) := by unfold catchParameter; infer_instance

instance : NamesWell (catchClause g) := by unfold catchClause; infer_instance

instance (start : Nat) : NamesWell (tryStatement g start) := by unfold tryStatement; infer_instance

instance (start : Nat) (kind : BranchKind) (needed : Bool) :
    NamesWell (exitStatement g start kind needed) := by
  unfold exitStatement; infer_instance

instance (start : Nat) : NamesWell (jumpStatement start) := by unfold jumpStatement; infer_instance

instance (start : Nat) : NamesWell (expressionStatement g start) := by
  unfold expressionStatement; infer_instance

instance (start : Nat) : NamesWell (labeledStatement g start) := by
  unfold labeledStatement; infer_instance

instance (start : Nat) (name : String) : WellNamed (keywordStatement g start name) := by
  unfold keywordStatement; infer_instance

instance (start : Nat) : NamesWell (plainStatement g start) := by
  refine .bind fun token => .bind fun second => ?_
  split
  · infer_instance
  · infer_instance
  · infer_instance
  · refine .ite inferInstance (.ite inferInstance ?_)
    split
    · exact .of_eq_some ‹_›
    · refine .bind fun _ => .ite inferInstance (.bind fun _ => .ite inferInstance ?_)
      refine .bind fun found => ?_
      split
      · exact .of_eq_some ‹_›
      · infer_instance
  · infer_instance

instance : NamesWell (statement g) := by unfold statement; infer_instance

/-! ## Modules -/

instance (name : ExportedName) : WellNamed name.identifiers := by
  cases name <;> unfold ExportedName.identifiers <;> infer_instance

instance (item : Reader (List Tree)) [NamesWell item] (fuel : Nat) :
    NamesWell (bracedItems item fuel) := by
  induction fuel with
  | zero => unfold bracedItems; infer_instance
  | succ fuel ih => unfold bracedItems; infer_instance

instance : NamesWell (importAttribute g) := by unfold importAttribute; infer_instance

instance (start : Nat) (isTypeOnly : Bool) : NamesWell (importFrom g start isTypeOnly) := by
  unfold importFrom; infer_instance

/-- An `import name = …` declaration names its module by a text or by a dotted name. -/
instance (start : Nat) (isExport isTypeOnly : Bool) :
    NamesWell (importEquals g start isExport isTypeOnly) := by
  refine ⟨.bind fun _ => .bind fun _ => .bind fun _ => .bind fun _ => ?_⟩
  refine .bindOf returns_importedModule fun module hmodule => ?_
  exact .bind fun _ => .bind fun _ => .pure hmodule

instance (start : Nat) : NamesWell (typeImport g start) := by unfold typeImport; infer_instance

instance (start : Nat) : NamesWell (phasedImport g start) := by unfold phasedImport; infer_instance

instance (start : Nat) : NamesWell (importRest g start) := by
  refine .bind fun token => ?_
  split <;> infer_instance

instance : NamesWell (importItem g) := by unfold importItem; infer_instance

instance : NamesWell exportSpecifier := by
  refine .bind fun found => ?_
  dsimp only
  split <;> infer_instance

instance (start : Nat) : NamesWell (exportNames g start) := by unfold exportNames; infer_instance

instance : NamesWell exportedIdentifiers := by unfold exportedIdentifiers; infer_instance

instance (start : Nat) : NamesWell (exportAll g start) := by unfold exportAll; infer_instance

instance : NamesWell (defaultFunction g) := by unfold defaultFunction; infer_instance

instance (marks : List Tree) [WellNamed marks] : NamesWell (defaultValue g marks) := by
  unfold defaultValue; infer_instance

instance (start : Nat) (marks : List Tree) [WellNamed marks] :
    NamesWell (exportDefault g start marks) := by
  unfold exportDefault; infer_instance

instance : NamesWell (otherExports g) := by unfold otherExports; infer_instance

instance (start : Nat) : NamesWell (exportedImport g start) := by
  unfold exportedImport; infer_instance

instance (start : Nat) (marks : List Tree) [WellNamed marks] :
    NamesWell (exportRest g start marks) := by
  refine .bind fun types => .bind fun second => .bind fun _ => .ite inferInstance ?_
  refine .bind fun _ => .ite inferInstance (.bind fun _ => .ite inferInstance ?_)
  refine .bind fun _ => .ite inferInstance (.bind fun _ => .ite inferInstance ?_)
  refine .bind fun _ => .ite inferInstance (.bind fun _ => .ite inferInstance ?_)
  infer_instance

instance (marks : List Tree) [WellNamed marks] : NamesWell (exportItem g marks) := by
  unfold exportItem; infer_instance

instance : NamesWell (moduleItem g) := by unfold moduleItem; infer_instance

/-! ## Programs -/

/-- The circle of productions is closed by induction on the bound of the nesting. -/
instance (fuel : Nat) (nonterminal : Nonterminal) : NamesWell (reader fuel nonterminal) := by
  induction fuel generalizing nonterminal with
  | zero => unfold reader; infer_instance
  | succ fuel ih =>
    have hnaming : Naming ⟨fuel, reader fuel⟩ := ⟨ih⟩
    unfold reader production
    cases nonterminal <;> infer_instance

end Grammar

open Reader in
/-- The types and modules of a program that was read from a text are named by names. -/
theorem Program.allWellNamed_of_read {dialect : Dialect} {text : Text} {program : Program}
    (h : read? dialect text = some program) : AllWellNamed program.items := by
  obtain ⟨⟨found, after⟩, hrun, hpure⟩ := Option.bind_eq_some_iff.mp h
  obtain rfl := Option.some.inj hpure
  exact allWellNamed_iff.mpr (returns_readItems NamesWell.returns _ _ _ _ hrun)

end SdkMigration
