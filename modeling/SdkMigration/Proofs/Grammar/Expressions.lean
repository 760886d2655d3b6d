import SdkMigration.Program.Grammar.Expressions
import SdkMigration.Proofs.Grammar.Classes
import SdkMigration.Proofs.Grammar.Markup

/-!
# Expressions place what they read

An expression has a point where it starts, so the productions that make one
place their result from that position on.
-/

namespace SdkMigration

open Reader

variable {text : Text} {dialect : Dialect}

namespace Reader.Yields

variable {start : Nat} {before : Landmarks}

theorem expressionFrom {kind : BranchKind} {children : List Tree}
    (hpart : Landmarks.PartOf start (allLandmarks children) before := by
      intro mark hmark; simp [hmark] <;> omega) :
    Yields text dialect start before (Grammar.expressionFrom kind start children) Tree.landmarks :=
  branch (fun _ hfound => anchored hfound) hpart

theorem leafExpression {kind : LeafKind} :
    Yields text dialect start before (Grammar.leafExpression kind start) Tree.landmarks :=
  part fun _ hfound => anchored hfound

end Reader.Yields

namespace Grammar

variable {g : Grammar} [g.Placing text dialect]

instance : Places text dialect (expression g) := by
  refine .start fun _ => .part fun _ hfirst => .step fun _ => .ite (fun _ => ?_)
    fun _ => .pure hfirst
  exact .part fun _ _ => .expressionFrom

/-! ## Literals and objects -/

instance (fuel : Nat) : Places text dialect (arrayItems g fuel) := by
  induction fuel with
  | zero => exact .of_yields fun _ => .failure
  | succ fuel ih =>
    refine .of_yields fun _ => .step fun _ => .ite (fun _ => .pure trivial) fun _ => ?_
    refine .step fun _ => .ite (fun _ => .last) fun _ => ?_
    exact .part fun _ _ => .step fun _ => .part fun _ _ => .pure trivial

namespace property

theorem yields_method {lo start : Nat} {key : List Tree} {generator : Bool} :
    Yields text dialect lo (allLandmarks key) (method g start key generator) Tree.landmarks :=
  .next (.weaken (yields_function (allLandmarks key))) fun _ _ => .branchFrom

theorem yields_shorthand {lo start : Nat} :
    Yields text dialect lo {} (shorthand g start) Tree.landmarks := by
  refine .part fun id _ => .step fun _ => .ite (fun _ => ?_) fun _ => ?_
  · exact .part fun _ _ => .branchFrom
  · exact .step fun _ => .step fun _ => .step fun _ => .pure (.identifier .reference id)

theorem yields_keyed {lo start : Nat} :
    Yields text dialect lo {} (keyed g start) Tree.landmarks := by
  refine .part fun _ _ => .step fun _ => .ite (fun _ => ?_) fun _ => .weaken yields_method
  exact .part fun _ _ => .branchFrom

theorem yields_entry {lo start : Nat} :
    Yields text dialect lo {} (entry g start) Tree.landmarks := by
  refine .step fun _ => .ite (fun _ => ?_) fun _ => .step fun _ => .ite (fun _ => ?_) fun _ =>
    .step fun _ => .ite (fun _ => ?_) fun _ => ?_
  · exact .part fun _ _ => .branchFrom
  · refine .step fun _ => .part fun _ _ => .part fun _ _ => .part fun _ _ => .part fun _ _ => ?_
    exact .branchFrom
  · refine .step fun _ => .part fun _ _ => .part fun _ _ => .part fun _ _ => .part fun _ _ => ?_
    exact .branchFrom
  · refine .step fun _ => .step fun _ => .step fun _ => .ite (fun _ => ?_) fun _ => ?_
    · exact .part fun _ _ => .weaken yields_method
    · exact .orElse yields_shorthand yields_keyed

end property

instance : Places text dialect (property g) :=
  .start fun _ => .next property.yields_entry fun _ hentry => .anchored hentry

instance : Places text dialect (object g) :=
  .start fun _ => .step fun _ => .part fun _ _ => .expressionFrom

/-! ## Functions -/

instance : Places text dialect (functionExpression g) := by
  refine .start fun _ => .step fun _ => .step fun _ => .part fun name _ => ?_
  exact .next (.weaken (yields_function (allLandmarks name))) fun _ _ => .expressionFrom

instance : Places text dialect (arrowBody g) :=
  .of_yields fun _ => .step fun _ => .step fun _ => .step fun _ => .step fun _ => .last

instance (result : List Tree) : Places text dialect (requireColon result) := by
  unfold requireColon; infer_instance

theorem yields_bracketedArrow {start : Nat} :
    Yields text dialect start {} (bracketedArrow g start) Tree.landmarks := by
  refine .part fun _ _ => .part fun _ _ => .part fun _ _ => .part fun _ _ => ?_
  exact .step fun _ => .expressionFrom

theorem yields_bareArrow {start : Nat} :
    Yields text dialect start {} (bareArrow g start) Tree.landmarks :=
  .part fun _ _ => .part fun _ _ => .expressionFrom

theorem yields_asyncArrow {start : Nat} :
    Yields text dialect start {} (asyncArrow g start) Tree.landmarks :=
  .step fun _ => .step fun _ => .step fun _ => .orElse yields_bracketedArrow yields_bareArrow

instance : Places text dialect (arrow g) := by
  refine .start fun _ => .step fun _ => .step fun _ => .ite (fun _ => ?_)
    fun _ => yields_bracketedArrow
  exact .orElse (.step fun _ => yields_bareArrow) yields_asyncArrow

instance : Places text dialect (atArrow g) := by
  refine .of_yields fun _ => .step fun _ => .step fun token => ?_
  split
  · exact .pure trivial
  · exact .pure trivial
  · exact .step fun _ => .pure trivial
  · exact .pure trivial

/-! ## Primary expressions -/

instance (tagged : Bool) : Places text dialect (template g tagged) := by
  unfold template; infer_instance

instance : Places text dialect (superExpression g) := by
  refine .start fun _ => .step fun _ => .part fun callee _ => .step fun _ => .ite (fun _ => ?_)
    fun _ => .step fun _ => .ite (fun _ => ?_) fun _ => ?_
  · exact .part fun _ _ => .expressionFrom
  · exact .part fun _ _ => .step fun _ => .expressionFrom
  · exact .part fun _ _ => .called callee (.span fun _ => .tree)

instance : Places text dialect importProperty := by unfold importProperty; infer_instance

instance : Places text dialect (importExpression g) := by
  refine .start fun _ => .step fun _ => .part fun callee _ => .step fun _ => .ite (fun _ => ?_)
    fun _ => ?_
  · exact .leafExpression
  · exact .step fun _ => .part fun _ _ => .called callee (.span fun _ => .tree)

instance (name : String) : Places text dialect (wordExpression g name) := by
  refine .start fun _ => .step fun _ => .ite (fun _ => .last) fun _ => .ite (fun _ => ?_)
    fun _ => .ite (fun _ => .last) fun _ => .ite (fun _ => .last) fun _ => .ite (fun _ => ?_)
    fun _ => .ite (fun _ => ?_) fun _ => ?_
  · exact .next (.weaken (yields_anonymousClass {}).unframed) fun _ hclass => .anchored hclass
  · exact .step fun _ => .leafExpression
  · exact .step fun _ => .leafExpression
  · exact .part fun id _ => .anchored (.identifier .reference id)

instance : Places text dialect (primary g) := by
  refine .token fun token => ?_
  dsimp only
  split
  · refine .ite (fun _ => ?_) fun _ => .last
    exact .part fun id _ => .anchored (.identifier .reference id)
  · exact .part fun _ hliteral => .anchored hliteral
  · exact .step fun _ => .leafExpression
  · exact .step fun _ => .leafExpression
  · exact .part fun _ _ => .expressionFrom
  · exact .step fun _ => .part fun _ _ => .step fun _ => .expressionFrom
  · exact .step fun _ => .part fun _ _ => .expressionFrom
  · exact .last
  · exact .step fun _ => .step fun _ => .step fun _ => .step fun _ => .leafExpression
  · exact .step fun _ => .step fun _ => .step fun _ => .step fun _ => .leafExpression
  · refine .part fun _ _ => .next (.weaken (yields_anonymousClass {}).unframed) fun _ hclass => ?_
    exact .anchored hclass
  · exact .step fun _ => .step fun _ => .part fun _ hmarkup => .anchored hmarkup
  · exact .failure

/-! ## Accesses and calls -/

instance : Places text dialect endsInstantiation := by unfold endsInstantiation; infer_instance

instance : Places text dialect (genericArguments g) := by
  refine .of_yields fun _ => .part fun _ _ => .step fun _ => .step fun _ => .step fun _ => ?_
  exact .step fun _ => .pure trivial

section Suffixes

variable {start : Nat} {target : Tree}

theorem yields_genericSuffix {generics : List Tree} :
    Yields text dialect start (target.landmarks.join (allLandmarks generics))
      (genericSuffix g start target generics) Tree.landmarks := by
  refine .step fun _ => .ite (fun _ => ?_) fun _ => .step fun token => ?_
  · exact .part fun _ _ => .called target (.span fun _ => .tree)
  · split
    · exact .part fun _ _ => .expressionFrom
    · exact .expressionFrom

/-- A name behind a dot extends the chain before it. -/
theorem yields_dotSuffix (htarget : target.PointsFirst) {optional : Bool} :
    Yields text dialect start target.landmarks (dotSuffix start target optional)
      Tree.landmarks := by
  refine .step fun token => ?_
  split
  · exact .step fun _ => .expressionFrom
  · refine .access htarget optional fun property hmember => .span fun stop => ?_
    have hproperty : (Tree.member (.between start stop) target optional property).PointsFirst :=
      hmember
    exact .anchored hproperty (.refl start _)

theorem yields_bracketSuffix :
    Yields text dialect start target.landmarks (bracketSuffix g start target) Tree.landmarks :=
  .part fun _ _ => .step fun _ => .expressionFrom

theorem yields_optionalSuffix (htarget : target.PointsFirst) :
    Yields text dialect start target.landmarks (optionalSuffix g start target) Tree.landmarks := by
  refine .step fun _ => .ite (fun _ => yields_bracketSuffix) fun _ => ?_
  refine .step fun _ => .step fun _ => .ite (fun _ => ?_) fun _ => yields_dotSuffix htarget
  exact .step fun _ => .part fun _ _ => .part fun _ _ => .called target (.span fun _ => .tree)

/-- Each suffix makes a new expression that starts in the same place. -/
theorem yields_suffixes (htarget : target.PointsFirst) (calls : Bool) (fuel : Nat) :
    Yields text dialect start target.landmarks (suffixes g start calls target fuel)
      Tree.landmarks := by
  induction fuel generalizing target with
  | zero => exact .failure
  | succ fuel ih =>
    refine .step fun token => ?_
    split
    · exact .step fun _ => .next (yields_dotSuffix htarget) fun _ hnext => ih hnext
    · exact .step fun _ => .next yields_bracketSuffix fun _ hnext => ih hnext
    · exact .step fun _ => .step fun _ => .next (yields_optionalSuffix htarget)
        fun _ hnext => ih hnext
    · refine .ite (fun _ => ?_) fun _ => .pure htarget
      exact .part fun _ _ => .called target (.span fun _ => .weaken (ih (.of_chainless rfl)))
    · refine .step fun _ => .ite (fun _ => ?_) fun _ => .pure htarget
      exact .step fun _ => .next .expressionFrom fun _ hnext => ih hnext
    · exact .part fun _ _ => .next .expressionFrom fun _ hnext => ih hnext
    · refine .step fun _ => .ite (fun _ => .part fun generics _ => ?_) fun _ => .pure htarget
      split
      · exact .next (.weaken yields_genericSuffix) fun _ hnext => ih hnext
      · exact .pure htarget
    · exact .pure htarget

end Suffixes

instance : Places text dialect (constructedArguments g) :=
  .of_yields fun _ => .part fun _ _ => .step fun _ => .step fun _ => .step fun _ => .pure trivial

instance : Places text dialect (newExpression g) := by
  refine .start fun _ => .step fun _ => .step fun _ => .ite (fun _ => ?_) fun _ => ?_
  · exact .step fun _ => .leafExpression
  · refine .part fun _ _ => .step fun _ => .part fun _ _ => .step fun _ => .part fun _ _ => ?_
    exact .expressionFrom

instance : Places text dialect (newCallee g) :=
  .start fun _ => .step fun _ => .part fun _ hfirst => .weaken (yields_suffixes hfirst false g.fuel)

instance : Places text dialect (leftHandSide g) :=
  .start fun _ => .step fun _ => .part fun _ hfirst => .weaken (yields_suffixes hfirst true g.fuel)

/-! ## Operators -/

instance : Places text dialect (stepped g) := by
  refine .start fun _ => .part fun _ hinner => .step fun _ => .step fun _ => .ite (fun _ => ?_)
    fun _ => .pure hinner
  exact .step fun _ => .expressionFrom

theorem yields_awaited {start : Nat} :
    Yields text dialect start {} (awaited g start) Tree.landmarks :=
  .step fun _ => .part fun _ _ => .expressionFrom

instance : Places text dialect (unary g) := by
  refine .start fun _ => .step fun token => ?_
  dsimp only
  refine .ite (fun _ => ?_) fun _ => .ite (fun _ => ?_) fun _ => .ite (fun _ => ?_) fun _ => ?_
  · exact .step fun _ => .part fun _ _ => .expressionFrom
  · exact .step fun _ => .part fun _ _ => .expressionFrom
  · exact .orElse yields_awaited .last
  · refine .step fun _ => .step fun _ => .ite (fun _ => ?_) fun _ => .last
    refine .step fun _ => .step fun _ => .step fun _ => .part fun _ _ => ?_
    exact .step fun _ => .step fun _ => .part fun _ _ => .expressionFrom

instance : Places text dialect nextOperator := by
  refine .of_yields fun _ => .step fun token => ?_
  split
  · exact .pure trivial
  · exact .step fun _ => .ite (fun _ => .pure trivial) fun _ => .step fun _ => .last
  · exact .pure trivial

theorem places_operand {more : Nat → Tree → Reader Tree}
    (hmore : ∀ start first, first.PointsFirst →
      Yields text dialect start first.landmarks (more start first) Tree.landmarks) :
    Places text dialect (operand g more) :=
  .start fun _ => .part fun _ hfirst => .weaken (hmore _ _ hfirst)

/-- Each operator makes a new left operand that starts in the same place. -/
theorem yields_operators {start level : Nat} {left : Tree} (hleft : left.PointsFirst)
    (fuel : Nat) :
    Yields text dialect start left.landmarks (operators g start level left fuel)
      Tree.landmarks := by
  induction fuel generalizing start level left with
  | zero => exact .failure
  | succ fuel ih =>
    refine .step fun next => ?_
    split
    · exact .pure hleft
    · rename_i kind found
      refine .ite (fun _ => .pure hleft) fun _ => .step fun _ => .step fun _ => .step fun _ => ?_
      have hoperand : Places text dialect (operand g fun start first =>
          operators g start (rightLevel found) first fuel) :=
        places_operand fun _ _ hfirst => ih hfirst
      exact .part fun _ _ => .next .expressionFrom fun _ hnext => ih hnext

instance : Places text dialect atLoneOperator := by unfold atLoneOperator; infer_instance

instance : Places text dialect (binary g) := by
  refine .start fun _ => .step fun _ => ?_
  exact .next (.ite (fun _ => .leafExpression) fun _ => .last) fun _ hfirst =>
    yields_operators hfirst g.fuel

instance : Places text dialect (conditional g) := by
  refine .start fun _ => .part fun _ htest => .step fun _ => .ite (fun _ => ?_)
    fun _ => .pure htest
  exact .part fun _ _ => .step fun _ => .part fun _ _ => .expressionFrom

/-! ## Assignments -/

instance : Places text dialect (yieldOperand g) :=
  .of_yields fun _ => .step fun _ => .step fun _ => .step fun _ => .step fun _ => .step fun _ =>
    .last

instance : Places text dialect (yieldExpression g) :=
  .start fun _ => .step fun _ => .part fun _ _ => .expressionFrom

/-- Brackets and braces are read again from the state before them. -/
theorem yields_assignmentTarget {before : ReaderState} (hbefore : before.At text dialect)
    {left : Tree} (hleft : left.PointsFirst) :
    Yields text dialect before.token.start left.landmarks (assignmentTarget g before left)
      Tree.landmarks := by
  refine .ite (fun _ => .back hbefore .last) fun _ => ?_
  split
  · rename_i target htarget
    exact .pure (pointsFirst_asTarget hleft htarget) (asTarget_partOf _ htarget)
  · exact .failure

instance : Places text dialect (plainAssignment g) := by
  refine .state fun before hbefore => .part fun left hleft => .step fun token => ?_
  split
  · refine .next (.weaken (yields_assignmentTarget hbefore hleft)) fun _ _ => ?_
    exact .step fun _ => .part fun _ _ => .expressionFrom
  · refine .ite (fun _ => ?_) fun _ => .pure hleft
    split
    · rename_i target htarget
      refine .step fun _ => .part fun value _ => .expressionFrom fun mark hmark => ?_
      have htargetLe := asTarget_partOf _ htarget mark hmark
      simp only [Landmarks.count_cons, Landmarks.count_nil, Landmarks.count_join, marks_tree]
      omega
    · exact .failure
  · exact .pure hleft

instance : Places text dialect (assignment g) := by
  refine .of_yields fun _ => .step fun _ => .step fun _ => .ite (fun _ => .last) fun _ => ?_
  exact .step fun _ => .ite (fun _ => .last) fun _ => .last

end Grammar

end SdkMigration
