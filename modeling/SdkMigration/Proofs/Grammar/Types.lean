import SdkMigration.Program.Grammar.Types
import SdkMigration.Proofs.Grammar.Basic

/-!
# Types place what they read
-/

namespace SdkMigration.Grammar

open Reader

variable {text : Text} {dialect : Dialect} {g : Grammar} [g.Placing text dialect]

/-! ## Parts shared with expressions -/

instance : Places text dialect (colonType g) :=
  .of_yields fun _ => .step fun _ => .step fun _ => .last

instance : Places text dialect angleSeparator := by unfold angleSeparator; infer_instance

instance (item : Reader Tree) [Places text dialect item] (fuel : Nat) :
    Places text dialect (angleItems item fuel) := by
  induction fuel with
  | zero => exact .of_yields fun _ => .failure
  | succ fuel ih =>
    refine .of_yields fun _ => .step fun _ => .ite (fun _ => .pure trivial) fun _ => ?_
    exact .part fun _ _ => .step fun _ => .part fun _ _ => .pure trivial

instance : Places text dialect (typeArguments g) :=
  .of_yields fun _ => .step fun _ => .step fun _ => .last

instance : Places text dialect (typeArgumentsOfName g) :=
  .of_yields fun _ => .step fun _ => .step fun _ => .last

instance (words : List String) : Places text dialect (atModifier words) := by
  refine .of_yields fun _ => .step fun token => ?_
  split
  · exact .last
  · exact .pure trivial

instance (word : String) : Places text dialect (atAccessor word) := by
  unfold atAccessor; infer_instance

instance (words : List String) (fuel : Nat) : Places text dialect (skipModifiers words fuel) := by
  induction fuel with
  | zero => exact .of_yields fun _ => .failure
  | succ fuel ih => unfold skipModifiers; infer_instance

instance : Places text dialect (typeParameter g) := by
  refine .start fun _ => .step fun _ => .part fun id _ => ?_
  refine .step fun _ => .part fun bound _ => .step fun _ => .part fun default _ => ?_
  exact .branchFrom

instance : Places text dialect (typeParameters g) := by
  refine .of_yields fun _ => .step fun _ => .step fun _ => .ite (fun _ => ?_) fun _ => ?_
  · exact .step fun _ => .step fun _ => .last
  · exact .pure trivial

/-- Each name behind a dot extends the chain before it. -/
theorem yields_moreNames {lo start : Nat} {left : Tree} (hleft : left.PointsFirst) (fuel : Nat) :
    Yields text dialect lo left.landmarks (dottedName.more start left fuel) Tree.landmarks := by
  induction fuel generalizing left with
  | zero => exact .failure
  | succ fuel ih =>
    refine .step fun _ => .ite (fun _ => ?_) fun _ => .pure hleft
    refine .access hleft false fun right hright => .span fun stop => ?_
    have hname : (Tree.qualified (.between start stop) left right).PointsFirst := hright
    exact ih hname

instance : Places text dialect (dottedName g) :=
  .of_yields fun _ => .part fun first _ =>
    .weaken (yields_moreNames (.identifier .reference first) g.fuel)

instance : Places text dialect (statedType g) := .of_yields fun _ => .step fun _ => .last

instance : Places text dialect (typeOrPredicate g) := by
  refine .start fun start => .step fun _ => .step fun _ => .step fun _ => .step fun _ => ?_
  refine .step fun _ => .step fun _ => .ite (fun _ => ?_) fun _ => ?_
  · exact .part fun _ _ => .part fun _ _ => .branchFrom
  · refine .step fun _ => .ite (fun _ => ?_) fun _ => .last
    exact .step fun _ => .step fun _ => .step fun _ => .part fun _ _ => .branchFrom

instance : Places text dialect (resultType g) :=
  .of_yields fun _ => .step fun _ => .step fun _ => .last

/-! ## Parameters of function types -/

instance : Places text dialect (typedName g) := by
  refine .of_yields fun _ => .step fun _ => .ite (fun _ => ?_) fun _ => .last
  exact .part fun _ _ => .tree

/-- A type annotation adds its own landmarks to a pattern, and may take the place
of another one. -/
theorem annotate_partOf (lo : Nat) (pattern : Tree) (type : List Tree) :
    Landmarks.PartOf lo (pattern.annotate type).landmarks
      (pattern.landmarks.join (allLandmarks type)) := by
  intro mark _
  cases pattern <;> simp [Tree.annotate]

theorem pointsFirst_annotate {pattern : Tree} (h : pattern.PointsFirst) (type : List Tree) :
    (pattern.annotate type).PointsFirst := by
  cases pattern with
  | binding => exact .of_chainless rfl
  | branch => exact .of_chainless rfl
  | _ => exact h

instance : Places text dialect (typedParameter g) := by
  refine .start fun _ => .step fun _ => .ite (fun _ => ?_) fun _ => ?_
  · exact .part fun _ _ => .part fun _ _ => .branchFrom
  · refine .part fun inner hinner => .step fun _ => .part fun type _ => ?_
    exact .pure (pointsFirst_annotate hinner type) (annotate_partOf _ inner type)

instance : Places text dialect (typedParameters g) :=
  .start fun _ => .step fun _ => .part fun _ _ => .branchFrom

/-! ## Members of object types -/

instance : Places text dialect endTypeMember := by unfold endTypeMember; infer_instance

instance : Places text dialect (typeMemberKey g) := by
  refine .token fun token => ?_
  split
  · exact .part fun id _ => .anchored (.identifier .reference id)
  · exact .part fun _ hliteral => .anchored hliteral
  · exact .step fun _ => .part fun _ hliteral => .anchored hliteral
  · exact .step fun _ => .part fun _ hkey => .step fun _ => .pure hkey

theorem yields_indexSignature {lo start : Nat} :
    Yields text dialect lo {} (indexSignature g start) Tree.landmarks := by
  refine .step fun _ => .part fun id _ => .step fun _ => .part fun key _ => .step fun _ => ?_
  exact .part fun value _ => .branchFrom

theorem yields_signature {lo start : Nat} {key : List Tree} :
    Yields text dialect lo (allLandmarks key) (signature g start key) Tree.landmarks := by
  refine .part fun generics _ => .part fun parameters _ => .part fun result _ => ?_
  exact .branchFrom

theorem yields_keyedTypeMember {lo start : Nat} :
    Yields text dialect lo {} (keyedTypeMember g start) Tree.landmarks := by
  refine .step fun _ => .ite (fun _ => ?_) fun _ => .step fun _ => .ite (fun _ => ?_) fun _ => ?_
  · exact .step fun _ => .part fun _ _ => .part fun _ _ => .part fun _ _ => .branchFrom
  · exact .step fun _ => .part fun _ _ => .part fun _ _ => .part fun _ _ => .branchFrom
  · refine .part fun _ _ => .step fun _ => .step fun _ => .step fun _ => ?_
    refine .ite (fun _ => ?_) fun _ => ?_
    · exact .weaken yields_signature
    · exact .part fun _ _ => .branchFrom

instance : Places text dialect (unendedTypeMember g) := by
  refine .start fun _ => .step fun _ => .step fun _ => .step fun _ => .ite (fun _ => ?_) fun _ => ?_
  · exact .weaken yields_signature
  · refine .step fun _ => .ite (fun _ => ?_) fun _ => ?_
    · exact .step fun _ => .weaken yields_signature
    · exact .step fun _ => .orElse yields_indexSignature yields_keyedTypeMember

instance : Places text dialect (typeMember g) :=
  .of_yields fun _ => .part fun _ hmember => .step fun _ => .pure hmember

instance : Places text dialect (typeMembers g) := .of_yields fun _ => .step fun _ => .last

instance (modifier : Reader Bool) [Places text dialect modifier] :
    Places text dialect (mappedModifier modifier) := by
  unfold mappedModifier; infer_instance

instance : Places text dialect mappedTypeHead :=
  .of_yields fun _ => .step fun _ => .step fun _ => .step fun _ => .part fun _ hname =>
    .step fun _ => .pure hname

instance : Places text dialect (mappedType g) := by
  refine .start fun _ => .part fun id _ => .part fun source _ => .step fun _ => ?_
  refine .part fun name _ => .step fun _ => .step fun _ => .part fun type _ => ?_
  exact .step fun _ => .step fun _ => .step fun _ => .branchFrom

/-! ## Types proper -/

instance : Places text dialect tupleLabel :=
  .of_yields fun _ => .part fun _ _ => .step fun _ => .step fun _ => .pure trivial

instance : Places text dialect (tupleElement g) :=
  .start fun _ => .step fun _ => .part fun _ _ => .part fun _ _ => .step fun _ => .branchFrom

instance : Places text dialect (importTypeOptions g) := by unfold importTypeOptions; infer_instance

instance : Places text dialect (importType g) := by
  refine .start fun _ => .step fun _ => .step fun _ => .part fun _ _ => .step fun _ => ?_
  refine .step fun _ => .step fun _ => .part fun name _ => .part fun arguments _ => ?_
  exact .branchFrom

instance : Places text dialect (typeQuery g) := by
  refine .start fun _ => .step fun _ => .step fun _ => .part fun value _ => ?_
  exact .part fun arguments _ => .branchFrom

instance : Places text dialect (typeReference g) :=
  .start fun _ => .part fun _ _ => .part fun _ _ => .span fun _ => .tree

instance (tagged : Bool) (item : Reader Tree) [Places text dialect item] (fuel : Nat) :
    Places text dialect (templateParts tagged item fuel) := by
  induction fuel with
  | zero => exact .of_yields fun _ => .failure
  | succ fuel ih =>
    refine .of_yields fun _ => .step fun token => ?_
    split
    · exact .step fun _ => .step fun _ => .pure trivial
    · refine .step fun _ => .step fun _ => .part fun first _ => .step fun _ => .step fun _ => ?_
      exact .step fun _ => .part fun others _ => .pure trivial
    · exact .failure

theorem yields_functionType {lo start : Nat} :
    Yields text dialect lo {} (functionType g start) Tree.landmarks := by
  refine .part fun generics _ => .part fun parameters _ => .step fun _ => ?_
  exact .part fun result _ => .branchFrom

instance : Places text dialect (primaryType g) := by
  refine .token fun token => ?_
  dsimp only
  split
  · exact .last
  · exact .step fun _ => .last
  · exact .part fun _ _ => .branchFrom
  · refine .step fun _ => .ite (fun _ => ?_) fun _ => ?_
    · refine .step fun _ => .step fun _ => .step fun _ => .ite (fun _ => ?_) fun _ => .last
      exact .step fun _ => .part fun _ _ => .branchFrom
    · refine .ite (fun _ => .last) fun _ => .ite (fun _ => .last) fun _ => ?_
      refine .ite (fun _ => .step fun _ => .last) fun _ => ?_
      exact .ite (fun _ => .step fun _ => .last) fun _ => .step fun _ => .last
  · exact .step fun _ => .step fun _ => .step fun _ => .step fun _ => .last
  · refine .step fun _ => .ite (fun _ => .last) fun _ => ?_
    exact .part fun _ _ => .branchFrom
  · exact .step fun _ => .part fun _ _ => .branchFrom
  · exact .step fun _ => .part fun _ _ => .step fun _ => .branchFrom
  · exact .failure

/-- Each pair of brackets behind a type makes a branch of it. -/
theorem yields_typeBrackets {lo start : Nat} {type : Tree} (htype : type.PointsFirst)
    (fuel : Nat) :
    Yields text dialect lo type.landmarks (typeBrackets g start type fuel) Tree.landmarks := by
  induction fuel generalizing type with
  | zero => exact .failure
  | succ fuel ih =>
    refine .step fun _ => .step fun _ => .ite (fun _ => ?_) fun _ => .pure htype
    refine .step fun _ => .step fun _ => .ite (fun _ => ?_) fun _ => ?_
    · exact .branch fun _ harray => ih harray
    · refine .part fun index _ => .step fun _ => ?_
      exact .branch fun _ hindexed => ih hindexed

instance : Places text dialect (inferBound g) :=
  .of_yields fun _ => .step fun _ => .part fun _ _ => .step fun _ => .step fun _ => .step fun _ =>
    .pure trivial

instance (fuel : Nat) : Places text dialect (operatorType g fuel) := by
  induction fuel with
  | zero => exact .of_yields fun _ => .failure
  | succ fuel ih =>
    refine .start fun _ => .step fun _ => .step fun _ => .step fun _ =>
      .ite (fun _ => ?_) fun _ => .step fun _ => .ite (fun _ => ?_) fun _ => ?_
    · exact .step fun _ => .part fun _ _ => .branchFrom
    · exact .step fun _ => .part fun _ _ => .part fun _ _ => .branchFrom
    · exact .part fun _ htype => .weaken (yields_typeBrackets htype g.fuel)

instance (mark : String) (item : Reader Tree) [Places text dialect item] (fuel : Nat) :
    Places text dialect (joinedTypes mark item fuel) := by
  refine .start fun _ => .step fun _ => .part fun _ hfirst => .part fun _ _ => ?_
  exact .ite (fun _ => .pure hfirst) fun _ => .branchFrom

instance : Places text dialect (atFunctionType g) := by unfold atFunctionType; infer_instance

instance : Places text dialect (prefixedFunctionType g) :=
  .start fun _ => .step fun _ => .step fun _ => yields_functionType

instance : Places text dialect (unjoinedType g) := by
  exact .of_yields fun _ => .step fun _ => .last

instance : Places text dialect (plainType g) :=
  .of_yields fun _ => .step fun _ => .ite (fun _ => .last) fun _ => .last

instance : Places text dialect (type g) := by
  refine .start fun _ => .part fun _ hchecked => .step fun _ => .step fun _ => .ite (fun _ => ?_)
    fun _ => .pure hchecked
  exact .part fun _ _ => .step fun _ => .part fun _ _ => .step fun _ => .part fun _ _ => .branchFrom

instance : Places text dialect (boundType g) := by unfold boundType; infer_instance

end SdkMigration.Grammar
