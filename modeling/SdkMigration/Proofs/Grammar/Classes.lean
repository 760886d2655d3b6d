import SdkMigration.Program.Grammar.Classes
import SdkMigration.Proofs.Grammar.Functions

/-!
# Classes place what they read
-/

namespace SdkMigration.Grammar

open Reader

variable {text : Text} {dialect : Dialect} {g : Grammar} [g.Placing text dialect]

/-! ## Heritage -/

instance : Places text dialect (heritage g) :=
  .start fun _ => .part fun _ _ => .part fun _ _ => .span fun _ => .tree

instance (word : String) : Places text dialect (heritageClause g word) := by
  refine .of_yields fun _ => .step fun _ => .step fun _ => .ite (fun _ => .last) fun _ => ?_
  exact .pure trivial

instance : Places text dialect (parentClause g) := by
  refine .of_yields fun _ => .step fun _ => .ite (fun _ => ?_) fun _ => .pure trivial
  exact .part fun _ _ => .step fun _ => .part fun _ _ => .pure trivial

instance (fuel : Nat) : Places text dialect (interfaceClauses g fuel) := by
  induction fuel with
  | zero => exact .of_yields fun _ => .failure
  | succ fuel ih =>
    refine .of_yields fun _ => .part fun found _ => ?_
    split
    · exact .pure trivial
    · exact .part fun _ _ => .pure trivial

/-! ## Members -/

theorem yields_classIndexSignature {lo start : Nat} :
    Yields text dialect lo {} (classIndexSignature g start) Tree.landmarks := by
  refine .step fun _ => .step fun _ => .next yields_indexSignature fun _ hmember => ?_
  exact .step fun _ => .pure hmember

instance : Places text dialect (constructorParts g) := by
  refine .of_yields fun _ => .part fun _ _ => .step fun _ => .step fun _ => .ite (fun _ => ?_)
    fun _ => .part fun _ _ => .pure trivial
  exact .step fun _ => .pure trivial

instance : Places text dialect skipMemberMarks := by unfold skipMemberMarks; infer_instance

instance : Places text dialect (propertyValue g) := .of_yields fun _ => .step fun _ => .last

theorem yields_namedMember {lo start : Nat} {marks : List Tree} :
    Yields text dialect lo (allLandmarks marks) (namedMember g start marks) Tree.landmarks := by
  refine .step fun _ => .step fun _ => .step fun _ => .step fun _ => ?_
  refine .step fun _ => .step fun _ => ?_
  dsimp only
  refine .part fun key _ => .step fun _ => .step fun _ => .ite (fun _ => ?_) fun _ => ?_
  · exact .part fun _ _ => .branchFrom
  · refine .step fun _ => .step fun _ => .step fun _ => .ite (fun _ => ?_) fun _ => ?_
    · exact .next (.weaken (yields_function (allLandmarks key))) fun _ _ => .branchFrom
    · exact .part fun _ _ => .part fun _ _ => .step fun _ => .branchFrom

theorem yields_undecoratedMember {lo start : Nat} {marks : List Tree} :
    Yields text dialect lo (allLandmarks marks) (undecoratedMember g start marks)
      Tree.landmarks := by
  refine .step fun _ => .step fun _ => .ite (fun _ => ?_) fun _ => ?_
  · exact .step fun _ => .part fun _ _ => .branchFrom
  · refine .step fun _ => .step fun _ => .orElse ?_ yields_namedMember
    exact .weaken yields_classIndexSignature

instance : Places text dialect (classMember g) := by
  refine .start fun start => .step fun _ => .ite (fun _ => ?_) fun _ => ?_
  · exact .part fun _ hempty => .anchored hempty
  · refine .part fun marks _ => .next (.weaken yields_undecoratedMember) fun _ hmember => ?_
    exact .anchored hmember

/-! ## Whole classes -/

instance (first : List Tree) : Places text dialect (skipParents g first) := by
  unfold skipParents; infer_instance

/-- The first parent and the rest are all parents. -/
theorem count_take_drop (parents : List Tree) (mark : Landmark) :
    (allLandmarks (parents.take 1)).count mark + (allLandmarks (parents.drop 1)).count mark =
      (allLandmarks parents).count mark := by
  rw [← Landmarks.count_append, List.take_append_drop]

theorem yields_classParts {lo : Nat} {marks : List Tree} (frame : Landmarks) :
    Yields text dialect lo (frame.join (allLandmarks marks)) (classParts g marks)
      fun found => frame.join (allLandmarks found) := by
  refine .part fun generics _ => .part fun first _ => .step fun _ => .part fun _ _ => ?_
  refine .part fun interfaces _ => .step fun _ => .part fun last _ => ?_
  dsimp only
  refine .step fun _ => .part fun members _ => .pure trivial fun mark _ => ?_
  have hparents := count_take_drop (if first.isEmpty = true then last else first) mark
  have hle : (allLandmarks (if first.isEmpty = true then last else first)).count mark ≤
      (allLandmarks first).count mark + (allLandmarks last).count mark := by
    split <;> omega
  simp only [Landmarks.count_join, Landmarks.count_append, marks_trees]
  omega

instance : Places text dialect atClassName := by unfold atClassName; infer_instance

instance : Places text dialect classKeyword := by unfold classKeyword; infer_instance

theorem yields_anonymousClass {lo start : Nat} {marks : List Tree} (frame : Landmarks) :
    Yields text dialect lo (frame.join (allLandmarks marks)) (anonymousClass g start marks)
      fun found => frame.join found.landmarks := by
  refine .step fun _ => .step fun _ => .part fun name _ => ?_
  exact .next (.weaken (yields_classParts (frame.join (allLandmarks name)))) fun _ _ => .branchFrom

theorem yields_classDeclaration {lo : Nat} {marks : List Tree} (frame : Landmarks) :
    Yields text dialect lo (frame.join (allLandmarks marks)) (classDeclaration g marks)
      fun found => frame.join found.landmarks := by
  refine .step fun _ => .part fun id _ => ?_
  exact .next (.weaken (yields_classParts (frame.join (.name id)))) fun _ _ => .tree

instance : Places text dialect atClass := by unfold atClass; infer_instance

end SdkMigration.Grammar
