import SdkMigration.Program.Grammar.Functions
import SdkMigration.Proofs.Grammar.Patterns

/-!
# Functions place what they read

A function can be handed the decorators that were read before its head.  What
stands beside them in the production that hands them over is framed.
-/

namespace SdkMigration.Grammar

open Reader

variable {text : Text} {dialect : Dialect} {g : Grammar} [g.Placing text dialect]

/-! ## Blocks -/

instance : Places text dialect (block g) :=
  .start fun _ => .step fun _ => .part fun _ _ => .branchFrom

instance (generator : Bool) : Places text dialect (functionBody g generator) := by
  unfold functionBody; infer_instance

/-! ## Arguments and decorators -/

instance : Places text dialect (argument g) :=
  .start fun _ => .step fun _ => .ite (fun _ => .part fun _ _ => .branchFrom) fun _ => .last

instance : Places text dialect (callArguments g) := .of_yields fun _ => .step fun _ => .last

/-- Each name behind a dot extends the chain before it. -/
theorem yields_decoratorName {start : Nat} {object : Tree} (hobject : object.PointsFirst)
    (fuel : Nat) :
    Yields text dialect start object.landmarks (decoratorName start object fuel)
      Tree.landmarks := by
  induction fuel generalizing object with
  | zero => exact .failure
  | succ fuel ih =>
    refine .step fun _ => .ite (fun _ => ?_) fun _ => .pure hobject
    refine .access hobject false fun property hmember => .span fun stop => ?_
    have hproperty : (Tree.member (.between start stop) object false property).PointsFirst :=
      hmember
    exact .wrap .expression hproperty ih (.refl start _)

theorem yields_decoratorCall {start : Nat} {name : Tree} (hname : name.PointsFirst) :
    Yields text dialect start name.landmarks (decoratorCall g start name) Tree.landmarks := by
  refine .step fun _ => .step fun _ => .part fun _ _ => .step fun _ => .ite (fun _ => ?_) fun _ =>
    .pure hname
  exact .part fun _ _ => .called name (.span fun _ => .tree)

instance : Places text dialect (decoratorExpression g) := by
  refine .start fun start => .step fun _ => .ite (fun _ => ?_) fun _ => ?_
  · refine .step fun _ => .part fun _ _ => .step fun _ => ?_
    exact .branch fun _ hwrapped => .wrap .expression hwrapped yields_decoratorCall
  · refine .part fun first _ => .wrap .expression (.identifier .reference first) fun hfirst => ?_
    exact .next (yields_decoratorName hfirst g.fuel) fun _ hname => yields_decoratorCall hname

instance : Places text dialect (decorator g) :=
  .start fun _ => .step fun _ => .part fun _ _ => .branchFrom

instance : Places text dialect (decorators g) := by unfold decorators; infer_instance

/-! ## Parameters -/

instance : Places text dialect (parameterName g) := by
  refine .of_yields fun _ => .step fun _ => .step fun _ => .ite (fun _ => ?_) fun _ => .last
  exact .part fun _ _ => .tree

instance : Places text dialect (plainParameter g) := by
  refine .start fun start => .step fun _ => .ite (fun _ => ?_) fun _ => ?_
  · refine .part fun _ _ => .part fun _ _ => ?_
    exact .branch fun _ hrest => yields_withDefault hrest
  · refine .part fun inner hinner => .step fun _ => .step fun _ => .part fun type _ => ?_
    exact .weaken (yields_withDefault (pointsFirst_annotate hinner type))
      fun mark hmark => by simpa using annotate_partOf start inner type mark hmark

instance : Places text dialect (skipParameterModifiers g) := by
  unfold skipParameterModifiers; infer_instance

instance : Places text dialect (parameter g) := by
  refine .start fun _ => .part fun _ _ => .step fun _ => .part fun _ hinner => ?_
  exact .ite (fun _ => .pure hinner) fun _ => .branchFrom

instance : Places text dialect (parameters g) := .of_yields fun _ => .step fun _ => .last

/-! ## Functions without their names -/

instance (generator : Bool) : Places text dialect (bodyOrEnd g generator) := by
  refine .of_yields fun _ => .step fun _ => .step fun _ => .ite (fun _ => ?_) fun _ => .last
  exact .step fun _ => .pure trivial

theorem yields_function {lo : Nat} {generator : Bool} {marks : List Tree} (frame : Landmarks) :
    Yields text dialect lo (frame.join (allLandmarks marks)) (function g generator marks)
      fun found => frame.join found.landmarks := by
  refine .step fun _ => .part fun _ _ => .part fun _ _ => .part fun _ _ => .part fun _ _ => ?_
  exact .branchFrom

instance : Places text dialect atAsyncFunction := by unfold atAsyncFunction; infer_instance

instance : Places text dialect functionHead := by unfold functionHead; infer_instance

end SdkMigration.Grammar
