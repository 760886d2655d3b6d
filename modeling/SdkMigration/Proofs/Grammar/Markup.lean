import SdkMigration.Program.Grammar.Markup
import SdkMigration.Proofs.Grammar.Functions

/-!
# Markup elements place what they read
-/

namespace SdkMigration

open Reader

instance : Located Grammar.MarkupName :=
  ⟨fun name => allLandmarks name.reference, fun _ _ _ => True⟩

instance : Located Grammar.OpenedTag :=
  ⟨fun tag => (allLandmarks tag.name.reference).join (allLandmarks tag.parts), fun _ _ _ => True⟩

@[simp] theorem marks_markupName (name : Grammar.MarkupName) :
    Located.marks name = allLandmarks name.reference := rfl

@[simp] theorem marks_openedTag (tag : Grammar.OpenedTag) :
    Located.marks tag = (allLandmarks tag.name.reference).join (allLandmarks tag.parts) := rfl

namespace Grammar

variable {text : Text} {dialect : Dialect} {g : Grammar} [g.Placing text dialect]

/-! ## Names -/

instance : Places text dialect markupWord := .of_yields fun _ => .step fun _ => .last

instance (fuel : Nat) : Places text dialect (markupProperties fuel) := by
  induction fuel with
  | zero => exact .of_yields fun _ => .failure
  | succ fuel ih => unfold markupProperties; infer_instance

instance : Places text dialect (markupName g) := by
  refine .start fun _ => .part fun first _ => .step fun _ => .ite (fun _ => ?_) fun _ => ?_
  · exact .part fun _ _ => .pure trivial
  · dsimp only
    refine .step fun words => ?_
    split
    · exact .pure trivial
    · exact .branch fun _ _ => .pure trivial

/-! ## Attributes -/

instance : Places text dialect (contained g) :=
  .of_yields fun _ => .step fun _ => .ite (fun _ => .pure trivial) fun _ => .step fun _ => .last

instance (start : Nat) : Places text dialect (container g start) :=
  .of_yields fun _ => .part fun _ _ => .step fun _ => .step fun _ => .branchFrom

instance : Places text dialect (attributeValue g) := by
  refine .start fun _ => .step fun _ => ?_
  split
  · exact .step fun _ => .pure trivial
  · exact .step fun _ => .part fun _ _ => .step fun _ => .pure trivial
  · exact .part fun _ _ => .pure trivial

instance : Places text dialect attributeName := by unfold attributeName; infer_instance

instance : Places text dialect (markupAttribute g) := by
  refine .start fun _ => .step fun _ => .ite (fun _ => ?_) fun _ => ?_
  · exact .step fun _ => .part fun _ _ => .step fun _ => .branchFrom
  · refine .step fun _ => .step fun _ => .ite (fun _ => ?_) fun _ => .branchFrom
    exact .step fun _ => .part fun _ _ => .branchFrom

instance : Places text dialect atAttribute := by unfold atAttribute; infer_instance

/-! ## Elements -/

section Elements

variable (after : Nat → List Char → Token) [Token.Scans text after]

instance : Places text dialect (closeTag after) := by unfold closeTag; infer_instance

instance : Places text dialect atClosingTag := by unfold atClosingTag; infer_instance

instance (fuel : Nat) : Places text dialect (markupChildren g fuel) := by
  induction fuel with
  | zero => exact .of_yields fun _ => .failure
  | succ fuel ih =>
    refine .of_yields fun _ => .step fun _ => .ite (fun _ => .pure trivial) fun _ => ?_
    refine .step fun _ => .step fun _ => ?_
    split
    · exact .step fun _ => .last
    · exact .step fun _ => .part fun _ _ => .step fun _ => .part fun _ _ => .pure trivial
    · exact .part fun _ _ => .part fun _ _ => .pure trivial

instance : Places text dialect (openedTag g) := by
  refine .of_yields fun _ => .step fun _ => .ite (fun _ => .pure trivial) fun _ => ?_
  refine .part fun _ _ => .step fun _ => .step fun _ => .part fun _ _ => .part fun _ _ => ?_
  exact .pure trivial

instance : Places text dialect (closingName g) :=
  .of_yields fun _ => .step fun _ => .ite (fun _ => .pure trivial) fun _ => .last

instance : Places text dialect (element g after) := by
  refine .start fun _ => .step fun _ => .part fun _ _ => .step fun _ => .ite (fun _ => ?_)
    fun _ => ?_
  · exact .step fun _ => .step fun _ => .branchFrom
  · refine .step fun _ => .part fun _ _ => .step fun _ => .step fun _ => .step fun _ => ?_
    exact .part fun _ _ => .step fun _ => .step fun _ => .branchFrom

end Elements

end Grammar

end SdkMigration
