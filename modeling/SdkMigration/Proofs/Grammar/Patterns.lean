import SdkMigration.Program.Grammar.Patterns
import SdkMigration.Proofs.Grammar.Types

/-!
# Patterns place what they read
-/

namespace SdkMigration.Grammar

open Reader

variable {text : Text} {dialect : Dialect} {g : Grammar} [g.Placing text dialect]

instance : Places text dialect (propertyName g) := by
  refine .of_yields fun _ => .step fun token => ?_
  split
  · exact .step fun _ => .pure trivial
  · exact .step fun _ => .pure trivial
  · exact .step fun _ => .pure trivial
  · exact .step fun _ => .pure trivial
  · exact .step fun _ => .part fun _ _ => .step fun _ => .pure trivial

theorem yields_withDefault {lo start : Nat} {pattern : Tree} (hpattern : pattern.PointsFirst) :
    Yields text dialect lo pattern.landmarks (withDefault g start pattern) Tree.landmarks := by
  refine .step fun _ => .ite (fun _ => ?_) fun _ => .pure hpattern
  exact .part fun _ _ => .branchFrom

/-! ## What is bound or written -/

section Destructured

variable {one : Reader Tree} [Places text dialect one]

instance : Places text dialect (arrayElement g one) := by
  refine .start fun _ => .step fun _ => .ite (fun _ => ?_) fun _ => ?_
  · exact .part fun _ _ => .branchFrom
  · exact .part fun _ hpattern => .weaken (yields_withDefault hpattern)

instance (fuel : Nat) : Places text dialect (arrayElements g one fuel) := by
  induction fuel with
  | zero => exact .of_yields fun _ => .failure
  | succ fuel ih =>
    refine .of_yields fun _ => .step fun _ => .ite (fun _ => .pure trivial) fun _ => ?_
    refine .step fun _ => .ite (fun _ => .last) fun _ => ?_
    exact .part fun _ _ => .step fun _ => .part fun _ _ => .pure trivial

instance : Places text dialect (defaulted g one) :=
  .start fun _ => .part fun _ hpattern => .weaken (yields_withDefault hpattern)

instance : Places text dialect (objectEntry g one) := by
  refine .start fun _ => .step fun _ => .step fun _ => .ite (fun _ => ?_) fun _ =>
    .step fun _ => .ite (fun _ => ?_) fun _ => ?_
  · exact .part fun _ _ => .branchFrom
  · exact .part fun _ _ => .step fun _ => .part fun _ _ => .branchFrom
  · exact .part fun _ _ => .step fun _ => .part fun _ _ => .branchFrom

instance : Places text dialect (destructured g one) := by
  refine .start fun _ => .step fun _ => .ite (fun _ => ?_) fun _ => ?_
  · exact .part fun _ _ => .branchFrom
  · exact .step fun _ => .part fun _ _ => .branchFrom

end Destructured

instance : Places text dialect atDestructured := by unfold atDestructured; infer_instance

instance : Places text dialect (pattern g) :=
  .of_yields fun _ => .step fun _ => .ite (fun _ => .last) fun _ => .part fun _ _ => .tree

/-! ## Targets -/

/-- A target is the expression itself, or binds the name that the expression is. -/
theorem eq_or_name_of_asTarget {expression target : Tree}
    (h : asTarget? expression = some target) :
    target = expression ∨
      ∃ role id, expression.core = .identifier role id ∧ target = .binding id [] := by
  unfold asTarget? at h
  split at h
  · rename_i role id hcore
    exact Or.inr ⟨role, id, hcore, (Option.some.inj h).symm⟩
  · exact Or.inl (Option.some.inj h).symm
  · split at h <;> first
      | exact Or.inl (Option.some.inj h).symm
      | cases h
  · cases h

theorem asTarget_partOf (lo : Nat) {expression target : Tree}
    (h : asTarget? expression = some target) :
    Landmarks.PartOf lo target.landmarks expression.landmarks := by
  rcases eq_or_name_of_asTarget h with rfl | ⟨role, id, hcore, rfl⟩
  · exact .refl lo _
  · intro mark _
    cases expression with
    | identifier other found =>
      obtain ⟨-, rfl⟩ := Tree.identifier.inj hcore
      simp
    | anchored kind start inner =>
      obtain rfl : inner = .identifier role id := hcore
      simp
    | _ => cases hcore

theorem pointsFirst_asTarget {expression target : Tree} (hexpression : expression.PointsFirst)
    (h : asTarget? expression = some target) : target.PointsFirst := by
  rcases eq_or_name_of_asTarget h with rfl | ⟨role, id, _, rfl⟩
  · exact hexpression
  · exact .of_chainless rfl

instance : Places text dialect (destructuredTarget g) :=
  .of_yields fun _ => .part fun _ htree => .step fun _ => .step fun _ => .pure htree

instance : Places text dialect (place g) := by
  refine .of_yields fun lo => .part fun expression hexpression => ?_
  cases htarget : asTarget? expression with
  | none => exact .pure hexpression
  | some target =>
    exact .pure (pointsFirst_asTarget hexpression htarget) (asTarget_partOf lo htarget)

instance : Places text dialect (target g) :=
  .of_yields fun _ => .step fun _ => .ite (fun _ => .last) fun _ => .last

end SdkMigration.Grammar
