import SdkMigration.Proofs.Landmarks
import Mathlib.Data.List.Perm.Subperm

/-!
# Parts of landmarks

A production puts together in an order of its own what it has read from left to
right, and it may leave something out.  What it returns is placed all the same
when each of its landmarks is among those that were read at least as often.

How often a landmark is among others is a sum over the parts of a tree, so
that comparing is a matter of counting.
-/

namespace SdkMigration

/-- One landmark, of any kind. -/
inductive Landmark where
  | chain (chain : Chain)
  | imported (span : Span)
  | point (position : Nat)
  | bound (name : String)
  | called (start : Nat) (chain : Chain)

namespace Landmarks

/-- How often a landmark is among others. -/
def count (marks : Landmarks) : Landmark → Nat
  | .chain chain => marks.chains.count chain
  | .imported span => marks.imports.count span
  | .point position => marks.points.count position
  | .bound name => marks.bound.count name
  | .called start chain => marks.called.count (start, chain)

/-- The landmark of a point. -/
def point (position : Nat) : Landmarks where
  points := [position]

/-- Whether landmarks are part of others, a point that all others lie behind being
allowed as often as needed. -/
def PartOf (lo : Nat) (part whole : Landmarks) : Prop :=
  ∀ mark, mark ≠ .point lo → part.count mark ≤ whole.count mark

/-! ## Counting -/

@[simp] theorem count_empty (mark : Landmark) : count {} mark = 0 := by
  cases mark <;> rfl

@[simp] theorem count_join (a b : Landmarks) (mark : Landmark) :
    (a.join b).count mark = a.count mark + b.count mark := by
  cases mark <;> simp [count, join]

@[simp] theorem count_point {lo : Nat} {mark : Landmark} (h : mark ≠ .point lo) :
    (point lo).count mark = 0 := by
  cases mark with
  | chain => rfl
  | imported => rfl
  | bound => rfl
  | called => rfl
  | point position =>
    have hne : position ≠ lo := fun heq => h (heq ▸ rfl)
    simp [count, point, hne.symm]

theorem allLandmarks_append (trees others : List Tree) :
    allLandmarks (trees ++ others) = (allLandmarks trees).join (allLandmarks others) := by
  induction trees with
  | nil => rfl
  | cons tree rest ih =>
    rw [List.cons_append, allLandmarks, allLandmarks, ih]
    simp [join]

@[simp] theorem count_nil (mark : Landmark) : (allLandmarks []).count mark = 0 :=
  count_empty mark

@[simp] theorem count_cons (tree : Tree) (rest : List Tree) (mark : Landmark) :
    (allLandmarks (tree :: rest)).count mark =
      tree.landmarks.count mark + (allLandmarks rest).count mark := count_join _ _ mark

@[simp] theorem count_append (trees others : List Tree) (mark : Landmark) :
    (allLandmarks (trees ++ others)).count mark =
      (allLandmarks trees).count mark + (allLandmarks others).count mark := by
  rw [allLandmarks_append, count_join]

end Landmarks

namespace Tree

open Landmarks

@[simp] theorem landmarks_leaf (kind : LeafKind) (span : Span) :
    (leaf kind span).landmarks = {} := rfl

@[simp] theorem landmarks_text (value : String) (span : Span) :
    (text value span).landmarks = {} := rfl

@[simp] theorem landmarks_identifier (role : Role) (id : Identifier) :
    (identifier role id).landmarks = .name id := rfl

@[simp] theorem landmarks_binding (id : Identifier) (type : List Tree) :
    (binding id type).landmarks = (Landmarks.name id).join (allLandmarks type) := rfl

@[simp] theorem landmarks_call (start stop : Nat) (callee : Tree) (arguments generics : List Tree) :
    (call (.between start stop) callee arguments generics).landmarks =
      (point start).join ((ofCall start callee).join
        (callee.landmarks.join ((allLandmarks arguments).join (allLandmarks generics)))) := rfl

@[simp] theorem landmarks_typeReference (span : Span) (name : Tree) (arguments : List Tree) :
    (typeReference span name arguments).landmarks =
      name.landmarks.join (allLandmarks arguments) := rfl

@[simp] theorem landmarks_heritage (span : Span) (value : Tree) (arguments : List Tree) :
    (heritage span value arguments).landmarks =
      value.landmarks.join (allLandmarks arguments) := rfl

@[simp] theorem landmarks_declaration (kind : DeclarationKind) (id : Identifier)
    (parts : List Tree) :
    (declaration kind id parts).landmarks = (Landmarks.name id).join (allLandmarks parts) := rfl

@[simp] theorem landmarks_anchored (kind : AnchorKind) (start : Nat) (inner : Tree) :
    (anchored kind start inner).landmarks = (point start).join inner.landmarks := rfl

theorem landmarks_importEquals {header : ImportEquals} {module : Tree}
    (h : ∀ value span, module ≠ .text value span) :
    (importEquals header module).landmarks = module.landmarks := by
  cases module with
  | text value span => exact absurd rfl (h value span)
  | _ => rfl

@[simp] theorem landmarks_branch (kind : BranchKind) (span : Span) (children : List Tree) :
    (branch kind span children).landmarks = allLandmarks children := rfl

end Tree

namespace Landmarks

/-! ## Placed parts -/

namespace PartOf

variable {lo hi : Nat} {text : Text} {a b c : Landmarks}

theorem refl (lo : Nat) (a : Landmarks) : PartOf lo a a := fun _ _ => Nat.le_refl _

/-- What is part of landmarks that are placed is placed. -/
theorem placed (h : PartOf lo a b) (hplaced : b.Placed text lo hi) : a.Placed text lo hi := by
  have hchains : a.chains.Subperm b.chains :=
    List.subperm_ext_iff.mpr fun chain _ => h (.chain chain) (by simp)
  have himports : a.imports.Subperm b.imports :=
    List.subperm_ext_iff.mpr fun span _ => h (.imported span) (by simp)
  have hbound : a.bound.Subperm b.bound :=
    List.subperm_ext_iff.mpr fun name _ => h (.bound name) (by simp)
  have hcalled : a.called.Subperm b.called :=
    List.subperm_ext_iff.mpr fun call _ => h (.called call.1 call.2) (by simp)
  have hspans : a.spans.Subperm b.spans := by
    obtain ⟨kept, hperm, hsub⟩ := hchains
    have hmapped : (a.chains.map (·.span)).Subperm (b.chains.map (·.span)) :=
      ⟨kept.map (·.span), hperm.map _, hsub.map _⟩
    exact hmapped.append himports
  have hpoints : ∀ point ∈ a.points, point = lo ∨ point ∈ b.points := by
    intro point hpoint
    by_cases hlo : point = lo
    · exact Or.inl hlo
    · have hcount := h (.point point) (by simpa using hlo)
      have hpositive := List.count_pos_iff.mpr hpoint
      exact Or.inr (List.count_pos_iff.mp (Nat.lt_of_lt_of_le hpositive hcount))
  refine ⟨hplaced.le, fun c hc => hplaced.chains c (hchains.subset hc),
    fun s hs => hplaced.imports s (himports.subset hs),
    fun s hs => hplaced.solid s (himports.subset hs), ?_, ?_, ?_,
    fun n hn => hplaced.bound n (hbound.subset hn),
    fun c hc => hplaced.called c (hcalled.subset hc)⟩
  · intro point hpoint
    rcases hpoints point hpoint with rfl | hmem
    · exact ⟨Nat.le_refl _, hplaced.le⟩
    · exact hplaced.points point hmem
  · obtain ⟨kept, hperm, hsub⟩ := hspans
    exact (hperm.pairwise_iff Span.Apart.symm).mp (hplaced.apart.sublist hsub)
  · intro point hpoint span hspan
    have hmem := hspans.subset hspan
    rcases hpoints point hpoint with rfl | hpoint
    · exact Or.inl (hplaced.span_mem hmem).1
    · exact hplaced.clear point hpoint span hmem

end PartOf

end Landmarks

end SdkMigration
