import Mathlib.Data.Char
import Mathlib.Data.List.Lex
import Mathlib.Data.List.Pairwise
import Mathlib.Data.List.Sort
import SdkMigration.Project.Run

/-!
# The order of paths

Paths are compared by their components, and these by their characters: both orders are
lexicographic, so the keys of paths are in a strict linear order.  Sorting keeps the paths
and puts those of different keys in strictly increasing order.
-/

namespace SdkMigration

namespace Component

theorem textBefore_iff (a b : Text) : textBefore a b = true ↔ List.Lex (· < ·) a b := by
  induction a generalizing b with
  | nil => cases b <;> simp [textBefore]
  | cons c cs ih =>
    cases b with
    | nil => simp [textBefore]
    | cons d ds =>
      have hchar : c.toNat < d.toNat ↔ c < d := Iff.rfl
      rw [List.cons_lex_cons_iff, ← ih, ← hchar]
      simp [textBefore]

/-- Names are in a linear order, and components of different kinds are in the order of
their kinds. -/
instance : IsStrictTotalOrder Component fun a b => a.before b = true where
  irrefl a := by cases a <;> simp [before, rank, textBefore_iff]
  trans a b c hab hbc := by
    have htexts : ∀ r s t : List Char, r < s → s < t → r < t := fun _ _ _ => lt_trans
    cases a <;> cases b <;> cases c <;> simp_all [before, rank, textBefore_iff]
    exact htexts _ _ _ hab hbc
  trichotomous a b hab hba := by
    cases a <;> cases b
    case name.name s t =>
      rw [before, textBefore_iff] at hab hba
      rw [(List.Lex.trichotomous (· < ·)).trichotomous s t hab hba]
    all_goals simp_all [before, rank]

end Component

namespace PathKey

theorem before_iff (a b : PathKey) :
    before a b = true ↔ List.Lex (fun c d : Component => c.before d = true) a b := by
  induction a generalizing b with
  | nil => cases b <;> simp [before]
  | cons c cs ih =>
    cases b with
    | nil => simp [before]
    | cons d ds =>
      rw [List.cons_lex_cons_iff (r := fun c d : Component => c.before d = true), ← ih]
      simp [before]

instance : IsStrictTotalOrder PathKey fun a b => before a b = true := by
  simp only [before_iff]
  exact { isStrictWeakOrder_of_isOrderConnected with }

theorem before_irrefl (key : PathKey) : ¬before key key = true :=
  irrefl_of (fun a b => before a b = true) key

theorem before_trans {a b c : PathKey} (hab : before a b = true) (hbc : before b c = true) :
    before a c = true :=
  trans_of (fun a b => before a b = true) hab hbc

theorem before_of_not_before {a b : PathKey} (hne : a ≠ b) (h : ¬before a b = true) :
    before b a = true := by
  by_contra hback
  exact hne (Std.Trichotomous.trichotomous (r := fun a b => before a b = true) a b h hback)

end PathKey

/-- Whether a path comes before another one. -/
def Path.Before (a b : Path) : Prop := PathKey.before a.key b.key = true

theorem Path.Before.key_ne {a b : Path} (h : a.Before b) : a.key ≠ b.key := by
  intro hkeys
  rw [Before, hkeys] at h
  exact PathKey.before_irrefl b.key h

/-- Paths in order have different keys. -/
theorem key_ne_of_sorted {paths : List Path} (h : paths.Pairwise Path.Before) {a b : Path}
    (ha : a ∈ paths) (hb : b ∈ paths) (hab : a ≠ b) : a.key ≠ b.key := by
  have hsymm : Std.Symm fun a b : Path => a.key ≠ b.key := ⟨fun _ _ hne => hne.symm⟩
  exact (h.imp Path.Before.key_ne).forall ha hb hab

/-! ## Sorting -/

theorem insertPath_perm (path : Path) (paths : List Path) :
    (insertPath path paths).Perm (path :: paths) := by
  induction paths with
  | nil => rfl
  | cons other rest ih =>
    unfold insertPath
    split
    · rfl
    · exact (ih.cons other).trans (.swap path other rest)

theorem insertPath_sorted {path : Path} {paths : List Path} (hpaths : paths.Pairwise Path.Before)
    (hnew : ∀ other ∈ paths, path.key ≠ other.key) :
    (insertPath path paths).Pairwise Path.Before := by
  induction paths with
  | nil => exact List.pairwise_singleton _ _
  | cons other rest ih =>
    obtain ⟨hother, hrest⟩ := List.pairwise_cons.mp hpaths
    unfold insertPath
    split
    · rename_i hbefore
      refine List.pairwise_cons.mpr ⟨?_, hpaths⟩
      intro later hlater
      rcases List.mem_cons.mp hlater with rfl | hlater
      · exact hbefore
      · exact PathKey.before_trans hbefore (hother later hlater)
    · rename_i hbefore
      refine List.pairwise_cons.mpr ⟨?_, ih hrest fun later hlater => hnew later (.tail other hlater)⟩
      intro later hlater
      rcases List.mem_cons.mp ((insertPath_perm path rest).mem_iff.mp hlater) with rfl | hlater
      · exact PathKey.before_of_not_before (hnew other (.head rest)) hbefore
      · exact hother later hlater

private theorem foldl_insertPath_perm (paths sorted : List Path) :
    (paths.foldl (fun sorted path => insertPath path sorted) sorted).Perm (sorted ++ paths) := by
  induction paths generalizing sorted with
  | nil => simp
  | cons path rest ih =>
    refine (ih (insertPath path sorted)).trans ?_
    refine ((insertPath_perm path sorted).append_right rest).trans ?_
    exact List.perm_middle.symm

/-- Sorting neither loses nor repeats a path. -/
theorem sortPaths_perm (paths : List Path) : (sortPaths paths).Perm paths :=
  foldl_insertPath_perm paths []

private theorem foldl_insertPath_sorted {paths sorted : List Path}
    (hsorted : sorted.Pairwise Path.Before)
    (hkeys : (sorted ++ paths).Pairwise fun a b => a.key ≠ b.key) :
    (paths.foldl (fun sorted path => insertPath path sorted) sorted).Pairwise Path.Before := by
  induction paths generalizing sorted with
  | nil => exact hsorted
  | cons path rest ih =>
    have hmoved : (path :: (sorted ++ rest)).Pairwise fun a b => a.key ≠ b.key :=
      (List.perm_middle.pairwise_iff fun hab => Ne.symm hab).mp hkeys
    have hinserted : (insertPath path sorted ++ rest).Perm (path :: (sorted ++ rest)) :=
      (insertPath_perm path sorted).append_right rest
    apply ih
    · apply insertPath_sorted hsorted
      intro other hother
      exact List.rel_of_pairwise_cons hmoved (List.mem_append_left rest hother)
    · exact (hinserted.pairwise_iff fun hab => Ne.symm hab).mpr hmoved

/-- Paths of different keys are in strictly increasing order once they are sorted. -/
theorem sortPaths_sorted {paths : List Path} (h : paths.Pairwise fun a b => a.key ≠ b.key) :
    (sortPaths paths).Pairwise Path.Before :=
  foldl_insertPath_sorted .nil h

end SdkMigration
