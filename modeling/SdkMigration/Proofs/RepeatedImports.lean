import SdkMigration.Proofs.Declarations
import SdkMigration.Proofs.Grammar.SpecifierRows

/-!
# Repeated imports

A file may import the same export under the same name more than once, and bind the
module as a whole to one name more than once.  The declarations that bindings call for
say each of these once: `Bindings.merged` are the bindings that are left, and
`specifiers_eq_merged` and `distinctAliases_eq_merged` say so of the two parts of the
declarations.

The proofs go by induction over a list in which what repeats its first entry is left
out (`repeats_induction`), which is how `List.eraseDupsBy` goes over it.
-/

namespace SdkMigration

open Declarations

/-! ## Leaving out repeated entries -/

section Lists

variable {α : Type} {same : α → α → Bool} {a : α} {list : List α}

/-- Induction over a list in which what repeats an entry is left out before the others
are looked at. -/
private theorem repeats_induction (same : α → α → Bool) {motive : List α → Prop}
    (nil : motive [])
    (cons : ∀ first rest, motive (rest.filter fun b => same b first = false) →
      motive (first :: rest)) : ∀ list, motive list
  | [] => nil
  | first :: rest => cons first rest (repeats_induction same nil cons _)
termination_by list => list.length
decreasing_by exact Nat.lt_succ_of_le (List.length_filter_le _ _)

theorem mem_of_mem_eraseDupsBy (h : a ∈ list.eraseDupsBy same) : a ∈ list := by
  induction list using repeats_induction same with
  | nil => exact h
  | cons first rest ih =>
    rw [List.eraseDupsBy_cons] at h
    exact List.mem_cons.mpr ((List.mem_cons.mp h).imp_right fun h => List.mem_of_mem_filter (ih h))

/-- Every entry repeats one that is left. -/
theorem exists_mem_eraseDupsBy (same : α → α → Bool) (hself : ∀ b, same b b = true)
    (h : a ∈ list) :
    ∃ first ∈ list.eraseDupsBy same, same a first = true := by
  induction list using repeats_induction same with
  | nil => cases h
  | cons first rest ih =>
    rw [List.eraseDupsBy_cons]
    -- What does not repeat the first entry is still there when its repetitions are gone.
    cases hsame : same a first with
    | true => exact ⟨first, List.mem_cons_self, hsame⟩
    | false =>
      have hrest : a ∈ rest := (List.mem_cons.mp h).resolve_left fun hfirst => by
        rw [hfirst, hself] at hsame
        cases hsame
      obtain ⟨other, hother, hrepeats⟩ := ih (List.mem_filter.mpr ⟨hrest, by simpa using hsame⟩)
      exact ⟨other, List.mem_cons_of_mem _ hother, hrepeats⟩

/-- No entry that is left repeats another one. -/
theorem pairwise_eraseDupsBy (same : α → α → Bool) (list : List α) :
    (list.eraseDupsBy same).Pairwise fun a b => same b a = false := by
  induction list using repeats_induction same with
  | nil => exact .nil
  | cons first rest ih =>
    rw [List.eraseDupsBy_cons]
    refine List.pairwise_cons.mpr ⟨fun other hother => ?_, ih⟩
    simpa using List.of_mem_filter (mem_of_mem_eraseDupsBy hother)

end Lists

/-! ## Merged bindings -/

/-- Whether two single imports bind the same export to the same name. -/
def NamedImport.repeats (a b : NamedImport) : Bool :=
  a.exported == b.exported && a.renamed == b.renamed

theorem NamedImport.repeats_iff {a b : NamedImport} :
    a.repeats b = true ↔ a.exported = b.exported ∧ a.renamed = b.renamed := by
  simp [repeats]

/-- What bindings come to when repeated imports are merged: a single import into the
first one, which is for types only when all of them are, and an alias into the first
one of its name. -/
def Bindings.merged (bindings : Bindings) : Bindings where
  named := (bindings.named.eraseDupsBy NamedImport.repeats).map fun first =>
    first.bound ((bindings.named.filter (·.repeats first)).all (·.isTypeOnly))
  whole := (bindings.whole.eraseDupsBy (·.name == ·.name)).map fun first =>
    { name := first.name, style := first.style }

namespace Bindings

variable {bindings : Bindings} {named : NamedImport} {whole : WholeImport}

/-- Imports that repeat each other are merged to the same one. -/
theorem merged_of_repeats {a b : NamedImport} (h : a.repeats b = true) (list : List NamedImport) :
    a.bound ((list.filter (·.repeats a)).all (·.isTypeOnly)) =
      b.bound ((list.filter (·.repeats b)).all (·.isTypeOnly)) := by
  obtain ⟨hexported, hrenamed⟩ := NamedImport.repeats_iff.mp h
  simp only [NamedImport.bound, NamedImport.repeats, hexported, hrenamed]

theorem mem_merged_named : named ∈ bindings.merged.named ↔ ∃ first ∈ bindings.named,
    named = first.bound ((bindings.named.filter (·.repeats first)).all (·.isTypeOnly)) := by
  constructor
  · intro h
    obtain ⟨first, hfirst, rfl⟩ := List.mem_map.mp h
    exact ⟨first, mem_of_mem_eraseDupsBy hfirst, rfl⟩
  · rintro ⟨first, hfirst, rfl⟩
    obtain ⟨left, hleft, hrepeats⟩ := exists_mem_eraseDupsBy NamedImport.repeats
      (fun _ => NamedImport.repeats_iff.mpr ⟨rfl, rfl⟩) hfirst
    exact List.mem_map.mpr ⟨left, hleft, (merged_of_repeats hrepeats _).symm⟩

theorem mem_merged_whole (h : whole ∈ bindings.merged.whole) :
    ∃ first ∈ bindings.whole, whole = { name := first.name, style := first.style } := by
  obtain ⟨first, hfirst, rfl⟩ := List.mem_map.mp h
  exact ⟨first, mem_of_mem_eraseDupsBy hfirst, rfl⟩

/-- Every alias is left with one style. -/
theorem exists_merged_whole (h : whole ∈ bindings.whole) :
    ∃ first ∈ bindings.merged.whole, first.name = whole.name := by
  obtain ⟨first, hfirst, hname⟩ := exists_mem_eraseDupsBy
    (fun a b : WholeImport => a.name == b.name) (fun _ => beq_self_eq_true _) h
  exact ⟨_, List.mem_map_of_mem hfirst, (beq_iff_eq.mp hname).symm⟩

theorem merged_whole_unique {a b : WholeImport} (ha : a ∈ bindings.merged.whole)
    (hb : b ∈ bindings.merged.whole) (hname : a.name = b.name) : a = b := by
  have hpairwise : bindings.merged.whole.Pairwise fun a b => b.name ≠ a.name :=
    List.pairwise_map.mpr ((pairwise_eraseDupsBy _ bindings.whole).imp fun h => by simpa using h)
  by_contra hne
  have : Std.Symm fun a b : WholeImport => b.name ≠ a.name := ⟨fun _ _ => Ne.symm⟩
  exact hpairwise.forall ha hb hne hname.symm

end Bindings

/-! ## The specifiers and aliases of merged bindings -/

namespace Declarations

private theorem distinctAliases_eq (seen : List String) (list : List WholeImport) :
    distinctAliases seen list =
      (list.filter fun whole => !seen.contains whole.name).eraseDupsBy (·.name == ·.name) := by
  induction list generalizing seen with
  | nil => rfl
  | cons first rest ih =>
    unfold distinctAliases
    rw [List.filter_cons]
    cases hseen : seen.contains first.name with
    | true => simpa using ih seen
    | false =>
      simp only [Bool.false_eq_true, if_false, Bool.not_false, if_true]
      rw [List.eraseDupsBy_cons, ih, List.filter_filter]
      congr 2
      refine List.filter_congr fun whole _ => ?_
      rw [List.contains_cons]
      cases whole.name == first.name <;> simp

/-- Adds the specifiers of imports that were not moved. -/
private def addAll (found : List Specifier) (list : List NamedImport) : List Specifier :=
  list.foldl (fun found named => addSpecifier (sameBinding named) named.isTypeOnly found) found

private theorem specifiers_eq_addAll {list : List NamedImport}
    (htarget : ∀ named ∈ list, named.target = none) : specifiers list = addAll [] list := by
  unfold specifiers addAll
  refine List.foldl_ext _ _ [] fun found named hnamed => ?_
  rw [specifiersOf, htarget named hnamed]
  rfl

private theorem repeats_eq (a b : NamedImport) :
    a.repeats b = (sameBinding a == sameBinding b) := by
  rw [Bool.eq_iff_iff, beq_iff_eq, sameBinding_inj, NamedImport.repeats_iff]

/-- What repeats one import does not repeat another that differs from it. -/
private theorem filter_repeats_cons {first other : NamedImport} {rest : List NamedImport}
    (h : other.repeats first = false) :
    (first :: rest).filter (·.repeats other) =
      (rest.filter fun named => named.repeats first = false).filter (·.repeats other) := by
  have hfirst : ¬first.repeats other = true := by
    rw [repeats_eq, beq_iff_eq]
    intro hsame
    rw [repeats_eq, hsame, beq_self_eq_true] at h
    cases h
  rw [List.filter_cons, if_neg hfirst, List.filter_filter]
  refine List.filter_congr fun named _ => ?_
  cases hsame : named.repeats other with
  | false => rfl
  | true =>
    rw [repeats_eq, beq_iff_eq] at hsame
    rw [repeats_eq, ← hsame, ← repeats_eq] at h
    simp [h]

/-- A specifier that is there takes in the repeated ones, and the others go behind it. -/
private theorem addAll_cons (first : NamedImport) (isTypeOnly : Bool) (list : List NamedImport)
    (found : List Specifier) :
    addAll (⟨sameBinding first, isTypeOnly⟩ :: found) list =
      ⟨sameBinding first, isTypeOnly && (list.filter (·.repeats first)).all (·.isTypeOnly)⟩ ::
        addAll found (list.filter fun named => named.repeats first = false) := by
  unfold addAll
  induction list generalizing isTypeOnly found with
  | nil => simp
  | cons named rest ih =>
    rw [List.foldl_cons, addSpecifier, List.filter_cons, List.filter_cons]
    cases hsame : named.repeats first with
    | true =>
      have htext : sameBinding named = sameBinding first := by simpa [repeats_eq] using hsame
      rw [if_pos htext.symm, htext, ih]
      simp [Bool.and_assoc]
    | false =>
      have htext : sameBinding first ≠ sameBinding named := by
        intro h
        rw [repeats_eq, h, beq_self_eq_true] at hsame
        cases hsame
      rw [if_neg htext, ih]
      simp

private theorem addAll_eq (list : List NamedImport) :
    addAll [] list = (list.eraseDupsBy NamedImport.repeats).map fun first =>
      ⟨sameBinding first, (list.filter (·.repeats first)).all (·.isTypeOnly)⟩ := by
  induction list using repeats_induction NamedImport.repeats with
  | nil => rfl
  | cons first rest ih =>
    have hself : first.repeats first = true := NamedImport.repeats_iff.mpr ⟨rfl, rfl⟩
    have hstart : addAll [] (first :: rest) =
        addAll [⟨sameBinding first, first.isTypeOnly⟩] rest := rfl
    rw [hstart, addAll_cons, ih, List.eraseDupsBy_cons, List.map_cons]
    congr 1
    · rw [List.filter_cons, if_pos hself, List.all_cons]
    refine List.map_congr_left fun other hother => ?_
    have hdiffers : other.repeats first = false := by
      simpa using List.of_mem_filter (mem_of_mem_eraseDupsBy hother)
    rw [filter_repeats_cons hdiffers]

end Declarations

namespace Bindings

variable {bindings : Bindings}

/-- The specifiers of imports that were not moved are those of the merged ones. -/
theorem specifiers_eq_merged (htarget : ∀ named ∈ bindings.named, named.target = none) :
    specifiers bindings.named =
      bindings.merged.named.map fun named => ⟨sameBinding named, named.isTypeOnly⟩ := by
  rw [specifiers_eq_addAll htarget, addAll_eq]
  simp only [merged, List.map_map]
  rfl

/-- The aliases that are declared are the merged ones. -/
theorem distinctAliases_eq_merged :
    (distinctAliases [] bindings.whole).map
        (fun whole => ({ name := whole.name, style := whole.style } : WholeImport)) =
      bindings.merged.whole := by
  rw [distinctAliases_eq, List.filter_eq_self.mpr (by simp)]
  rfl

end Bindings

end SdkMigration
