import SdkMigration.Migration.Leftovers
import SdkMigration.Proofs.Drafts

/-!
# The stage of references that are left

The stage writes comments and marks single exports whose old names are still
needed.  It replaces nothing, so what a replacement covers stays the same, and
which exports are marked can be told before the stage starts.
-/

namespace SdkMigration

variable {lessons : Lessons} {body : Text}

theorem Draft.continues_keepLocal {allowed : Edit → Prop} (hkeeping : lessons.keeping)
    (draft : Draft) (index : Nat) :
    draft.Continues allowed lessons { draft with bindings := draft.bindings.keepLocal index } :=
  ⟨fun _ h => h, fun _ h => Or.inl h, fun h => h, Bindings.learns_keepLocal hkeeping _ index⟩

namespace Leftovers

/-- At a stop the stage at most writes a comment and marks an export. -/
theorem continues_flag {allowed : Edit → Prop} (hkeeping : lessons.keeping)
    (dropped : List (String × Nat)) (state : Leftovers) {visit : Visit}
    (hcomment : visit.IsNamed → ∀ advisory, allowed (visit.comment body advisory)) :
    state.draft.Continues allowed lessons (state.flag body dropped visit).draft := by
  cases visit with
  | call site around => exact .refl _
  | identifier id around =>
    cases hdropped : dropped.lookup id.name with
    | none =>
      simp only [flag, hdropped]
      exact .refl _
    | some index =>
      simp only [flag, hdropped]
      split
      · exact .refl _
      · have hnoted : state.draft.Continues allowed lessons
            (state.draft.addNotes [.unmigratedReference id.name id.span.start]) :=
          Draft.continues_addNotes _
        have hkept := (hnoted.trans (Draft.continues_count fun report =>
          { report with flaggedReferences := report.flaggedReferences + 1 })).trans
            (Draft.continues_keepLocal hkeeping _ index)
        split
        · exact hkept
        · exact hkept.trans (Draft.continues_insertComments body _ fun advisory _ =>
            hcomment trivial advisory)

theorem continues_foldl {allowed : Edit → Prop} (hkeeping : lessons.keeping)
    (dropped : List (String × Nat)) (stops : List Visit)
    (hcomment : ∀ visit ∈ stops, visit.IsNamed →
      ∀ advisory, allowed (visit.comment body advisory))
    (state : Leftovers) :
    state.draft.Continues allowed lessons (stops.foldl (flag body dropped) state).draft := by
  induction stops generalizing state with
  | nil => exact .refl _
  | cons visit rest ih =>
    rw [List.foldl_cons]
    exact (continues_flag hkeeping dropped state (hcomment visit List.mem_cons_self)).trans
      (ih (fun other hother => hcomment other (List.mem_cons_of_mem _ hother)) _)

end Leftovers

/-- The stage adds comments only. -/
theorem Draft.continues_flagLeftovers {allowed : Edit → Prop} (hkeeping : lessons.keeping)
    {program : Program} {draft : Draft}
    (hcomment : ∀ visit : Visit, program.NamedStop visit →
      ∀ advisory, allowed (visit.comment body advisory)) :
    draft.Continues allowed lessons (draft.flagLeftovers body program) := by
  unfold Draft.flagLeftovers
  split
  · exact .refl draft
  · exact Leftovers.continues_foldl hkeeping _ _
      (fun visit hvisit hnamed => hcomment visit (Program.namedStop_of_visit hvisit hnamed))
      { draft }

/-! ## Names that are dropped -/

/-- The dropped names are the local names of the exports that were moved to a
namespace of another name. -/
theorem mem_droppedNames {name : String} {index start : Nat} {list : List NamedImport} :
    (name, index) ∈ droppedNames start list ↔
      ∃ offset named, index = start + offset ∧ list[offset]? = some named ∧
        named.dropsLocalBinding = true ∧ named.localName = name := by
  induction list generalizing start with
  | nil => simp [droppedNames]
  | cons first rest ih =>
    have hrest : (name, index) ∈ droppedNames (start + 1) rest ↔
        ∃ offset named, index = start + (offset + 1) ∧ rest[offset]? = some named ∧
          named.dropsLocalBinding = true ∧ named.localName = name := by
      rw [ih]
      simp only [Nat.add_assoc, Nat.add_comm 1]
    constructor
    · intro h
      unfold droppedNames at h
      simp only at h
      split at h
      · rename_i hdrops
        rcases List.mem_cons.mp h with hhead | htail
        · obtain ⟨rfl, rfl⟩ := Prod.mk.inj hhead
          exact ⟨0, first, rfl, rfl, hdrops, rfl⟩
        · obtain ⟨offset, named, hindex, hnamed, hother⟩ := hrest.mp htail
          exact ⟨offset + 1, named, hindex, hnamed, hother⟩
      · obtain ⟨offset, named, hindex, hnamed, hother⟩ := hrest.mp h
        exact ⟨offset + 1, named, hindex, hnamed, hother⟩
    · rintro ⟨offset, named, hindex, hnamed, hdrops, hname⟩
      unfold droppedNames
      cases offset with
      | zero =>
        obtain rfl := Option.some.inj hnamed
        simp only [hdrops, if_true]
        rw [hindex, ← hname]
        exact List.mem_cons_self
      | succ offset =>
        have htail := hrest.mpr ⟨offset, named, hindex, hnamed, hdrops, hname⟩
        simp only
        split
        · exact List.mem_cons_of_mem _ htail
        · exact htail

theorem mem_of_lookup {name : String} {index : Nat} {list : List (String × Nat)}
    (h : list.lookup name = some index) : (name, index) ∈ list := by
  induction list with
  | nil => cases h
  | cons first rest ih =>
    obtain ⟨key, value⟩ := first
    rw [List.lookup_cons] at h
    split at h
    · rename_i hkey
      rw [beq_iff_eq.mp hkey, ← Option.some.inj h]
      exact List.mem_cons_self
    · exact List.mem_cons_of_mem _ (ih h)

/-- Without two imports of one name, the name of a dropped import leads back to it. -/
theorem lookup_droppedNames {list : List NamedImport} {index : Nat} {named : NamedImport}
    (hdistinct : (list.map NamedImport.localName).Nodup) (hnamed : list[index]? = some named)
    (hdrops : named.dropsLocalBinding = true) :
    (droppedNames 0 list).lookup named.localName = some index := by
  have hmem : (named.localName, index) ∈ droppedNames 0 list :=
    mem_droppedNames.mpr ⟨index, named, by omega, hnamed, hdrops, rfl⟩
  cases hlookup : (droppedNames 0 list).lookup named.localName with
  | none =>
    rw [List.lookup_eq_none_iff] at hlookup
    have hother := hlookup _ hmem
    simp at hother
  | some found =>
    obtain ⟨offset, other, hfound, hother, _, hname⟩ := mem_droppedNames.mp (mem_of_lookup hlookup)
    obtain rfl : found = offset := by omega
    have hlt : found < (list.map NamedImport.localName).length := by
      rw [List.length_map]
      exact (List.getElem?_eq_some_iff.mp hother).1
    have hsame : (list.map NamedImport.localName)[found]? =
        (list.map NamedImport.localName)[index]? := by
      rw [List.getElem?_map, List.getElem?_map, hother, hnamed, Option.map_some, Option.map_some,
        hname]
    rw [(List.getElem?_inj hlt hdistinct).mp hsame]

/-! ## Which exports are marked -/

/-- Whether an identifier that no replacement covers is seen at a stop, one
whose name is listed for the export at an index. -/
def Visit.asksFor (edits : Edits) (dropped : List (String × Nat)) (index : Nat) : Visit → Bool
  | .call _ _ => false
  | .identifier id _ => dropped.lookup id.name == some index && !edits.covers id.span.start

/-- A single export whose old name is needed or not. -/
def NamedImport.keptIf (named : NamedImport) (needed : Bool) : NamedImport :=
  { named with keepsLocalBinding := needed || named.keepsLocalBinding }

namespace Leftovers

theorem covers_flag (text : Text) (dropped : List (String × Nat)) (state : Leftovers)
    (visit : Visit) (position : Nat) :
    (state.flag text dropped visit).draft.edits.covers position =
      state.draft.edits.covers position := by
  cases visit with
  | call site around => rfl
  | identifier id around =>
    cases hdropped : dropped.lookup id.name with
    | none => simp only [flag, hdropped]
    | some index =>
      simp only [flag, hdropped]
      split
      · rfl
      · split
        · rfl
        · exact Draft.covers_insertComments _ _ _ _ _

/-- A stop marks the export that it asks for. -/
theorem named_flag (text : Text) (dropped : List (String × Nat)) (state : Leftovers)
    (visit : Visit) (index : Nat) :
    (state.flag text dropped visit).draft.bindings.named[index]? =
      state.draft.bindings.named[index]?.map
        (·.keptIf (visit.asksFor state.draft.edits dropped index)) := by
  have hsame : ∀ entry : Option NamedImport, entry = entry.map (·.keptIf false) := by
    intro entry
    cases entry <;> simp [NamedImport.keptIf]
  cases visit with
  | call site around => exact hsame _
  | identifier id around =>
    cases hdropped : dropped.lookup id.name with
    | none =>
      simp only [flag, Visit.asksFor, hdropped]
      exact hsame _
    | some found =>
      have hkept : (state.draft.bindings.keepLocal found).named[index]? =
          state.draft.bindings.named[index]?.map (·.keptIf (some found == some index)) := by
        simp only [Bindings.keepLocal, Bindings.getElem?_changeAt]
        by_cases hindex : index = found
        · subst hindex
          simp [NamedImport.keptIf]
        · have hother : (some found == some index) = false := by
            simpa using fun h : found = index => hindex h.symm
          rw [if_neg hindex, hother]
          exact hsame _
      simp only [flag, Visit.asksFor, hdropped]
      by_cases hcovers : state.draft.edits.covers id.span.start = true
      · simp only [hcovers, if_true, Bool.not_true, Bool.and_false]
        exact hsame _
      · simp only [hcovers, Bool.false_eq_true, if_false, Bool.not_false, Bool.and_true]
        split
        · exact hkept
        · rw [Draft.insertComments_bindings]
          exact hkept

theorem named_foldl (text : Text) (dropped : List (String × Nat)) (stops : List Visit)
    (state : Leftovers) (index : Nat) :
    (stops.foldl (flag text dropped) state).draft.bindings.named[index]? =
      state.draft.bindings.named[index]?.map
        (·.keptIf (stops.any (·.asksFor state.draft.edits dropped index))) := by
  induction stops generalizing state with
  | nil => simp [NamedImport.keptIf]
  | cons visit rest ih =>
    have hasks : ∀ other : Visit, other.asksFor (state.flag text dropped visit).draft.edits
        dropped index = other.asksFor state.draft.edits dropped index := by
      intro other
      cases other with
      | call => rfl
      | identifier id around => simp only [Visit.asksFor, covers_flag]
    rw [List.foldl_cons, ih, named_flag, Option.map_map, List.any_cons]
    simp only [hasks]
    congr 1
    funext named
    simp only [Function.comp, NamedImport.keptIf]
    rw [← Bool.or_assoc, Bool.or_comm (rest.any _)]

end Leftovers

/-- The stage marks the exports that some stop of the walk asks for. -/
theorem Draft.named_flagLeftovers (draft : Draft) (body : Text) (program : Program)
    (index : Nat) :
    (draft.flagLeftovers body program).bindings.named[index]? =
      draft.bindings.named[index]?.map (·.keptIf ((program.visits fun _ => false).any
        (·.asksFor draft.edits (droppedNames 0 draft.bindings.named) index))) := by
  unfold Draft.flagLeftovers
  split
  · rename_i hnone
    have hnobody : ((program.visits fun _ => false).any
        (·.asksFor draft.edits (droppedNames 0 draft.bindings.named) index)) = false := by
      rw [List.any_eq_false]
      intro visit _
      cases visit with
      | call => simp [Visit.asksFor]
      | identifier id around => simp [Visit.asksFor, hnone]
    rw [hnobody]
    cases draft.bindings.named[index]? <;> simp [NamedImport.keptIf]
  · exact Leftovers.named_foldl _ _ _ _ _

end SdkMigration
