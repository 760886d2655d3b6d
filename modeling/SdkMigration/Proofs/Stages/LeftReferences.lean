import SdkMigration.Migration.Transform
import SdkMigration.Proofs.Stages.Leftovers
import SdkMigration.Proofs.WrittenText

/-!
# Which references are flagged

An identifier is left by the stages before when it has the local name of a single export that was
moved to a namespace of another name, and no replacement covers it (`Draft.Leaves`).  The stage
of references that are left counts every such identifier, marks every export that has one, and
writes one comment at most at each place.

The counts, the marks and the comments are each told from the stops of the walk by induction, the
comments with the places where one was asked for already.  What the stage adds are insertions,
so which identifiers are covered does not change on the way.
-/

namespace SdkMigration

/-! ## The identifiers of a program -/

mutual

/-- The identifiers of a tree, but for variables and parameters where they are bound and for the
names in imports. -/
def Tree.identifiers : Tree → List Identifier
  | .leaf _ _ => []
  | .text _ _ => []
  | .identifier _ id => [id]
  | .binding _ type => identifiersAll type
  | .member _ object _ _ => object.identifiers
  | .call _ callee arguments typeArguments =>
    callee.identifiers ++ identifiersAll arguments ++ identifiersAll typeArguments
  | .qualified _ left _ => left.identifiers
  | .typeReference _ name arguments => name.identifiers ++ identifiersAll arguments
  | .heritage _ value arguments => value.identifiers ++ identifiersAll arguments
  | .declaration _ id parts => id :: identifiersAll parts
  | .importDeclaration _ => []
  | .importEquals _ _ => []
  | .anchored _ _ inner => inner.identifiers
  | .branch _ _ children => identifiersAll children

/-- The identifiers of trees. -/
def identifiersAll : List Tree → List Identifier
  | [] => []
  | tree :: rest => tree.identifiers ++ identifiersAll rest

end

/-- The identifiers of a program. -/
def Program.identifiers (program : Program) : List Identifier := identifiersAll program.items

/-- The identifier at a stop. -/
def Visit.identifier? : Visit → Option Identifier
  | .call _ _ => none
  | .identifier id _ => some id

mutual

/-- A walk that consumes nothing stops at every identifier of a tree once. -/
theorem Tree.filterMap_visits : ∀ (tree : Tree) (around : List Nat),
    (tree.visits (fun _ => false) around).filterMap Visit.identifier? = tree.identifiers
  | .leaf _ _, _ => rfl
  | .text _ _, _ => rfl
  | .identifier _ _, _ => rfl
  | .binding _ type, around => filterMap_visitsAll type around
  | .member _ object _ _, around => Tree.filterMap_visits object around
  | .call span callee arguments typeArguments, around => by
    have hcall : (Visit.call ⟨callee, arguments, span.start⟩ around).identifier? = none := rfl
    simp only [Tree.visits, Tree.identifiers, Bool.false_eq_true, if_false,
      List.filterMap_cons_none hcall, List.filterMap_append, Tree.filterMap_visits callee around,
      filterMap_visitsAll arguments around, filterMap_visitsAll typeArguments around]
  | .qualified _ left _, around => Tree.filterMap_visits left around
  | .typeReference _ name arguments, around => by
    simp [Tree.visits, Tree.identifiers, Tree.filterMap_visits name around,
      filterMap_visitsAll arguments around]
  | .heritage _ value arguments, around => by
    simp [Tree.visits, Tree.identifiers, Tree.filterMap_visits value around,
      filterMap_visitsAll arguments around]
  | .declaration _ id parts, around => congrArg (id :: ·) (filterMap_visitsAll parts around)
  | .importDeclaration _, _ => rfl
  | .importEquals _ _, _ => rfl
  | .anchored _ start inner, around => Tree.filterMap_visits inner (start :: around)
  | .branch _ _ children, around => filterMap_visitsAll children around

/-- A walk that consumes nothing stops at every identifier of trees once. -/
theorem filterMap_visitsAll : ∀ (trees : List Tree) (around : List Nat),
    (visitsAll (fun _ => false) around trees).filterMap Visit.identifier? = identifiersAll trees
  | [], _ => rfl
  | tree :: rest, around => by
    simp [visitsAll, identifiersAll, Tree.filterMap_visits tree around,
      filterMap_visitsAll rest around]

end

theorem Program.filterMap_visits_identifier (program : Program) :
    (program.visits fun _ => false).filterMap Visit.identifier? = program.identifiers :=
  filterMap_visitsAll program.items []

/-! ## Identifiers that are left -/

/-- Whether an identifier is left of a single export: it has the local name of the export, the
export was moved to a namespace of another name, and no replacement covers where it starts. -/
structure Draft.Leaves (draft : Draft) (named : NamedImport) (id : Identifier) : Prop where
  name : id.name = named.localName
  moved : ∃ target, named.target = some target ∧ target ≠ named.localName
  uncovered : ∀ edit ∈ draft.edits.held,
    ¬(edit.span.start ≤ id.span.start ∧ id.span.start < edit.span.stop)

theorem NamedImport.dropsLocalBinding_iff {named : NamedImport} :
    named.dropsLocalBinding = true ↔
      ∃ target, named.target = some target ∧ target ≠ named.localName := by
  unfold dropsLocalBinding
  cases named.target <;> simp

theorem Draft.leaves_iff {draft : Draft} {named : NamedImport} {id : Identifier} :
    draft.Leaves named id ↔ id.name = named.localName ∧ named.dropsLocalBinding = true ∧
      draft.edits.covers id.span.start = false := by
  have hcovers : draft.edits.covers id.span.start = false ↔ ∀ edit ∈ draft.edits.held,
      ¬(edit.span.start ≤ id.span.start ∧ id.span.start < edit.span.stop) := by
    rw [← Bool.not_eq_true, show draft.edits = ⟨draft.edits.held⟩ from rfl, Edits.covers_iff]
    simp only [not_exists, not_and]
  rw [hcovers, NamedImport.dropsLocalBinding_iff]
  exact ⟨fun h => ⟨h.name, h.moved, h.uncovered⟩, fun h => ⟨h.1, h.2.1, h.2.2⟩⟩

instance (draft : Draft) (named : NamedImport) (id : Identifier) :
    Decidable (draft.Leaves named id) :=
  decidable_of_iff _ Draft.leaves_iff.symm

/-- Whether the stage flags what is at a stop. -/
def Visit.isLeft (edits : Edits) (dropped : List (String × Nat)) : Visit → Bool
  | .call _ _ => false
  | .identifier id _ => (dropped.lookup id.name).isSome && !edits.covers id.span.start

/-- Where the comment about a stop goes. -/
def Visit.place (body : Text) (visit : Visit) : Nat :=
  insertionPoint body.lineIndex visit.outer visit.start

/-- The comment about a reference that is left. -/
def leftComment (body : Text) (position : Nat) : Edit :=
  ⟨Span.point position, Advisory.unmigratedReference.insertion body position⟩

/-- Whether the comment can be written at a position: it does not stand directly above it, and no
edit goes across the position. -/
structure Edits.TakesComment (edits : Edits) (body : Text) (position : Nat) : Prop where
  absent : Advisory.unmigratedReference ∉ Advisory.above body position
  free : ∀ edit ∈ edits.held, edit.overlaps (leftComment body position) = false

/-! ## One stop -/

section Stops

variable {draft : Draft} {body : Text} {position : Nat}

theorem Edit.overlaps_leftComment {other : Nat} :
    (leftComment body other).overlaps (leftComment body position) = false := by
  simp [leftComment, overlaps, isInsertion, Span.point, Span.isPoint]

/-- Whether a comment can be written does not change when others are. -/
theorem Edits.takesComment_append {edits later : Edits} {positions : List Nat}
    (h : later.held = edits.held ++ positions.map (leftComment body)) :
    later.TakesComment body position ↔ edits.TakesComment body position := by
  constructor
  · intro htakes
    refine ⟨htakes.absent, fun edit hedit => htakes.free edit ?_⟩
    rw [h]
    exact List.mem_append_left _ hedit
  · intro htakes
    refine ⟨htakes.absent, fun edit hedit => ?_⟩
    rw [h] at hedit
    rcases List.mem_append.mp hedit with hold | hnew
    · exact htakes.free edit hold
    · obtain ⟨other, -, rfl⟩ := List.mem_map.mp hnew
      exact Edit.overlaps_leftComment

namespace Draft

theorem held_insertLeftComment_of_takes (h : draft.edits.TakesComment body position) :
    (draft.insertComments body position [.unmigratedReference]).1.edits.held =
      draft.edits.held ++ [leftComment body position] := by
  have habsent : (Advisory.above body position).contains .unmigratedReference = false := by
    simpa using h.absent
  have hfree : draft.edits.conflict? (leftComment body position) = none := by
    rw [Edits.conflict?, List.find?_eq_none]
    exact fun edit hedit => by simp [h.free edit hedit]
  unfold leftComment at hfree
  simp only [insertComments, List.foldl_cons, List.foldl_nil, habsent, Bool.false_eq_true, if_false,
    tryEdit, hfree]
  rfl

theorem held_insertLeftComment_of_not_takes (h : ¬draft.edits.TakesComment body position) :
    (draft.insertComments body position [.unmigratedReference]).1.edits.held =
      draft.edits.held := by
  cases habsent : (Advisory.above body position).contains .unmigratedReference with
  | true => simp only [insertComments, List.foldl_cons, List.foldl_nil, habsent, if_true]
  | false =>
    have hconflict : draft.edits.conflict? (leftComment body position) ≠ none := by
      intro hnone
      rw [Edits.conflict?, List.find?_eq_none] at hnone
      exact h ⟨by simpa using habsent, fun edit hedit => by simpa using hnone edit hedit⟩
    obtain ⟨existing, hexisting⟩ := Option.ne_none_iff_exists'.mp hconflict
    unfold leftComment at hexisting
    simp only [insertComments, List.foldl_cons, List.foldl_nil, habsent, Bool.false_eq_true,
      if_false, tryEdit, hexisting]
    rfl

theorem insertComments_report (draft : Draft) (body : Text) (position : Nat)
    (advisories : List Advisory) :
    (draft.insertComments body position advisories).1.report = draft.report := by
  refine insertComments_induction (motive := fun later => later.report = draft.report) body
    position advisories (fun later advisory _ h => ?_) rfl
  unfold tryEdit
  split
  · exact h
  · exact h

end Draft

end Stops

namespace Leftovers

variable {body : Text} {dropped : List (String × Nat)} {state : Leftovers} {visit : Visit}

theorem flag_of_not_left (h : visit.isLeft state.draft.edits dropped = false) :
    state.flag body dropped visit = state := by
  cases visit with
  | call site around => rfl
  | identifier id around =>
    unfold Visit.isLeft at h
    cases hdropped : dropped.lookup id.name with
    | none => simp only [flag, hdropped]
    | some index =>
      have hcovers : state.draft.edits.covers id.span.start = true := by
        simpa [hdropped] using h
      simp only [flag, hdropped, hcovers, if_true]

/-- At what is left, the count grows and a comment is asked for. -/
theorem flag_of_left (h : visit.isLeft state.draft.edits dropped = true) :
    (state.flag body dropped visit).draft.report = { state.draft.report with
        flaggedReferences := state.draft.report.flaggedReferences + 1 } ∧
      (state.flag body dropped visit).draft.bindings.whole = state.draft.bindings.whole ∧
      if visit.place body ∈ state.commented then
        (state.flag body dropped visit).commented = state.commented ∧
          (state.flag body dropped visit).draft.edits.held = state.draft.edits.held
      else (state.flag body dropped visit).commented = visit.place body :: state.commented ∧
        ∃ before : Draft, before.edits = state.draft.edits ∧
          (state.flag body dropped visit).draft.edits.held = (before.insertComments body
            (visit.place body) [.unmigratedReference]).1.edits.held := by
  cases visit with
  | call site around => cases h
  | identifier id around =>
    unfold Visit.isLeft at h
    rw [Bool.and_eq_true, Bool.not_eq_true', Option.isSome_iff_exists] at h
    obtain ⟨⟨index, hdropped⟩, hcovers⟩ := h
    have hplace : (Visit.identifier id around).place body =
        insertionPoint body.lineIndex around id.span.start := rfl
    unfold flag
    simp only [hdropped, hcovers, Bool.false_eq_true, if_false, ← hplace, List.contains_iff_mem]
    split
    · exact ⟨rfl, rfl, rfl, rfl⟩
    · refine ⟨Draft.insertComments_report _ _ _ _, ?_, rfl, _, ?_, rfl⟩
      · rw [Draft.insertComments_bindings]
        rfl
      · rfl

/-- What a stop adds to the comments: one at its place, when it is left, none was asked for there
before, and one can be written there. -/
theorem held_flag (body : Text) (dropped : List (String × Nat)) (state : Leftovers)
    (visit : Visit) :
    ∃ positions : List Nat, positions.Nodup ∧
      (state.flag body dropped visit).draft.edits.held =
        state.draft.edits.held ++ positions.map (leftComment body) ∧
      (∀ position, position ∈ positions ↔ position ∉ state.commented ∧
        state.draft.edits.TakesComment body position ∧
        visit.isLeft state.draft.edits dropped = true ∧ visit.place body = position) ∧
      ∀ position, position ∈ (state.flag body dropped visit).commented ↔
        position ∈ state.commented ∨
          visit.isLeft state.draft.edits dropped = true ∧ visit.place body = position := by
  cases hleft : visit.isLeft state.draft.edits dropped with
  | false =>
    rw [flag_of_not_left hleft]
    exact ⟨[], by simp⟩
  | true =>
    obtain ⟨-, -, hasked⟩ := @flag_of_left body _ _ _ hleft
    split at hasked
    · rename_i hmem
      obtain ⟨hcommented, hheld⟩ := hasked
      refine ⟨[], List.nodup_nil, by simpa using hheld, fun position => ?_, fun position => ?_⟩
      · simp only [List.not_mem_nil, false_iff]
        rintro ⟨hnew, -, -, rfl⟩
        exact hnew hmem
      · rw [hcommented]
        exact ⟨Or.inl, fun h => h.elim id fun h => h.2 ▸ hmem⟩
    · rename_i hnew
      obtain ⟨hcommented, before, hbefore, hheld⟩ := hasked
      have hpositions : ∀ position,
          position ∈ (state.flag body dropped visit).commented ↔
            position ∈ state.commented ∨ true = true ∧ visit.place body = position := by
        intro position
        rw [hcommented, List.mem_cons, or_comm, eq_comm (a := position)]
        simp
      by_cases htakes : state.draft.edits.TakesComment body (visit.place body)
      · rw [← hbefore] at htakes
        rw [Draft.held_insertLeftComment_of_takes htakes, hbefore] at hheld
        rw [hbefore] at htakes
        refine ⟨[visit.place body], List.nodup_singleton _, hheld, fun position => ?_, hpositions⟩
        rw [List.mem_singleton]
        constructor
        · rintro rfl
          exact ⟨hnew, htakes, rfl, rfl⟩
        · exact fun h => h.2.2.2.symm
      · have hrefused := htakes
        rw [← hbefore] at hrefused
        rw [Draft.held_insertLeftComment_of_not_takes hrefused, hbefore] at hheld
        refine ⟨[], List.nodup_nil, by simpa using hheld, fun position => ?_, hpositions⟩
        simp only [List.not_mem_nil, false_iff]
        rintro ⟨-, htaken, -, rfl⟩
        exact htakes htaken

/-- Which stops are left does not change on the way. -/
theorem isLeft_flag (body : Text) (dropped : List (String × Nat)) (state : Leftovers)
    (visit other : Visit) :
    other.isLeft (state.flag body dropped visit).draft.edits dropped =
      other.isLeft state.draft.edits dropped := by
  cases other with
  | call site around => rfl
  | identifier id around => simp only [Visit.isLeft, covers_flag]

/-! ## A run over stops -/

/-- The run counts the stops that are left. -/
theorem report_foldl (body : Text) (dropped : List (String × Nat)) (stops : List Visit)
    (state : Leftovers) :
    (stops.foldl (flag body dropped) state).draft.report = { state.draft.report with
      flaggedReferences := state.draft.report.flaggedReferences +
        stops.countP (·.isLeft state.draft.edits dropped) } := by
  induction stops generalizing state with
  | nil => rfl
  | cons visit rest ih =>
    rw [List.foldl_cons, ih, List.countP_cons]
    simp only [isLeft_flag]
    cases hleft : visit.isLeft state.draft.edits dropped with
    | false =>
      rw [flag_of_not_left hleft]
      rfl
    | true =>
      rw [(flag_of_left hleft).1, if_pos rfl, Nat.add_assoc, Nat.add_comm 1]

theorem whole_foldl (body : Text) (dropped : List (String × Nat)) (stops : List Visit)
    (state : Leftovers) :
    (stops.foldl (flag body dropped) state).draft.bindings.whole =
      state.draft.bindings.whole := by
  induction stops generalizing state with
  | nil => rfl
  | cons visit rest ih =>
    rw [List.foldl_cons, ih]
    cases hleft : visit.isLeft state.draft.edits dropped with
    | false => rw [flag_of_not_left hleft]
    | true => exact (flag_of_left hleft).2.1

/-- The run writes one comment at every place of a stop that is left, where none was asked for
before the run and one can be written. -/
theorem held_foldl (body : Text) (dropped : List (String × Nat)) (stops : List Visit)
    (state : Leftovers) :
    ∃ positions : List Nat, positions.Nodup ∧
      (stops.foldl (flag body dropped) state).draft.edits.held =
        state.draft.edits.held ++ positions.map (leftComment body) ∧
      ∀ position, position ∈ positions ↔ position ∉ state.commented ∧
        state.draft.edits.TakesComment body position ∧
        ∃ visit ∈ stops, visit.isLeft state.draft.edits dropped = true ∧
          visit.place body = position := by
  induction stops generalizing state with
  | nil => exact ⟨[], by simp⟩
  | cons visit rest ih =>
    obtain ⟨here, hhere, hheld, hmem, hcommented⟩ := held_flag body dropped state visit
    obtain ⟨later, hlater, hlaterHeld, hlaterMem⟩ := ih (state.flag body dropped visit)
    simp only [Edits.takesComment_append hheld, isLeft_flag, hcommented] at hlaterMem
    refine ⟨here ++ later, ?_, ?_, fun position => ?_⟩
    · refine List.nodup_append'.mpr ⟨hhere, hlater, fun position hfirst hsecond => ?_⟩
      exact ((hlaterMem position).mp hsecond).1 (Or.inr ((hmem position).mp hfirst).2.2)
    · rw [List.foldl_cons, hlaterHeld, hheld, List.map_append, List.append_assoc]
    · simp only [List.mem_append, hmem, hlaterMem, List.mem_cons, exists_eq_or_imp]
      by_cases hfirst : visit.isLeft state.draft.edits dropped = true ∧ visit.place body = position
      · simp [hfirst]
      · simp [hfirst]

end Leftovers

/-! ## The stage -/

/-- A name is dropped when it is the local name of an export that was moved to a namespace of
another name. -/
theorem isSome_lookup_droppedNames {list : List NamedImport} {name : String} :
    ((droppedNames 0 list).lookup name).isSome = true ↔
      ∃ named ∈ list, named.dropsLocalBinding = true ∧ name = named.localName := by
  constructor
  · intro h
    obtain ⟨index, hindex⟩ := Option.isSome_iff_exists.mp h
    obtain ⟨_, named, -, hnamed, hdrops, hname⟩ := mem_droppedNames.mp (mem_of_lookup hindex)
    exact ⟨named, List.mem_of_getElem? hnamed, hdrops, hname.symm⟩
  · rintro ⟨named, hnamed, hdrops, rfl⟩
    obtain ⟨index, hindex⟩ := List.mem_iff_getElem?.mp hnamed
    have hmem : (named.localName, index) ∈ droppedNames 0 list :=
      mem_droppedNames.mpr ⟨index, named, by omega, hindex, hdrops, rfl⟩
    rw [Option.isSome_iff_ne_none]
    intro hnone
    have hother := List.lookup_eq_none_iff.mp hnone _ hmem
    simp at hother

/-- Without two imports of one name, a dropped name leads to the export that it names. -/
theorem lookup_droppedNames_iff {list : List NamedImport} {index : Nat} {named : NamedImport}
    {name : String} (hdistinct : (list.map NamedImport.localName).Nodup)
    (hnamed : list[index]? = some named) :
    (droppedNames 0 list).lookup name = some index ↔
      name = named.localName ∧ named.dropsLocalBinding = true := by
  constructor
  · intro h
    obtain ⟨offset, other, hindex, hother, hdrops, hname⟩ := mem_droppedNames.mp (mem_of_lookup h)
    rw [Nat.zero_add] at hindex
    rw [← hindex, hnamed] at hother
    obtain rfl := Option.some.inj hother
    exact ⟨hname.symm, hdrops⟩
  · rintro ⟨rfl, hdrops⟩
    exact lookup_droppedNames hdistinct hnamed hdrops

section Stage

variable {draft : Draft} {body : Text} {program : Program}

/-- What is left at a stop is an identifier that is left of some export. -/
theorem Visit.isLeft_iff {visit : Visit} :
    visit.isLeft draft.edits (droppedNames 0 draft.bindings.named) = true ↔
      ∃ id, visit.identifier? = some id ∧ ∃ named ∈ draft.bindings.named,
        draft.Leaves named id := by
  cases visit with
  | call site around => simp [isLeft, identifier?]
  | identifier id around =>
    unfold isLeft identifier?
    simp only [Bool.and_eq_true, isSome_lookup_droppedNames, Bool.not_eq_true', Option.some.injEq,
      exists_eq_left', Draft.leaves_iff]
    constructor
    · rintro ⟨⟨named, hnamed, hdrops, hname⟩, hcovers⟩
      exact ⟨named, hnamed, hname, hdrops, hcovers⟩
    · rintro ⟨named, hnamed, hname, hdrops, hcovers⟩
      exact ⟨⟨named, hnamed, hdrops, hname⟩, hcovers⟩

/-- A stop asks for an export when it is left of the export. -/
theorem Visit.asksFor_iff_leaves {visit : Visit} {index : Nat} {named : NamedImport}
    (hdistinct : (draft.bindings.named.map NamedImport.localName).Nodup)
    (hnamed : draft.bindings.named[index]? = some named) :
    visit.asksFor draft.edits (droppedNames 0 draft.bindings.named) index = true ↔
      ∃ id, visit.identifier? = some id ∧ draft.Leaves named id := by
  cases visit with
  | call site around => simp [asksFor, identifier?]
  | identifier id around =>
    unfold asksFor identifier?
    simp only [Bool.and_eq_true, beq_iff_eq, lookup_droppedNames_iff hdistinct hnamed,
      Bool.not_eq_true', Option.some.injEq, exists_eq_left', Draft.leaves_iff, and_assoc]

/-- The stage is a run over the stops of the walk, also when no name is dropped. -/
theorem Draft.flagLeftovers_eq :
    draft.flagLeftovers body program = ((program.visits fun _ => false).foldl
      (Leftovers.flag body (droppedNames 0 draft.bindings.named)) { draft }).draft := by
  unfold flagLeftovers
  split
  · rename_i hnone
    rw [hnone]
    generalize (program.visits fun _ => false) = stops
    induction stops with
    | nil => rfl
    | cons visit rest ih =>
      have hkept : Leftovers.flag body [] { draft } visit = { draft } :=
        Leftovers.flag_of_not_left (by cases visit <;> rfl)
      rw [List.foldl_cons, hkept]
      exact ih
  · rfl

/-- **What the stage of references that are left does.**  It counts the identifiers that are left,
and it marks the exports that they are left of; what the exports were moved to, and the module as a
whole under an alias, stay as they are.  What it adds to the edits are comments, one at each place
of an identifier that is left where the comment does not stand already and no edit is in the
way. -/
theorem Draft.flagLeftovers_exact
    (hdistinct : (draft.bindings.named.map NamedImport.localName).Nodup) :
    (draft.flagLeftovers body program).report = { draft.report with
        flaggedReferences := draft.report.flaggedReferences +
          program.identifiers.countP fun id =>
            ∃ named ∈ draft.bindings.named, draft.Leaves named id } ∧
      (draft.flagLeftovers body program).bindings = { draft.bindings with
        named := draft.bindings.named.map fun named => { named with
          keepsLocalBinding := named.keepsLocalBinding ||
            decide (∃ id ∈ program.identifiers, draft.Leaves named id) } } ∧
      ∃ positions : List Nat, positions.Nodup ∧
        (draft.flagLeftovers body program).edits.held =
          draft.edits.held ++ positions.map (leftComment body) ∧
        ∀ position, position ∈ positions ↔ draft.edits.TakesComment body position ∧
          ∃ visit ∈ program.visits fun _ => false, visit.place body = position ∧
            ∃ id, visit.identifier? = some id ∧
              ∃ named ∈ draft.bindings.named, draft.Leaves named id := by
  have hidentifiers := program.filterMap_visits_identifier
  refine ⟨?_, ?_, ?_⟩
  · have hcount : (program.visits fun _ => false).countP
        (·.isLeft draft.edits (droppedNames 0 draft.bindings.named)) =
          program.identifiers.countP fun id =>
            ∃ named ∈ draft.bindings.named, draft.Leaves named id := by
      rw [← hidentifiers, List.countP_filterMap]
      refine List.countP_congr fun visit _ => ?_
      rw [Visit.isLeft_iff]
      cases visit.identifier? <;> simp
    rw [flagLeftovers_eq, Leftovers.report_foldl, hcount]
  · have hwhole : (draft.flagLeftovers body program).bindings.whole = draft.bindings.whole := by
      rw [flagLeftovers_eq, Leftovers.whole_foldl]
    have hnamed : (draft.flagLeftovers body program).bindings.named =
        draft.bindings.named.map fun named => { named with
          keepsLocalBinding := named.keepsLocalBinding ||
            decide (∃ id ∈ program.identifiers, draft.Leaves named id) } := by
      refine List.ext_getElem? fun index => ?_
      rw [named_flagLeftovers, List.getElem?_map]
      cases hindex : draft.bindings.named[index]? with
      | none => rfl
      | some named =>
        have hasked : ((program.visits fun _ => false).any
            (·.asksFor draft.edits (droppedNames 0 draft.bindings.named) index)) =
              decide (∃ id ∈ program.identifiers, draft.Leaves named id) := by
          rw [Bool.eq_iff_iff, List.any_eq_true, decide_eq_true_iff, ← hidentifiers]
          simp only [Visit.asksFor_iff_leaves hdistinct hindex, List.mem_filterMap]
          constructor
          · rintro ⟨visit, hvisit, id, hid, hleaves⟩
            exact ⟨id, ⟨visit, hvisit, hid⟩, hleaves⟩
          · rintro ⟨id, ⟨visit, hvisit, hid⟩, hleaves⟩
            exact ⟨visit, hvisit, id, hid, hleaves⟩
        rw [Option.map_some, Option.map_some, NamedImport.keptIf, hasked, Bool.or_comm]
    exact congrArg₂ Bindings.mk hnamed hwhole
  · obtain ⟨positions, hnodup, hheld, hmem⟩ := Leftovers.held_foldl body
      (droppedNames 0 draft.bindings.named) (program.visits fun _ => false) { draft }
    rw [← flagLeftovers_eq] at hheld
    refine ⟨positions, hnodup, hheld, fun position => (hmem position).trans ?_⟩
    simp only [List.not_mem_nil, not_false_iff, true_and, Visit.isLeft_iff, and_comm]

end Stage

/-- A file with one reference that is replaced, and two on a line that are left. -/
private def leftTwiceFile : Text :=
  ("import \x7b settings \x7d from \"@microsoft/teams-js\";\n" ++
    "settings.setValidityState(true);\nf(settings, settings);\n").toList

private theorem leftTwiceFile_facts :
    ∃ program ∈ Program.read? ⟨true, false, true⟩ leftTwiceFile,
      let draft := referenceDraft {} ⟨true, false, true⟩ leftTwiceFile program
      (draft.bindings.named.map NamedImport.localName).Nodup ∧
        draft.report.flaggedReferences = 0 ∧
        (∀ named ∈ draft.bindings.named, ∃ id ∈ program.identifiers, draft.Leaves named id) ∧
        (program.identifiers.countP fun id =>
          ∃ named ∈ draft.bindings.named, draft.Leaves named id) = 2 ∧
        ∀ visit ∈ program.visits fun _ => false, ∀ id ∈ visit.identifier?,
          (∃ named ∈ draft.bindings.named, draft.Leaves named id) →
            visit.place leftTwiceFile = 81 := by
  decide +kernel

/-- Both references are counted, they share a comment, and the export is marked. -/
theorem leftTwiceFile_flagged :
    ∃ program, Program.read? ⟨true, false, true⟩ leftTwiceFile = some program ∧
      let draft := referenceDraft {} ⟨true, false, true⟩ leftTwiceFile program
      let after := draft.flagLeftovers leftTwiceFile program
      (draft.bindings.named.map NamedImport.localName).Nodup ∧
        draft.report.flaggedReferences = 0 ∧ after.report.flaggedReferences = 2 ∧
        (∀ named ∈ after.bindings.named, named.keepsLocalBinding = true) ∧
        ∃ positions : List Nat, positions.Nodup ∧ (∀ position ∈ positions, position = 81) ∧
          after.edits.held = draft.edits.held ++ positions.map (leftComment leftTwiceFile) := by
  obtain ⟨program, hread, hdistinct, hbefore, hleft, hcount, hplace⟩ := leftTwiceFile_facts
  obtain ⟨hreport, hbindings, positions, hnodup, hheld, hpositions⟩ :=
    @Draft.flagLeftovers_exact _ leftTwiceFile program hdistinct
  refine ⟨program, hread, hdistinct, hbefore, ?_, ?_, positions, hnodup,
    fun position hposition => ?_, hheld⟩
  · rw [hreport]
    show _ + _ = 2
    rw [hbefore, hcount]
  · rw [hbindings]
    intro named hnamed
    obtain ⟨before, hmem, rfl⟩ := List.mem_map.mp hnamed
    simp only [decide_eq_true (hleft before hmem), Bool.or_true]
  · obtain ⟨-, visit, hvisit, rfl, id, hid, hfound⟩ := (hpositions position).mp hposition
    exact hplace visit hvisit id hid hfound

end SdkMigration
