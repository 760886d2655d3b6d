import SdkMigration.Migration.Draft
import SdkMigration.Proofs.Edits
import SdkMigration.Proofs.Learning
import SdkMigration.Proofs.Sites
import Mathlib.Data.List.Pairwise

/-!
# How drafts go on

Every step of a migration adds edits that overlap none of those collected
before, and lets the bindings learn.  `Draft.Continues` says this of two
drafts, together with what the added edits are allowed to be.  A stage is a
chain of such steps, so its theorem says only which edits it adds.

The stages that rewrite references add edits of two forms: comments at places
that no span of a landmark crosses, and replacements inside a chain.  Two
edits of these forms overlap only inside one chain.
-/

namespace SdkMigration

/-- Whether a draft goes on from another one, by adding allowed edits and by
learning allowed targets. -/
structure Draft.Continues (allowed : Edit → Prop) (lessons : Lessons)
    (before after : Draft) : Prop where
  kept : ∀ edit ∈ before.edits.held, edit ∈ after.edits.held
  added : ∀ edit ∈ after.edits.held, edit ∈ before.edits.held ∨ allowed edit
  consistent : before.edits.Consistent → after.edits.Consistent
  bindings : before.bindings.Learns lessons after.bindings

namespace Draft

variable {allowed : Edit → Prop} {lessons : Lessons} {draft : Draft}

namespace Continues

theorem refl (draft : Draft) : draft.Continues allowed lessons draft :=
  ⟨fun _ h => h, fun _ h => Or.inl h, fun h => h, .refl _⟩

theorem trans {a b c : Draft} (hab : a.Continues allowed lessons b)
    (hbc : b.Continues allowed lessons c) : a.Continues allowed lessons c where
  kept := fun edit h => hbc.kept edit (hab.kept edit h)
  added := by
    intro edit h
    rcases hbc.added edit h with h | h
    · exact hab.added edit h
    · exact Or.inr h
  consistent := fun h => hbc.consistent (hab.consistent h)
  bindings := hab.bindings.trans hbc.bindings

/-- What holds of all edits held before and of all that are allowed holds of all
edits held after. -/
theorem forall_held {p : Edit → Prop} {a b : Draft} (hab : a.Continues allowed lessons b)
    (hbefore : ∀ edit ∈ a.edits.held, p edit) (hallowed : ∀ edit, allowed edit → p edit) :
    ∀ edit ∈ b.edits.held, p edit :=
  fun edit hedit => (hab.added edit hedit).elim (hbefore edit) (hallowed edit)

end Continues

/-! ## Steps -/

theorem continues_of_eq {after : Draft} (hedits : after.edits = draft.edits)
    (hbindings : after.bindings = draft.bindings) : draft.Continues allowed lessons after := by
  refine ⟨?_, ?_, ?_, ?_⟩
  · rw [hedits]
    exact fun _ h => h
  · rw [hedits]
    exact fun _ h => Or.inl h
  · rw [hedits]
    exact fun h => h
  · rw [hbindings]
    exact .refl _

theorem continues_addNotes (notes : List Note) :
    draft.Continues allowed lessons (draft.addNotes notes) := continues_of_eq rfl rfl

theorem continues_count (change : Report → Report) :
    draft.Continues allowed lessons (draft.count change) := continues_of_eq rfl rfl

theorem tryEdit_of_free {edit : Edit} {place : Edits → Edit → Edits}
    (h : ∀ held ∈ draft.edits.held, held.overlaps edit = false) :
    draft.tryEdit edit place = ({ draft with edits := place draft.edits edit }, true) := by
  unfold tryEdit
  rw [Edits.conflict?_eq_none.mpr h]

theorem continues_tryEdit {edit : Edit} (h : allowed edit) :
    draft.Continues allowed lessons (draft.tryEdit edit).1 := by
  unfold tryEdit
  cases hconflict : draft.edits.conflict? edit with
  | some existing => exact continues_addNotes _
  | none =>
    refine ⟨fun _ hheld => List.mem_append_left _ hheld, ?_, fun hc => hc.append hconflict,
      .refl _⟩
    intro other hother
    rcases List.mem_append.mp hother with hother | hother
    · exact Or.inl hother
    · rw [List.mem_singleton.mp hother]
      exact Or.inr h

theorem continues_tryEdit_prepend {edit : Edit} (h : allowed edit) :
    draft.Continues allowed lessons (draft.tryEdit edit Edits.prepend).1 := by
  unfold tryEdit
  cases hconflict : draft.edits.conflict? edit with
  | some existing => exact continues_addNotes _
  | none =>
    refine ⟨fun _ hheld => List.mem_cons_of_mem _ hheld, ?_, fun hc => hc.prepend hconflict,
      .refl _⟩
    intro other hother
    rcases List.mem_cons.mp hother with hother | hother
    · rw [hother]
      exact Or.inr h
    · exact Or.inl hother

theorem continues_recordMatch {origin : Origin} {target : NamePath}
    (h : ∀ index named, origin = .named index → draft.bindings.named[index]? = some named →
      lessons.targets named.exported target.first) :
    draft.Continues allowed lessons (draft.recordMatch origin target) :=
  ⟨fun _ h => h, fun _ h => Or.inl h, fun h => h, Bindings.learns_recordMatch _ h⟩

/-- Steps that each go on from where the steps before them have led. -/
theorem continues_foldl {α : Type} {step : Draft → α → Draft} (list : List α)
    (h : ∀ later, draft.Continues allowed lessons later → ∀ a ∈ list,
      later.Continues allowed lessons (step later a)) :
    draft.Continues allowed lessons (list.foldl step draft) := by
  induction list generalizing draft with
  | nil => exact .refl draft
  | cons first rest ih =>
    have hfirst := h draft (.refl draft) first List.mem_cons_self
    refine hfirst.trans (ih ?_)
    intro later hlater a ha
    exact h later (hfirst.trans hlater) a (List.mem_cons_of_mem _ ha)

/-! ## Comments -/

/-- What every comment that is tried keeps, the writing of comments keeps. -/
theorem insertComments_induction {motive : Draft → Prop} (text : Text) (position : Nat)
    (advisories : List Advisory)
    (step : ∀ (draft : Draft), ∀ advisory ∈ advisories, motive draft →
      motive (draft.tryEdit ⟨Span.point position, advisory.insertion text position⟩).1)
    (h : motive draft) : motive (draft.insertComments text position advisories).1 := by
  unfold insertComments
  generalize Advisory.above text position = present
  generalize false = inserted
  induction advisories generalizing draft inserted with
  | nil => exact h
  | cons advisory rest ih =>
    have hrest : ∀ (draft : Draft), ∀ advisory ∈ rest, motive draft →
        motive (draft.tryEdit ⟨Span.point position, advisory.insertion text position⟩).1 :=
      fun draft other hother => step draft other (List.mem_cons_of_mem _ hother)
    simp only [List.foldl_cons]
    by_cases hpresent : present.contains advisory = true
    · simp only [hpresent, if_true]
      exact ih hrest h _
    · simp only [hpresent, Bool.false_eq_true, if_false]
      exact ih hrest (step draft advisory List.mem_cons_self h) _

theorem continues_insertComments (text : Text) {position : Nat} (advisories : List Advisory)
    (h : ∀ advisory ∈ advisories,
      allowed ⟨Span.point position, advisory.insertion text position⟩) :
    draft.Continues allowed lessons (draft.insertComments text position advisories).1 :=
  insertComments_induction text position advisories
    (fun _ advisory hadvisory hdraft => hdraft.trans (continues_tryEdit (h advisory hadvisory)))
    (.refl draft)

theorem tryEdit_bindings (draft : Draft) (edit : Edit) (place : Edits → Edit → Edits) :
    (draft.tryEdit edit place).1.bindings = draft.bindings := by
  unfold tryEdit
  split <;> rfl

theorem insertComments_bindings (draft : Draft) (text : Text) (position : Nat)
    (advisories : List Advisory) :
    (draft.insertComments text position advisories).1.bindings = draft.bindings :=
  insertComments_induction (motive := fun later => later.bindings = draft.bindings) text position
    advisories (fun _ _ _ h => (tryEdit_bindings _ _ _).trans h) rfl

/-- Comments cover nothing. -/
theorem covers_insertComments (draft : Draft) (text : Text) (place : Nat)
    (advisories : List Advisory) (position : Nat) :
    (draft.insertComments text place advisories).1.edits.covers position =
      draft.edits.covers position := by
  refine insertComments_induction (motive := fun later =>
    later.edits.covers position = draft.edits.covers position) text place advisories
      (fun later _ _ h => ?_) rfl
  rw [← h]
  unfold tryEdit
  split
  · rfl
  · simp [Edits.covers, Edits.append, Edit.isInsertion, Span.point, Span.isPoint]

end Draft

/-- The comment line of an advisory about a stop of a walk. -/
def Visit.comment (body : Text) (visit : Visit) (advisory : Advisory) : Edit :=
  let position := insertionPoint body.lineIndex visit.outer visit.start
  ⟨Span.point position, advisory.insertion body position⟩

/-- A comment about a node goes to the first in the text of the starts that are looked at: that
of the node, and from there outwards those on its line. -/
theorem min?_insertionPoint (line : Nat → Nat) (around : List Nat) (start : Nat) :
    (start :: around.takeWhile fun outer => line outer == line start).min? =
      some (insertionPoint line around start) := List.min?_cons'

/-- A comment about a node goes to its start or to that of a node around it. -/
theorem insertionPoint_mem (line : Nat → Nat) (around : List Nat) (start : Nat) :
    insertionPoint line around start = start ∨ insertionPoint line around start ∈ around :=
  (List.mem_cons.mp (List.min?_eq_some_iff.mp (min?_insertionPoint line around start)).1).imp_right
    fun h => (List.takeWhile_sublist _).subset h

theorem insertionPoint_le_start (line : Nat → Nat) (around : List Nat) (start : Nat) :
    insertionPoint line around start ≤ start :=
  (List.min?_eq_some_iff.mp (min?_insertionPoint line around start)).2 start List.mem_cons_self

/-! ## Edits at landmarks -/

namespace Landmarks

/-- Whether no span of a landmark crosses a position. -/
def Free (marks : Landmarks) (position : Nat) : Prop :=
  ∀ span ∈ marks.spans, span.Clear position

/-- Whether an edit is a comment at a free place, or lies inside one of the
chains that satisfy `inside`. -/
inductive Within (marks : Landmarks) (inside : Chain → Prop) : Edit → Prop where
  | comment {position : Nat} (newText : Text) (free : marks.Free position) :
    Within marks inside ⟨Span.point position, newText⟩
  | name {chain : Chain} {edit : Edit} (mem : chain ∈ marks.chains) (h : inside chain)
    (start_le : chain.span.start ≤ edit.span.start) (le_stop : edit.span.stop ≤ chain.span.stop) :
    Within marks inside edit

/-- A comment overlaps no replacement of a span that its place is clear of. -/
theorem point_not_overlaps {position : Nat} {span : Span} (newText other : Text)
    (h : span.Clear position) :
    Edit.overlaps ⟨Span.point position, newText⟩ ⟨span, other⟩ = false := by
  have hpoint : Edit.isInsertion ⟨Span.point position, newText⟩ = true := by
    simp [Edit.isInsertion, Span.isPoint, Span.point]
  unfold Edit.overlaps
  rw [hpoint]
  cases Edit.isInsertion ⟨span, other⟩ with
  | true => rfl
  | false =>
    show (decide (span.start < position) && decide (position < span.stop)) = false
    rw [Bool.and_eq_false_iff, decide_eq_false_iff_not, decide_eq_false_iff_not]
    unfold Span.Clear at h
    omega

namespace Placed

variable {text : Text} {lo hi : Nat} {marks : Landmarks}

theorem apart_of_ne (h : marks.Placed text lo hi) {a b : Chain} (ha : a ∈ marks.chains)
    (hb : b ∈ marks.chains) (hne : a ≠ b) : a.span.Apart b.span := by
  have hpairwise : marks.chains.Pairwise fun a b => a.span.Apart b.span :=
    List.pairwise_map.mp (List.pairwise_append.mp h.apart).1
  have : Std.Symm fun a b : Chain => a.span.Apart b.span := ⟨fun _ _ => Span.Apart.symm⟩
  exact hpairwise.forall ha hb hne

theorem apart_import (h : marks.Placed text lo hi) {chain : Chain} {span : Span}
    (hchain : chain ∈ marks.chains) (hspan : span ∈ marks.imports) : chain.span.Apart span :=
  (List.pairwise_append.mp h.apart).2.2 _ (List.mem_map_of_mem hchain) _ hspan

theorem nodup_chains (h : marks.Placed text lo hi) : marks.chains.Nodup := by
  have hpairwise : marks.chains.Pairwise fun a b => a.span.Apart b.span :=
    List.pairwise_map.mp (List.pairwise_append.mp h.apart).1
  refine List.Pairwise.imp_of_mem ?_ hpairwise
  intro a b ha _ hapart hab
  subst hab
  have hlt := (h.chains a ha).start_lt_stop
  unfold Span.Apart at hapart
  omega

theorem free_point (h : marks.Placed text lo hi) {point : Nat} (hpoint : point ∈ marks.points) :
    marks.Free point := h.clear point hpoint

theorem free_start (h : marks.Placed text lo hi) {chain : Chain} (hchain : chain ∈ marks.chains) :
    marks.Free chain.span.start := by
  intro span hspan
  have hlt := (h.chains chain hchain).start_lt_stop
  rcases mem_spans.mp hspan with ⟨other, hother, rfl⟩ | hspan
  · by_cases hsame : chain = other
    · subst hsame
      exact Or.inl (Nat.le_refl _)
    · rcases h.apart_of_ne hchain hother hsame with hapart | hapart
      · exact Or.inl (by omega)
      · exact Or.inr hapart
  · rcases h.apart_import hchain hspan with hapart | hapart
    · exact Or.inl (by omega)
    · exact Or.inr hapart

/-- The place for a comment about a stop of a walk is free. -/
theorem free_insertionPoint (h : marks.Placed text lo hi) (line : Nat → Nat) {visit : Visit}
    (hvisit : visit.Marked marks []) :
    marks.Free (insertionPoint line visit.outer visit.start) := by
  rcases insertionPoint_mem line visit.outer visit.start with hplace | hplace
  · rw [hplace]
    rcases hvisit.start with hpoint | ⟨chain, hchain, hstart⟩
    · exact h.free_point hpoint
    · rw [← hstart]
      exact h.free_start hchain
  · rcases hvisit.outer _ hplace with hnil | hpoint
    · simp at hnil
    · exact h.free_point hpoint

theorem start_le (h : marks.Placed text lo hi) {visit : Visit} (hvisit : visit.Marked marks []) :
    visit.start ≤ hi := by
  rcases hvisit.start with hpoint | ⟨chain, hchain, hstart⟩
  · exact (h.points _ hpoint).2
  · have hplaced := h.chains chain hchain
    have hlt := hplaced.start_lt_stop
    have hle := hplaced.le_hi
    omega

/-- A comment about a stop of a walk goes before it or on its start. -/
theorem insertionPoint_le (h : marks.Placed text lo hi) (line : Nat → Nat) {visit : Visit}
    (hvisit : visit.Marked marks []) : insertionPoint line visit.outer visit.start ≤ hi :=
  Nat.le_trans (insertionPoint_le_start line visit.outer visit.start) (h.start_le hvisit)

/-- A comment about a stop of a walk stands at a free place. -/
theorem within_comment (h : marks.Placed text lo hi) {inside : Chain → Prop} {visit : Visit}
    (hvisit : visit.Marked marks []) (advisory : Advisory) :
    marks.Within inside (visit.comment text advisory) :=
  .comment _ (h.free_insertionPoint text.lineIndex hvisit)

/-- Edits inside other chains do not overlap a replacement of a chain. -/
theorem not_overlaps_chain (h : marks.Placed text lo hi) {chain : Chain} {edit : Edit}
    (hchain : chain ∈ marks.chains) (hedit : marks.Within (· ≠ chain) edit) (newText : Text) :
    edit.overlaps ⟨chain.span, newText⟩ = false := by
  cases hedit with
  | comment other free =>
    exact point_not_overlaps other newText
      (free _ (mem_spans.mpr (Or.inl ⟨chain, hchain, rfl⟩)))
  | name mem hne start_le le_stop =>
    rcases h.apart_of_ne mem hchain hne with hapart | hapart
    · exact Edit.not_overlaps_of_le (Nat.le_trans le_stop hapart)
    · rw [Edit.overlaps_comm]
      exact Edit.not_overlaps_of_le (Nat.le_trans hapart start_le)

/-- Edits at landmarks do not overlap a replacement of an import declaration. -/
theorem not_overlaps_import (h : marks.Placed text lo hi) {inside : Chain → Prop} {span : Span}
    {edit : Edit} (hspan : span ∈ marks.imports) (hedit : marks.Within inside edit)
    (newText : Text) : edit.overlaps ⟨span, newText⟩ = false := by
  cases hedit with
  | comment other free =>
    exact point_not_overlaps other newText (free _ (mem_spans.mpr (Or.inr hspan)))
  | name mem _ start_le le_stop =>
    rcases h.apart_import mem hspan with hapart | hapart
    · exact Edit.not_overlaps_of_le (Nat.le_trans le_stop hapart)
    · rw [Edit.overlaps_comm]
      exact Edit.not_overlaps_of_le (Nat.le_trans hapart start_le)

/-- Edits at landmarks do not overlap an insertion at a free place. -/
theorem not_overlaps_point {inside : Chain → Prop} {position : Nat} {edit : Edit}
    (hposition : marks.Free position) (hedit : marks.Within inside edit) (newText : Text) :
    edit.overlaps ⟨Span.point position, newText⟩ = false := by
  rw [Edit.overlaps_comm]
  have hclear : edit.span.Clear position := by
    cases hedit with
    | @comment other _ _ =>
      show position ≤ other ∨ other ≤ position
      exact Nat.le_total _ _
    | name mem _ start_le le_stop =>
      rcases hposition _ (mem_spans.mpr (Or.inl ⟨_, mem, rfl⟩)) with hclear | hclear
      · exact Or.inl (Nat.le_trans hclear start_le)
      · exact Or.inr (Nat.le_trans le_stop hclear)
  exact point_not_overlaps newText edit.newText hclear

end Placed

end Landmarks

end SdkMigration
