import SdkMigration.Edit.Basic
import Mathlib.Data.List.Pairwise
import Mathlib.Data.List.Sort

/-!
# Carrying out edits

Edits that do not overlap can be put in the order of their places, and then
each ends before the next one starts.  A text with such edits carried out
falls apart at every place that none of them crosses: what stands before the
place is changed by the edits before it alone, and what stands behind it by
the edits behind it.

`Edits.Reads` says what the text holds in the place of a span.  It is the new
text of a replacement that is held for the span, and the old text where no
edit touches it.
-/

namespace SdkMigration

namespace Edit

/-! ## Overlapping -/

theorem overlaps_comm (a b : Edit) : a.overlaps b = b.overlaps a := by
  unfold overlaps
  cases a.isInsertion <;> cases b.isInsertion <;> simp [Bool.and_comm]

theorem follows_iff (a b : Edit) :
    a.follows b = true ↔ b.span.start < a.span.start ∨
      (a.span.start = b.span.start ∧ b.span.stop < a.span.stop) := by
  simp [follows]

/-- Of two edits that do not overlap, the one that does not follow ends
before the other starts. -/
theorem stop_le_start {a b : Edit} (hoverlap : a.overlaps b = false)
    (hfollows : a.follows b = false) : a.span.stop ≤ b.span.start := by
  have ha := a.span.start_le_stop
  have hb := b.span.start_le_stop
  have hnot : ¬ (b.span.start < a.span.start ∨
      (a.span.start = b.span.start ∧ b.span.stop < a.span.stop)) := by
    rw [← follows_iff, hfollows]
    exact Bool.false_ne_true
  cases hia : a.isInsertion <;> cases hib : b.isInsertion <;>
    simp only [overlaps, hia, hib, strictlyInside, Bool.and_eq_false_iff,
      decide_eq_false_iff_not] at hoverlap <;>
    simp only [isInsertion, Span.isPoint, beq_iff_eq, beq_eq_false_iff_ne] at hia hib <;>
    omega

/-- An edit whose span ends where another one starts, or before, does not
overlap it. -/
theorem not_overlaps_of_le {a b : Edit} (h : a.span.stop ≤ b.span.start) :
    a.overlaps b = false := by
  have ha := a.span.start_le_stop
  have hb := b.span.start_le_stop
  cases hia : a.isInsertion <;> cases hib : b.isInsertion <;>
    simp only [overlaps, hia, hib, strictlyInside, Bool.and_eq_false_iff,
      decide_eq_false_iff_not] <;>
    omega

theorem isInsertion_point (position : Nat) (newText : Text) :
    isInsertion ⟨Span.point position, newText⟩ = true := beq_self_eq_true position

/-- Insertions never overlap. -/
theorem not_overlaps_of_isInsertion {a b : Edit} (ha : a.isInsertion = true)
    (hb : b.isInsertion = true) : a.overlaps b = false := by
  simp [overlaps, ha, hb]

end Edit

namespace Edits

/-- Whether no two of the edits overlap. -/
def Consistent (edits : Edits) : Prop :=
  edits.held.Pairwise fun a b => a.overlaps b = false

theorem consistent_of_held_eq_nil {edits : Edits} (h : edits.held = []) : edits.Consistent := by
  rw [Consistent, h]
  exact .nil

theorem consistent_nil : Consistent {} := consistent_of_held_eq_nil rfl

theorem conflict?_eq_none {edits : Edits} {edit : Edit} :
    edits.conflict? edit = none ↔ ∀ held ∈ edits.held, held.overlaps edit = false := by
  simp [conflict?]

theorem Consistent.append {edits : Edits} (h : edits.Consistent) {edit : Edit}
    (hnone : edits.conflict? edit = none) : (edits.append edit).Consistent := by
  have hfree := conflict?_eq_none.mp hnone
  unfold Consistent Edits.append
  rw [List.pairwise_append]
  refine ⟨h, List.pairwise_singleton _ _, ?_⟩
  intro a ha b hb
  rw [List.mem_singleton.mp hb]
  exact hfree a ha

theorem Consistent.prepend {edits : Edits} (h : edits.Consistent) {edit : Edit}
    (hnone : edits.conflict? edit = none) : (edits.prepend edit).Consistent := by
  have hfree := conflict?_eq_none.mp hnone
  refine List.pairwise_cons.mpr ⟨?_, h⟩
  intro b hb
  rw [Edit.overlaps_comm]
  exact hfree b hb

/-! ## The order of edits -/

/-- Whether each of the edits ends before the next one starts. -/
abbrev Ordered (edits : List Edit) : Prop :=
  edits.Pairwise fun a b => a.span.stop ≤ b.span.start

theorem insertInOrder_perm (edit : Edit) (edits : List Edit) :
    (insertInOrder edit edits).Perm (edit :: edits) := by
  induction edits with
  | nil => exact List.Perm.refl _
  | cons other rest ih =>
    unfold insertInOrder
    split
    · exact List.Perm.refl _
    · exact (ih.cons other).trans (List.Perm.swap edit other rest)

theorem insertInOrder_sorted (edit : Edit) {edits : List Edit}
    (h : edits.Pairwise fun a b => a.follows b = false) :
    (insertInOrder edit edits).Pairwise fun a b => a.follows b = false := by
  induction edits with
  | nil => exact List.pairwise_singleton _ _
  | cons other rest ih =>
    obtain ⟨hother, hrest⟩ := List.pairwise_cons.mp h
    unfold insertInOrder
    split
    case isTrue hfollows =>
      refine List.pairwise_cons.mpr ⟨?_, h⟩
      intro b hb
      rw [Edit.follows_iff] at hfollows
      rcases List.mem_cons.mp hb with rfl | hb
      · rw [← Bool.not_eq_true, Edit.follows_iff]
        omega
      · have hlater := hother b hb
        rw [← Bool.not_eq_true, Edit.follows_iff] at hlater ⊢
        omega
    case isFalse hfollows =>
      refine List.pairwise_cons.mpr ⟨?_, ih hrest⟩
      intro b hb
      rcases List.mem_cons.mp ((insertInOrder_perm edit rest).mem_iff.mp hb) with rfl | hb
      · exact Bool.eq_false_iff.mpr hfollows
      · exact hother b hb

private theorem foldl_insertInOrder_perm (edits sorted : List Edit) :
    (edits.foldl (fun sorted edit => insertInOrder edit sorted) sorted).Perm
      (sorted ++ edits) := by
  induction edits generalizing sorted with
  | nil => simp
  | cons edit rest ih =>
    refine (ih (insertInOrder edit sorted)).trans ?_
    refine ((insertInOrder_perm edit sorted).append_right rest).trans ?_
    exact List.perm_middle.symm

private theorem foldl_insertInOrder_sorted (edits sorted : List Edit)
    (h : sorted.Pairwise fun a b => a.follows b = false) :
    (edits.foldl (fun sorted edit => insertInOrder edit sorted) sorted).Pairwise
      fun a b => a.follows b = false := by
  induction edits generalizing sorted with
  | nil => exact h
  | cons edit rest ih => exact ih _ (insertInOrder_sorted edit h)

theorem inOrder_perm (edits : List Edit) : (inOrder edits).Perm edits :=
  foldl_insertInOrder_perm edits []

theorem mem_inOrder {edits : List Edit} {edit : Edit} : edit ∈ inOrder edits ↔ edit ∈ edits :=
  (inOrder_perm edits).mem_iff

/-- Edits that do not overlap are ordered once they are put in order. -/
theorem Consistent.ordered {edits : Edits} (h : edits.Consistent) :
    Ordered (inOrder edits.held) := by
  have hsorted : (inOrder edits.held).Pairwise fun a b => a.follows b = false :=
    foldl_insertInOrder_sorted edits.held [] List.Pairwise.nil
  have hfree : (inOrder edits.held).Pairwise fun a b => a.overlaps b = false := by
    refine (List.Perm.pairwise_iff ?_ (inOrder_perm edits.held)).mpr h
    intro a b hab
    rw [Edit.overlaps_comm]
    exact hab
  refine (hsorted.and hfree).imp ?_
  intro a b hab
  exact Edit.stop_le_start hab.2 hab.1

/-! ## Cutting the text in two -/

/-- The text before the first edit can be split off. -/
private theorem splice_skip {position cut : Nat} (rest : Text) {edits : List Edit}
    (hposition : position ≤ cut) (hbehind : ∀ edit ∈ edits, cut ≤ edit.span.start) :
    splice position rest edits =
      rest.take (cut - position) ++ splice cut (rest.drop (cut - position)) edits := by
  cases edits with
  | nil => exact (List.take_append_drop _ _).symm
  | cons edit others =>
    have hstart := hbehind edit (List.mem_cons_self)
    have hstop := edit.span.start_le_stop
    have htake : edit.span.start - position =
        (cut - position) + (edit.span.start - cut) := by omega
    have hdrop : edit.span.stop - position =
        (cut - position) + (edit.span.stop - cut) := by omega
    simp only [splice, List.drop_drop]
    rw [htake, List.take_add, ← hdrop]
    simp only [List.append_assoc]

/-- The text falls apart at a place that no edit crosses. -/
theorem splice_append {position cut : Nat} (rest : Text) {before after : List Edit}
    (hordered : Ordered before) (hposition : position ≤ cut)
    (hstart : ∀ edit ∈ before, position ≤ edit.span.start)
    (hbefore : ∀ edit ∈ before, edit.span.stop ≤ cut)
    (hafter : ∀ edit ∈ after, cut ≤ edit.span.start) :
    splice position rest (before ++ after) =
      splice position (rest.take (cut - position)) before ++
        splice cut (rest.drop (cut - position)) after := by
  induction before generalizing position rest with
  | nil => exact splice_skip rest hposition hafter
  | cons edit others ih =>
    obtain ⟨hnext, hothers⟩ := List.pairwise_cons.mp hordered
    have hfrom := hstart edit List.mem_cons_self
    have hto := hbefore edit List.mem_cons_self
    have hspan := edit.span.start_le_stop
    have hih := ih (rest.drop (edit.span.stop - position)) hothers hto hnext
      (fun other hother => hbefore other (List.mem_cons_of_mem _ hother))
    have htake : (rest.take (cut - position)).take (edit.span.start - position) =
        rest.take (edit.span.start - position) := by
      rw [List.take_take, Nat.min_eq_left (by omega)]
    have hmiddle : (rest.take (cut - position)).drop (edit.span.stop - position) =
        (rest.drop (edit.span.stop - position)).take (cut - edit.span.stop) := by
      rw [List.drop_take]
      congr 1
      omega
    have hdrop : (rest.drop (edit.span.stop - position)).drop (cut - edit.span.stop) =
        rest.drop (cut - position) := by
      rw [List.drop_drop]
      congr 1
      omega
    rw [hdrop] at hih
    simp only [List.cons_append, splice, htake, hmiddle, hih, List.append_assoc]

/-! ## What the text holds in the place of a span -/

/-- The edits that end at a position or before it, in order. -/
def upTo (edits : Edits) (position : Nat) : List Edit :=
  (inOrder edits.held).filter fun edit => decide (edit.span.stop ≤ position)

/-- The edits that start at a position or behind it, in order. -/
def behind (edits : Edits) (position : Nat) : List Edit :=
  (inOrder edits.held).filter fun edit => decide (position ≤ edit.span.start)

/-- Whether the text with all edits carried out has the given spelling in the
place of a span: what the edits before the span make of the text before it,
the spelling, and what the edits behind the span make of the text behind
it. -/
def Reads (edits : Edits) (text : Text) (span : Span) (spelling : Text) : Prop :=
  edits.apply text =
    splice 0 (text.take span.start) (edits.upTo span.start) ++ spelling ++
      splice span.stop (text.drop span.stop) (edits.behind span.stop)

instance (edits : Edits) (text : Text) (span : Span) (spelling : Text) :
    Decidable (edits.Reads text span spelling) := inferInstanceAs (Decidable (_ = _))

/-- Ordered edits split at a span that is not empty into those up to it, those
that are for the span itself, and those behind it. -/
private theorem filter_upTo {before after : List Edit} {cut stop : Nat} (hcut : cut < stop)
    (middle : List Edit) (hmiddle : ∀ edit ∈ middle, stop ≤ edit.span.stop)
    (hbefore : ∀ edit ∈ before, edit.span.stop ≤ cut)
    (hafter : ∀ edit ∈ after, stop ≤ edit.span.start) :
    (before ++ middle ++ after).filter (fun edit => decide (edit.span.stop ≤ cut)) = before := by
  have hkeep : before.filter (fun edit => decide (edit.span.stop ≤ cut)) = before := by
    rw [List.filter_eq_self]
    intro edit hedit
    exact decide_eq_true (hbefore edit hedit)
  have hdropMiddle : middle.filter (fun edit => decide (edit.span.stop ≤ cut)) = [] := by
    rw [List.filter_eq_nil_iff]
    intro edit hedit
    have := hmiddle edit hedit
    simp only [decide_eq_true_eq]
    omega
  have hdropAfter : after.filter (fun edit => decide (edit.span.stop ≤ cut)) = [] := by
    rw [List.filter_eq_nil_iff]
    intro edit hedit
    have hstart := hafter edit hedit
    have hspan := edit.span.start_le_stop
    simp only [decide_eq_true_eq]
    omega
  rw [List.filter_append, List.filter_append, hkeep, hdropMiddle, hdropAfter]
  simp

private theorem filter_behind {before after : List Edit} {start cut : Nat} (hcut : start < cut)
    (middle : List Edit) (hmiddle : ∀ edit ∈ middle, edit.span.start ≤ start)
    (hbefore : ∀ edit ∈ before, edit.span.stop ≤ start)
    (hafter : ∀ edit ∈ after, cut ≤ edit.span.start) :
    (before ++ middle ++ after).filter (fun edit => decide (cut ≤ edit.span.start)) = after := by
  have hkeep : after.filter (fun edit => decide (cut ≤ edit.span.start)) = after := by
    rw [List.filter_eq_self]
    intro edit hedit
    exact decide_eq_true (hafter edit hedit)
  have hdropMiddle : middle.filter (fun edit => decide (cut ≤ edit.span.start)) = [] := by
    rw [List.filter_eq_nil_iff]
    intro edit hedit
    have := hmiddle edit hedit
    simp only [decide_eq_true_eq]
    omega
  have hdropBefore : before.filter (fun edit => decide (cut ≤ edit.span.start)) = [] := by
    rw [List.filter_eq_nil_iff]
    intro edit hedit
    have hstop := hbefore edit hedit
    have hspan := edit.span.start_le_stop
    simp only [decide_eq_true_eq]
    omega
  rw [List.filter_append, List.filter_append, hkeep, hdropMiddle, hdropBefore]
  simp

/-- Ordered edits that each lie on one side of a span fall into those before it
and those behind it. -/
private theorem exists_split {edits : List Edit} {start stop : Nat} (hordered : Ordered edits)
    (hsides : ∀ edit ∈ edits, edit.span.stop ≤ start ∨ stop ≤ edit.span.start) :
    ∃ before after, edits = before ++ after ∧
      (∀ edit ∈ before, edit.span.stop ≤ start) ∧ ∀ edit ∈ after, stop ≤ edit.span.start := by
  induction edits with
  | nil => exact ⟨[], [], rfl, by simp, by simp⟩
  | cons first others ih =>
    obtain ⟨hnext, hothers⟩ := List.pairwise_cons.mp hordered
    rcases hsides first List.mem_cons_self with hfirst | hfirst
    · obtain ⟨before, after, hsplit, hbefore, hafter⟩ :=
        ih hothers fun edit hedit => hsides edit (List.mem_cons_of_mem _ hedit)
      refine ⟨first :: before, after, by rw [hsplit]; rfl, ?_, hafter⟩
      intro edit hedit
      rcases List.mem_cons.mp hedit with rfl | hedit
      · exact hfirst
      · exact hbefore edit hedit
    · refine ⟨[], first :: others, rfl, by simp, ?_⟩
      intro edit hedit
      rcases List.mem_cons.mp hedit with rfl | hedit
      · exact hfirst
      · have hstop := hnext edit hedit
        have hspan := first.span.start_le_stop
        omega

/-- Two edits that are held overlap only if they are the same one. -/
theorem Consistent.eq_of_overlaps {edits : Edits} (h : edits.Consistent) {a b : Edit}
    (ha : a ∈ edits.held) (hb : b ∈ edits.held) (hoverlap : a.overlaps b = true) : a = b := by
  by_contra hne
  have : Std.Symm fun x y : Edit => x.overlaps y = false :=
    ⟨fun x y hxy => by rw [Edit.overlaps_comm]; exact hxy⟩
  have hapart := List.Pairwise.forall h ha hb hne
  rw [hoverlap] at hapart
  exact absurd hapart (by decide)

/-- What does not overlap a replacement of a span lies on one side of it. -/
theorem sides_of_free {edit : Edit} {span : Span} {newText : Text}
    (h : edit.overlaps ⟨span, newText⟩ = false) :
    edit.span.stop ≤ span.start ∨ span.stop ≤ edit.span.start := by
  cases hfollows : edit.follows ⟨span, newText⟩
  · exact Or.inl (Edit.stop_le_start h hfollows)
  · right
    rw [Edit.overlaps_comm] at h
    refine Edit.stop_le_start h ?_
    rw [Edit.follows_iff] at hfollows
    rw [← Bool.not_eq_true, Edit.follows_iff]
    omega

/-- Where a replacement is the only edit that touches a span around it, the text reads the new
text there, with the characters beside it as before. -/
theorem Consistent.reads_around {edits : Edits} (h : edits.Consistent) (text : Text) {edit : Edit}
    {around : Span} (hheld : edit ∈ edits.held) (hspan : edit.span.start < edit.span.stop)
    (hstart : around.start ≤ edit.span.start) (hstop : edit.span.stop ≤ around.stop)
    (hfree : ∀ other ∈ edits.held, other ≠ edit → other.overlaps ⟨around, []⟩ = false) :
    edits.Reads text around (text.slice ⟨around.start, edit.span.start, hstart⟩ ++ edit.newText ++
      text.slice ⟨edit.span.stop, around.stop, hstop⟩) := by
  have hordered := h.ordered
  obtain ⟨before, after, hsplit⟩ := List.append_of_mem (mem_inOrder.mpr hheld)
  have hsides : ∀ other ∈ inOrder edits.held, other ≠ edit →
      other.span.stop ≤ around.start ∨ around.stop ≤ other.span.start :=
    fun other hother hne => sides_of_free (hfree other (mem_inOrder.mp hother) hne)
  rw [hsplit] at hordered hsides
  obtain ⟨hbeforeOrdered, hrest, hcross⟩ := List.pairwise_append.mp hordered
  obtain ⟨hnext, _⟩ := List.pairwise_cons.mp hrest
  have hbefore : ∀ other ∈ before, other.span.stop ≤ around.start := by
    intro other hother
    have hle := hcross other hother edit List.mem_cons_self
    have hother' := other.span.start_le_stop
    rcases hsides other (List.mem_append_left _ hother) (by rintro rfl; omega) with h | h <;> omega
  have hafter : ∀ other ∈ after, around.stop ≤ other.span.start := by
    intro other hother
    have hle := hnext other hother
    have hother' := other.span.start_le_stop
    rcases hsides other (List.mem_append_right _ (List.mem_cons_of_mem _ hother))
      (by rintro rfl; omega) with h | h <;> omega
  have hmiddle : before ++ edit :: after = before ++ [edit] ++ after := by simp
  have hupTo : edits.upTo around.start = before := by
    unfold upTo
    rw [hsplit, hmiddle]
    exact filter_upTo (Nat.lt_of_le_of_lt hstart hspan) [edit] (by simp) hbefore hnext
  have hbehind : edits.behind around.stop = after := by
    unfold behind
    rw [hsplit, hmiddle]
    exact filter_behind (Nat.lt_of_lt_of_le hspan hstop) [edit] (by simp)
      (fun other hother => hcross other hother edit List.mem_cons_self) hafter
  have hfrom : ∀ other ∈ edit :: after, around.start ≤ other.span.start := by
    intro other hother
    rcases List.mem_cons.mp hother with rfl | hother
    · exact hstart
    · exact Nat.le_trans hstart (Nat.le_trans hspan.le (hnext other hother))
  unfold Reads apply
  rw [hsplit, hupTo, hbehind,
    splice_append text hbeforeOrdered (Nat.zero_le _) (fun _ _ => Nat.zero_le _) hbefore hfrom]
  simp only [splice, Nat.sub_zero, List.drop_drop]
  rw [Nat.add_sub_cancel' (Nat.le_trans hstart hspan.le), splice_skip _ hstop hafter]
  simp only [Text.slice, List.drop_take, List.drop_drop, Nat.add_sub_cancel' hstop,
    List.append_assoc]

/-- A replacement that is held is what the text reads in its place. -/
theorem Consistent.reads_held {edits : Edits} (h : edits.Consistent) (text : Text) {edit : Edit}
    (hheld : edit ∈ edits.held) (hspan : edit.span.start < edit.span.stop) :
    edits.Reads text edit.span edit.newText := by
  have hothers : ∀ other ∈ edits.held, other ≠ edit → other.overlaps edit = false :=
    fun other hother hne =>
      Bool.eq_false_iff.mpr fun hoverlap => hne (h.eq_of_overlaps hother hheld hoverlap)
  have hreads := h.reads_around text hheld hspan (Nat.le_refl _) (Nat.le_refl _) hothers
  simpa [Text.slice] using hreads

/-- Where no edit touches a span, the text reads as before. -/
theorem Consistent.reads_untouched {edits : Edits} (h : edits.Consistent) (text : Text)
    {span : Span} (hspan : span.start < span.stop)
    (hfree : ∀ edit ∈ edits.held, edit.overlaps ⟨span, []⟩ = false) :
    edits.Reads text span (text.slice span) := by
  have hordered := h.ordered
  have hsides : ∀ edit ∈ inOrder edits.held,
      edit.span.stop ≤ span.start ∨ span.stop ≤ edit.span.start :=
    fun edit hedit => sides_of_free (hfree edit (mem_inOrder.mp hedit))
  obtain ⟨before, after, hsplit, hbefore, hafter⟩ := exists_split hordered hsides
  rw [hsplit] at hordered
  obtain ⟨hbeforeOrdered, _, _⟩ := List.pairwise_append.mp hordered
  have hempty : before ++ after = before ++ [] ++ after := by simp
  have hupTo : edits.upTo span.start = before := by
    unfold upTo
    rw [hsplit, hempty]
    exact filter_upTo hspan [] (by simp) hbefore hafter
  have hbehind : edits.behind span.stop = after := by
    unfold behind
    rw [hsplit, hempty]
    exact filter_behind hspan [] (by simp) hbefore hafter
  unfold Reads apply
  rw [hsplit, hupTo, hbehind,
    splice_append text hbeforeOrdered (Nat.zero_le _) (fun _ _ => Nat.zero_le _) hbefore
      (fun edit hedit => Nat.le_trans hspan.le (hafter edit hedit)),
    splice_skip (text.drop (span.start - 0)) hspan.le hafter]
  unfold Text.slice
  simp only [Nat.sub_zero, List.drop_drop, List.append_assoc]
  rw [Nat.add_sub_cancel' hspan.le, List.drop_take]

/-- The new text of an edit that is held stands in the text. -/
theorem Consistent.newText_infix {edits : Edits} (h : edits.Consistent) (text : Text)
    {edit : Edit} (hheld : edit ∈ edits.held) : edit.newText <:+: edits.apply text := by
  have hordered := h.ordered
  obtain ⟨before, after, hsplit⟩ := List.append_of_mem (mem_inOrder.mpr hheld)
  rw [hsplit] at hordered
  obtain ⟨hbeforeOrdered, hrest, hcross⟩ := List.pairwise_append.mp hordered
  obtain ⟨hnext, _⟩ := List.pairwise_cons.mp hrest
  have hafter : ∀ other ∈ edit :: after, edit.span.start ≤ other.span.start := by
    intro other hother
    rcases List.mem_cons.mp hother with rfl | hother
    · exact Nat.le_refl _
    · exact Nat.le_trans edit.span.start_le_stop (hnext other hother)
  unfold apply
  rw [hsplit, splice_append text hbeforeOrdered (Nat.zero_le _) (fun _ _ => Nat.zero_le _)
    (fun other hother => hcross other hother edit List.mem_cons_self) hafter]
  simp only [splice, Nat.sub_self, List.take_zero, List.nil_append]
  rw [← List.append_assoc]
  exact List.infix_append _ _ _

end Edits

end SdkMigration
