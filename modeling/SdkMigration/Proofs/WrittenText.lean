import SdkMigration.Proofs.Edits
import Mathlib.Data.List.Pairwise

/-!
# The text that edits write

What comes out when edits are carried out can be said position by position,
without an order of the edits and without a sweep over the text.  Before a
character stand the texts that are inserted at its position, in the order in
which the edits are held, and then the new text of a replacement that starts
there.  The character itself stays unless a replacement covers it.

`Consistent.apply_eq_written` is that the sweep writes this text, for edits
that do not overlap and lie inside the text.  The order that the sweep works
in is stable, so insertions at one position keep theirs, and the rest follows
from one edit after the other being taken off the front.
-/

namespace SdkMigration

namespace Edit

/-- Whether the edit inserts at a position. -/
def insertsAt (edit : Edit) (position : Nat) : Bool :=
  edit.isInsertion && edit.span.start == position

/-- Whether the edit replaces what starts at a position. -/
def replacesFrom (edit : Edit) (position : Nat) : Bool :=
  !edit.isInsertion && edit.span.start == position

theorem insertsAt_iff {edit : Edit} {position : Nat} :
    edit.insertsAt position = true ↔
      edit.span.start = position ∧ edit.span.stop = position := by
  simp only [insertsAt, isInsertion, Span.isPoint, Bool.and_eq_true, beq_iff_eq]
  omega

theorem isInsertion_of_insertsAt {edit : Edit} {position : Nat}
    (h : edit.insertsAt position = true) : edit.isInsertion = true :=
  (Bool.and_eq_true_iff.mp h).1

theorem replacesFrom_iff {edit : Edit} {position : Nat} :
    edit.replacesFrom position = true ↔
      edit.span.start = position ∧ position < edit.span.stop := by
  have hspan := edit.span.start_le_stop
  simp only [replacesFrom, isInsertion, Span.isPoint, Bool.and_eq_true, Bool.not_eq_true',
    beq_eq_false_iff_ne, beq_iff_eq]
  omega

end Edit

/-- A text with something before each of its characters and behind the last one, the text
starting at a position. -/
def Text.inserting (inserted : Nat → Text) (position : Nat) : Text → Text
  | [] => inserted position
  | c :: rest => inserted position ++ c :: inserting inserted (position + 1) rest

namespace Edits

/-! ## Position by position -/

/-- What is inserted at a position. -/
def insertedAt (edits : List Edit) (position : Nat) : Text :=
  (edits.filter (Edit.insertsAt · position)).flatMap Edit.newText

/-- What is put in the place of the characters from a position on. -/
def putFrom (edits : List Edit) (position : Nat) : Text :=
  (edits.filter (Edit.replacesFrom · position)).flatMap Edit.newText

/-- What edits write, `rest` being the text from `position` on. -/
def written (edits : List Edit) (position : Nat) : Text → Text
  | [] => insertedAt edits position
  | c :: rest =>
    insertedAt edits position ++ putFrom edits position ++
      (if covers ⟨edits⟩ position then [] else [c]) ++ written edits (position + 1) rest

theorem covers_iff {edits : List Edit} {position : Nat} :
    covers ⟨edits⟩ position = true ↔
      ∃ edit ∈ edits, edit.span.start ≤ position ∧ position < edit.span.stop := by
  simp only [covers, Span.covers, List.any_eq_true, Bool.and_eq_true, Bool.not_eq_true',
    Edit.isInsertion, Span.isPoint, beq_eq_false_iff_ne, decide_eq_true_eq]
  refine exists_congr fun edit => and_congr_right fun _ => ?_
  omega

theorem covers_eq_false {edits : List Edit} {position : Nat}
    (h : ∀ edit ∈ edits, position < edit.span.start ∨ edit.span.stop ≤ position) :
    covers ⟨edits⟩ position = false := by
  rw [← Bool.not_eq_true, covers_iff]
  rintro ⟨edit, hedit, hcovers⟩
  have := h edit hedit
  omega

theorem insertedAt_eq_nil {edits : List Edit} {position : Nat}
    (h : ∀ edit ∈ edits, edit.span.start ≠ position) : insertedAt edits position = [] := by
  unfold insertedAt
  rw [List.filter_eq_nil_iff.mpr]
  · rfl
  · intro edit hedit
    rw [Edit.insertsAt_iff]
    exact fun hat => h edit hedit hat.1

theorem putFrom_eq_nil {edits : List Edit} {position : Nat}
    (h : ∀ edit ∈ edits, edit.span.start ≠ position) : putFrom edits position = [] := by
  unfold putFrom
  rw [List.filter_eq_nil_iff.mpr]
  · rfl
  · intro edit hedit
    rw [Edit.replacesFrom_iff]
    exact fun hfrom => h edit hedit hfrom.1

/-- Up to where the first edit starts, the text stands as it is. -/
theorem written_skip {edits : List Edit} {position cut : Nat} (rest : Text)
    (hposition : position ≤ cut) (hcut : cut ≤ position + rest.length)
    (hbehind : ∀ edit ∈ edits, cut ≤ edit.span.start) :
    written edits position rest =
      rest.take (cut - position) ++ written edits cut (rest.drop (cut - position)) := by
  obtain ⟨count, rfl⟩ := Nat.exists_eq_add_of_le hposition
  induction count generalizing position rest with
  | zero => simp
  | succ count ih =>
    cases rest with
    | nil => simp only [List.length_nil] at hcut; omega
    | cons c rest =>
      have hlater : ∀ edit ∈ edits, edit.span.start ≠ position := by
        intro edit hedit
        have := hbehind edit hedit
        omega
      have huncovered : covers ⟨edits⟩ position = false := by
        refine covers_eq_false fun edit hedit => Or.inl ?_
        have := hbehind edit hedit
        omega
      have hshift : position + (count + 1) = position + 1 + count := by omega
      have hnext : written edits (position + 1) rest =
          rest.take count ++ written edits (position + 1 + count) (rest.drop count) := by
        have := ih rest (Nat.le_add_right (position + 1) count)
          (by simp only [List.length_cons] at hcut; omega) (by rwa [← hshift])
        rwa [Nat.add_sub_cancel_left] at this
      rw [Nat.add_sub_cancel_left, hshift]
      simp [written, insertedAt_eq_nil hlater, putFrom_eq_nil hlater, huncovered, hnext]

/-- An edit that ends before a position, or at it after having started before
it, writes nothing from there on. -/
theorem written_drop {edit : Edit} {edits : List Edit} {position : Nat} (rest : Text)
    (hstart : edit.span.start < position) (hstop : edit.span.stop ≤ position) :
    written (edit :: edits) position rest = written edits position rest := by
  have hinserts : ∀ later, position ≤ later → edit.insertsAt later = false := by
    intro later hlater
    rw [← Bool.not_eq_true, Edit.insertsAt_iff]
    omega
  have hreplaces : ∀ later, position ≤ later → edit.replacesFrom later = false := by
    intro later hlater
    rw [← Bool.not_eq_true, Edit.replacesFrom_iff]
    omega
  induction rest generalizing position with
  | nil => simp [written, insertedAt, hinserts position (Nat.le_refl _)]
  | cons c rest ih =>
    have hcovers : covers ⟨edit :: edits⟩ position = covers ⟨edits⟩ position := by
      rw [Bool.eq_iff_iff, covers_iff, covers_iff]
      simp only [List.mem_cons, exists_eq_or_imp]
      exact or_iff_right (by omega)
    have hnext : written (edit :: edits) (position + 1) rest = written edits (position + 1) rest :=
      ih (by omega) (by omega) (fun later hlater => hinserts later (by omega))
        fun later hlater => hreplaces later (by omega)
    simp [written, insertedAt, putFrom, hinserts position (Nat.le_refl _),
      hreplaces position (Nat.le_refl _), hcovers, hnext]

/-- An insertion at the front writes its text and no more. -/
theorem written_insertion {edit : Edit} {edits : List Edit} {position : Nat} (rest : Text)
    (hat : edit.insertsAt position = true) :
    written (edit :: edits) position rest = edit.newText ++ written edits position rest := by
  obtain ⟨hstart, hstop⟩ := Edit.insertsAt_iff.mp hat
  have hfrom : edit.replacesFrom position = false := by
    rw [← Bool.not_eq_true, Edit.replacesFrom_iff]
    omega
  cases rest with
  | nil => simp [written, insertedAt, hat]
  | cons c rest =>
    have hcovers : covers ⟨edit :: edits⟩ position = covers ⟨edits⟩ position := by
      rw [Bool.eq_iff_iff, covers_iff, covers_iff]
      simp only [List.mem_cons, exists_eq_or_imp]
      exact or_iff_right (by omega)
    have hnext : written (edit :: edits) (position + 1) rest = written edits (position + 1) rest :=
      written_drop rest (by omega) (by omega)
    simp [written, insertedAt, putFrom, hat, hfrom, hcovers, hnext]

/-- What a replacement covers is left out. -/
private theorem written_covered {edit : Edit} {edits : List Edit} {position : Nat} (rest : Text)
    (hstart : edit.span.start < position) (hposition : position ≤ edit.span.stop)
    (hstop : edit.span.stop ≤ position + rest.length)
    (hbehind : ∀ other ∈ edits, edit.span.stop ≤ other.span.start) :
    written (edit :: edits) position rest =
      written edits edit.span.stop (rest.drop (edit.span.stop - position)) := by
  obtain ⟨count, hcount⟩ := Nat.exists_eq_add_of_le hposition
  induction count generalizing position rest with
  | zero => simp [hcount, written_drop rest hstart (by omega)]
  | succ count ih =>
    cases rest with
    | nil => simp only [List.length_nil] at hstop; omega
    | cons c rest =>
      have hlater : ∀ other ∈ edit :: edits, other.span.start ≠ position := by
        intro other hother
        rcases List.mem_cons.mp hother with rfl | hother
        · omega
        · have := hbehind other hother
          omega
      have hcovered : covers ⟨edit :: edits⟩ position = true :=
        covers_iff.mpr ⟨edit, List.mem_cons_self, by omega, by omega⟩
      have hnext : written (edit :: edits) (position + 1) rest =
          written edits edit.span.stop (rest.drop (edit.span.stop - (position + 1))) :=
        ih rest (by omega) (by omega) (by simp only [List.length_cons] at hstop; omega) (by omega)
      have hsucc : edit.span.stop - position = edit.span.stop - (position + 1) + 1 := by omega
      simp [written, insertedAt_eq_nil hlater, putFrom_eq_nil hlater, hcovered, hnext, hsucc]

/-- A replacement at the front writes its text in the place of what it
covers. -/
theorem written_replacement {edit : Edit} {edits : List Edit} (rest : Text)
    (hspan : edit.span.start < edit.span.stop)
    (hstop : edit.span.stop ≤ edit.span.start + rest.length)
    (hbehind : ∀ other ∈ edits, edit.span.stop ≤ other.span.start) :
    written (edit :: edits) edit.span.start rest =
      edit.newText ++
        written edits edit.span.stop (rest.drop (edit.span.stop - edit.span.start)) := by
  cases rest with
  | nil => simp only [List.length_nil] at hstop; omega
  | cons c rest =>
    have hlater : ∀ other ∈ edits, other.span.start ≠ edit.span.start := by
      intro other hother
      have := hbehind other hother
      omega
    have hinserts : edit.insertsAt edit.span.start = false := by
      rw [← Bool.not_eq_true, Edit.insertsAt_iff]
      omega
    have hreplaces : edit.replacesFrom edit.span.start = true :=
      Edit.replacesFrom_iff.mpr ⟨rfl, hspan⟩
    have hcovered : covers ⟨edit :: edits⟩ edit.span.start = true :=
      covers_iff.mpr ⟨edit, List.mem_cons_self, Nat.le_refl _, hspan⟩
    have hinserted : insertedAt (edit :: edits) edit.span.start = [] := by
      have := insertedAt_eq_nil hlater
      simpa [insertedAt, hinserts] using this
    have hput : putFrom (edit :: edits) edit.span.start = edit.newText := by
      have := putFrom_eq_nil hlater
      simp only [putFrom, List.flatMap_eq_nil_iff] at this
      simpa [putFrom, hreplaces] using this
    have hrest : written (edit :: edits) (edit.span.start + 1) rest =
        written edits edit.span.stop (rest.drop (edit.span.stop - (edit.span.start + 1))) :=
      written_covered rest (by omega) (by omega)
        (by simp only [List.length_cons] at hstop; omega) hbehind
    have hsucc : edit.span.stop - edit.span.start =
        edit.span.stop - (edit.span.start + 1) + 1 := by omega
    simp [written, hinserted, hput, hcovered, hrest, hsucc]

@[simp] theorem written_nil (position : Nat) (rest : Text) : written [] position rest = rest := by
  induction rest generalizing position with
  | nil => rfl
  | cons c rest ih => simp [written, insertedAt, putFrom, covers, ih]

/-- Insertions at a position write their texts, one behind the other. -/
theorem written_insertions {edits : List Edit} {position : Nat} (rest : Text)
    (hat : ∀ edit ∈ edits, edit.insertsAt position = true) :
    written edits position rest = edits.flatMap Edit.newText ++ rest := by
  induction edits with
  | nil => simp
  | cons edit others ih =>
    rw [written_insertion rest (hat edit List.mem_cons_self),
      ih fun other hother => hat other (List.mem_cons_of_mem _ hother), List.flatMap_cons,
      List.append_assoc]

/-- Edits in order that lie inside the text write what the sweep makes of
it. -/
theorem splice_eq_written {position : Nat} (rest : Text) {edits : List Edit}
    (hordered : Ordered edits) (hstart : ∀ edit ∈ edits, position ≤ edit.span.start)
    (hstop : ∀ edit ∈ edits, edit.span.stop ≤ position + rest.length) :
    splice position rest edits = written edits position rest := by
  induction edits generalizing position rest with
  | nil => simp [splice]
  | cons edit others ih =>
    obtain ⟨hnext, hothers⟩ := List.pairwise_cons.mp hordered
    have hfrom := hstart edit List.mem_cons_self
    have hto := hstop edit List.mem_cons_self
    have hspan := edit.span.start_le_stop
    have hbehind : ∀ other ∈ edit :: others, edit.span.start ≤ other.span.start := by
      intro other hother
      rcases List.mem_cons.mp hother with rfl | hother
      · exact Nat.le_refl _
      · exact Nat.le_trans hspan (hnext other hother)
    have hlength : ∀ other ∈ others, other.span.stop ≤
        edit.span.stop + (rest.drop (edit.span.stop - position)).length := by
      intro other hother
      have := hstop other (List.mem_cons_of_mem _ hother)
      rw [List.length_drop]
      omega
    have hdrop : (rest.drop (edit.span.start - position)).drop
        (edit.span.stop - edit.span.start) = rest.drop (edit.span.stop - position) := by
      rw [List.drop_drop]
      congr 1
      omega
    rw [splice, ih _ hothers hnext hlength, written_skip rest hfrom (by omega) hbehind,
      List.append_assoc]
    congr 1
    rcases Nat.eq_or_lt_of_le hspan with hpoint | hspan
    · rw [written_insertion _ (Edit.insertsAt_iff.mpr ⟨rfl, hpoint.symm⟩), ← hdrop]
      simp [hpoint]
    · rw [written_replacement _ hspan (by rw [List.length_drop]; omega) hnext, hdrop]

/-! ## The order of the edits does not show -/

/-- Putting an edit in its place keeps the order of those that share a
place. -/
private theorem filter_insertInOrder (keep : Edit → Bool) (edit : Edit) {sorted : List Edit}
    (hsorted : sorted.Pairwise fun a b => a.follows b = false)
    (htied : keep edit = true → ∀ other ∈ sorted, keep other = true →
      other.follows edit = false) :
    (insertInOrder edit sorted).filter keep = sorted.filter keep ++ [edit].filter keep := by
  induction sorted with
  | nil => simp [insertInOrder]
  | cons other rest ih =>
    obtain ⟨hother, hrest⟩ := List.pairwise_cons.mp hsorted
    unfold insertInOrder
    split
    case isTrue hfollows =>
      cases hkeep : keep edit
      · simp [hkeep]
      · -- whatever comes behind `other` follows `edit` as well
        have hlater : ∀ later ∈ other :: rest, later.follows edit = true := by
          intro later hlater
          rcases List.mem_cons.mp hlater with rfl | hlater
          · exact hfollows
          · have hnot := hother later hlater
            rw [← Bool.not_eq_true, Edit.follows_iff] at hnot
            rw [Edit.follows_iff] at hfollows ⊢
            omega
        have hnone : (other :: rest).filter keep = [] := by
          rw [List.filter_eq_nil_iff]
          intro later hmem hkept
          have := htied hkeep later hmem hkept
          rw [hlater later hmem] at this
          exact absurd this (by decide)
        rw [List.filter_cons_of_pos hkeep, hnone]
        simp [hkeep]
    case isFalse hfollows =>
      have hnext := ih hrest fun hkeep later hlater =>
        htied hkeep later (List.mem_cons_of_mem _ hlater)
      cases hkeep : keep other <;> simp [List.filter_cons, hkeep, hnext]

private theorem filter_foldl_insertInOrder (keep : Edit → Bool) (edits sorted : List Edit)
    (hsorted : sorted.Pairwise fun a b => a.follows b = false)
    (htied : ∀ a ∈ sorted ++ edits, ∀ b ∈ sorted ++ edits, keep a = true → keep b = true →
      a.follows b = false) :
    (edits.foldl (fun sorted edit => insertInOrder edit sorted) sorted).filter keep =
      sorted.filter keep ++ edits.filter keep := by
  induction edits generalizing sorted with
  | nil => simp
  | cons edit rest ih =>
    have hplaced : (insertInOrder edit sorted).filter keep =
        sorted.filter keep ++ [edit].filter keep :=
      filter_insertInOrder keep edit hsorted fun hkeep other hother hkept =>
        htied other (by simp [hother]) edit (by simp) hkept hkeep
    have hmem : ∀ a ∈ insertInOrder edit sorted ++ rest, a ∈ sorted ++ edit :: rest := by
      intro a ha
      rcases List.mem_append.mp ha with ha | ha
      · rcases List.mem_cons.mp ((insertInOrder_perm edit sorted).mem_iff.mp ha) with rfl | ha
        · simp
        · simp [ha]
      · simp [ha]
    rw [List.foldl_cons, ih _ (insertInOrder_sorted edit hsorted)
      fun a ha b hb => htied a (hmem a ha) b (hmem b hb), hplaced, List.append_assoc,
      ← List.filter_append]
    rfl

/-- The order of the places is stable. -/
theorem filter_inOrder (keep : Edit → Bool) {edits : List Edit}
    (htied : ∀ a ∈ edits, ∀ b ∈ edits, keep a = true → keep b = true → a.follows b = false) :
    (inOrder edits).filter keep = edits.filter keep :=
  filter_foldl_insertInOrder keep edits [] List.Pairwise.nil htied

theorem insertedAt_inOrder (edits : List Edit) (position : Nat) :
    insertedAt (inOrder edits) position = insertedAt edits position := by
  unfold insertedAt
  rw [filter_inOrder]
  intro a _ b _ ha hb
  rw [Edit.insertsAt_iff] at ha hb
  rw [← Bool.not_eq_true, Edit.follows_iff]
  omega

theorem Consistent.putFrom_inOrder {edits : Edits} (h : edits.Consistent) (position : Nat) :
    putFrom (inOrder edits.held) position = putFrom edits.held position := by
  unfold putFrom
  rw [filter_inOrder]
  intro a hmemA b hmemB ha hb
  rw [Edit.replacesFrom_iff] at ha hb
  have hoverlap : a.overlaps b = true := by
    have hia : a.isInsertion = false := by
      simp only [Edit.isInsertion, Span.isPoint, beq_eq_false_iff_ne]
      omega
    have hib : b.isInsertion = false := by
      simp only [Edit.isInsertion, Span.isPoint, beq_eq_false_iff_ne]
      omega
    simp only [Edit.overlaps, hia, hib, Bool.and_eq_true, decide_eq_true_eq]
    omega
  obtain rfl := h.eq_of_overlaps hmemA hmemB hoverlap
  rw [← Bool.not_eq_true, Edit.follows_iff]
  omega

theorem covers_inOrder (edits : List Edit) (position : Nat) :
    covers ⟨inOrder edits⟩ position = covers ⟨edits⟩ position := by
  rw [Bool.eq_iff_iff, covers_iff, covers_iff]
  simp only [mem_inOrder]

theorem Consistent.written_inOrder {edits : Edits} (h : edits.Consistent) (position : Nat)
    (rest : Text) :
    written (inOrder edits.held) position rest = written edits.held position rest := by
  induction rest generalizing position with
  | nil => exact insertedAt_inOrder edits.held position
  | cons c rest ih =>
    rw [written, written, insertedAt_inOrder, h.putFrom_inOrder, covers_inOrder, ih]

/-- Edits that do not overlap and lie inside the text write, carried out, what
they write position by position. -/
theorem Consistent.apply_eq_written {edits : Edits} (h : edits.Consistent) {text : Text}
    (hinside : ∀ edit ∈ edits.held, edit.span.stop ≤ text.length) :
    edits.apply text = written edits.held 0 text := by
  unfold apply
  rw [splice_eq_written text h.ordered (fun _ _ => Nat.zero_le _), h.written_inOrder]
  intro edit hedit
  rw [Nat.zero_add]
  exact hinside edit (mem_inOrder.mp hedit)

/-- Edits that are held in the order of their places are carried out in that order. -/
theorem apply_eq_splice {edits : Edits} (hordered : Ordered edits.held) {text : Text}
    (hinside : ∀ edit ∈ edits.held, edit.span.stop ≤ text.length) :
    edits.apply text = splice 0 text edits.held := by
  have hconsistent : edits.Consistent := hordered.imp Edit.not_overlaps_of_le
  rw [hconsistent.apply_eq_written hinside,
    splice_eq_written text hordered (fun _ _ => Nat.zero_le _) (by simpa using hinside)]

/-- Edits that each write what stands there write the text. -/
theorem Consistent.apply_eq_self {edits : Edits} (h : edits.Consistent) {text : Text}
    (hsame : ∀ edit ∈ edits.held, edit.newText = text.slice edit.span) :
    edits.apply text = text := by
  have hsplice : ∀ (position : Nat) (held : List Edit), Ordered held →
      (∀ edit ∈ held, position ≤ edit.span.start ∧ edit.newText = text.slice edit.span) →
      splice position (text.drop position) held = text.drop position := by
    intro position held hordered hheld
    induction held generalizing position with
    | nil => rfl
    | cons edit others ih =>
      obtain ⟨hnext, hothers⟩ := List.pairwise_cons.mp hordered
      obtain ⟨hstart, hedit⟩ := hheld edit List.mem_cons_self
      have hstop := edit.span.start_le_stop
      have hrest : splice edit.span.stop (text.drop edit.span.stop) others =
          text.drop edit.span.stop := ih edit.span.stop hothers fun other hother =>
        ⟨hnext other hother, (hheld other (List.mem_cons_of_mem _ hother)).2⟩
      have hbehind : (text.drop position).drop (edit.span.stop - position) =
          text.drop edit.span.stop := by
        rw [List.drop_drop, Nat.add_sub_cancel' (Nat.le_trans hstart hstop)]
      have hslice : text.slice edit.span ++ text.drop edit.span.stop =
          text.drop edit.span.start := by
        have hdrop : text.drop edit.span.stop =
            (text.drop edit.span.start).drop (edit.span.stop - edit.span.start) := by
          rw [List.drop_drop, Nat.add_sub_cancel' hstop]
        rw [Text.slice, List.drop_take, hdrop, List.take_append_drop]
      have hfirst : text.drop edit.span.start =
          (text.drop position).drop (edit.span.start - position) := by
        rw [List.drop_drop, Nat.add_sub_cancel' hstart]
      rw [splice, hbehind, hrest, hedit, List.append_assoc, hslice, hfirst,
        List.take_append_drop]
  exact hsplice 0 (inOrder edits.held) h.ordered fun edit hedit =>
    ⟨Nat.zero_le _, hsame edit (mem_inOrder.mp hedit)⟩

/-- Insertions at one position write their texts there and leave the rest as it is. -/
theorem apply_insertions {edits : Edits} {text : Text} {position : Nat}
    (hposition : position ≤ text.length)
    (hat : ∀ edit ∈ edits.held, edit.insertsAt position = true) :
    edits.apply text =
      text.take position ++ edits.held.flatMap Edit.newText ++ text.drop position := by
  have hplace : ∀ edit ∈ edits.held, edit.span.start = position ∧ edit.span.stop = position :=
    fun edit hedit => Edit.insertsAt_iff.mp (hat edit hedit)
  have hconsistent : edits.Consistent := List.pairwise_of_forall_mem_list fun a ha b hb =>
    Edit.not_overlaps_of_le (Nat.le_of_eq ((hplace a ha).2.trans (hplace b hb).1.symm))
  have hinside : ∀ edit ∈ edits.held, edit.span.stop ≤ text.length :=
    fun edit hedit => (hplace edit hedit).2.trans_le hposition
  rw [hconsistent.apply_eq_written hinside, written_skip text (Nat.zero_le position) (by omega)
    fun edit hedit => (hplace edit hedit).1.ge, written_insertions _ hat, Nat.sub_zero,
    List.append_assoc]

/-- Where there are only insertions, every character stays and they write before it. -/
theorem written_of_insertions {edits : List Edit} (h : ∀ edit ∈ edits, edit.isInsertion = true)
    (position : Nat) (rest : Text) :
    written edits position rest = rest.inserting (insertedAt edits) position := by
  induction rest generalizing position with
  | nil => rfl
  | cons c rest ih =>
    have hput : putFrom edits position = [] := by
      rw [putFrom, List.filter_eq_nil_iff.mpr, List.flatMap_nil]
      intro edit hedit
      simp [Edit.replacesFrom, h edit hedit]
    have hcovers : covers ⟨edits⟩ position = false := by
      rw [covers, List.any_eq_false]
      intro edit hedit
      simp [h edit hedit]
    simp [written, Text.inserting, hput, hcovers, ih]

/-- What insertions that items have at places of their own write at a position. -/
theorem insertedAt_flatMap {α : Type} {items : List α} {insertions : α → List Edit}
    {place : α → Nat}
    (hat : ∀ item ∈ items, ∀ edit ∈ insertions item, edit.insertsAt (place item) = true)
    (position : Nat) :
    insertedAt (items.flatMap insertions) position =
      (items.filter fun item => place item == position).flatMap fun item =>
        (insertions item).flatMap Edit.newText := by
  induction items with
  | nil => rfl
  | cons item rest ih =>
    have hrest := ih fun other hother => hat other (List.mem_cons_of_mem _ hother)
    have hitem : ∀ edit ∈ insertions item,
        edit.insertsAt position = (place item == position) := by
      intro edit hedit
      have hedit := Edit.insertsAt_iff.mp (hat item List.mem_cons_self edit hedit)
      rw [Bool.eq_iff_iff, Edit.insertsAt_iff, beq_iff_eq]
      omega
    rw [insertedAt] at hrest ⊢
    rw [List.flatMap_cons, List.filter_append, List.flatMap_append, hrest,
      List.filter_congr hitem, List.filter_cons]
    split <;> rename_i hhere <;> simp [hhere]

/-- Insertions that items have at places of their own write their texts there, in the order of
the items, and leave the text as it is. -/
theorem apply_insertions_at {α : Type} {edits : Edits} {text : Text} {items : List α}
    {insertions : α → List Edit} {place : α → Nat} (hheld : edits.held = items.flatMap insertions)
    (hat : ∀ item ∈ items, ∀ edit ∈ insertions item, edit.insertsAt (place item) = true)
    (hplace : ∀ item ∈ items, place item ≤ text.length) :
    edits.apply text = text.inserting (fun position =>
      (items.filter fun item => place item == position).flatMap fun item =>
        (insertions item).flatMap Edit.newText) 0 := by
  have hplaced : ∀ edit ∈ edits.held, ∃ item ∈ items, edit.insertsAt (place item) = true := by
    intro edit hedit
    rw [hheld] at hedit
    obtain ⟨item, hitem, hedit⟩ := List.mem_flatMap.mp hedit
    exact ⟨item, hitem, hat item hitem edit hedit⟩
  have hinsertion : ∀ edit ∈ edits.held, edit.isInsertion = true := fun edit hedit =>
    (hplaced edit hedit).elim fun _ h => Edit.isInsertion_of_insertsAt h.2
  have hconsistent : edits.Consistent := List.pairwise_of_forall_mem_list fun a ha b hb =>
    Edit.not_overlaps_of_isInsertion (hinsertion a ha) (hinsertion b hb)
  have hinside : ∀ edit ∈ edits.held, edit.span.stop ≤ text.length := by
    intro edit hedit
    obtain ⟨item, hitem, hinserts⟩ := hplaced edit hedit
    exact (Edit.insertsAt_iff.mp hinserts).2.trans_le (hplace item hitem)
  rw [hconsistent.apply_eq_written hinside, written_of_insertions hinsertion, hheld]
  exact congrArg (text.inserting · 0) (funext (insertedAt_flatMap hat))

end Edits

end SdkMigration
