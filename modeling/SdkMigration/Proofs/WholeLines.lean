import SdkMigration.Migration.ImportBlock
import SdkMigration.Proofs.Landmarks
import Mathlib.Data.List.TakeWhile

/-!
# Whole lines

A declaration is removed with the lines that it has for itself.  Such a line
holds nothing but blanks next to the declaration, so nothing else stands on it:
what is before the declaration is before its lines, and what comes next behind
it is behind them.
-/

namespace SdkMigration

/-! ## Starts of lines -/

/-- A list goes on behind the elements that pass a test with one that does not. -/
private theorem exists_of_takeWhile {α : Type} (p : α → Bool) (list : List α)
    (h : (list.takeWhile p).length < list.length) :
    ∃ a, list[(list.takeWhile p).length]? = some a ∧ p a = false := by
  induction list with
  | nil => cases h
  | cons first rest ih =>
    by_cases hfirst : p first = true
    · rw [List.takeWhile_cons_of_pos hfirst] at h ⊢
      exact ih (Nat.lt_of_succ_lt_succ h)
    · rw [List.takeWhile_cons_of_neg hfirst]
      exact ⟨first, rfl, by simpa using hfirst⟩

/-- The elements that pass a test come first. -/
private theorem of_lt_takeWhile {α : Type} {p : α → Bool} {list : List α} {index : Nat} {a : α}
    (h : index < (list.takeWhile p).length) (ha : list[index]? = some a) : p a = true := by
  rw [← List.takeWhile_append_dropWhile (p := p) (l := list), List.getElem?_append_left h] at ha
  exact List.mem_takeWhile_imp (List.mem_of_getElem? ha)

namespace Text

variable {text : Text} {position : Nat}

/-- Whether a line starts at a position. -/
def StartsLine (text : Text) (position : Nat) : Prop :=
  position = 0 ∨ text[position - 1]? = some '\n'

theorem lineStart_le (text : Text) (position : Nat) : text.lineStart position ≤ position :=
  Nat.sub_le _ _

/-- A character before a position, counted backwards. -/
private theorem getElem?_reverse_take (h : position ≤ text.length) {back : Nat}
    (hback : back < position) :
    (text.take position).reverse[back]? = text[position - 1 - back]? := by
  have hlength : (text.take position).length = position := List.length_take_of_le h
  rw [List.getElem?_reverse (by omega), hlength, List.getElem?_take_of_lt (by omega)]

theorem startsLine_lineStart (h : position ≤ text.length) :
    text.StartsLine (text.lineStart position) := by
  unfold lineStart
  have hlength : (text.take position).reverse.length = position := by
    rw [List.length_reverse, List.length_take_of_le h]
  have hle := (List.takeWhile_sublist (· != '\n') (l := (text.take position).reverse)).length_le
  rcases Nat.lt_or_ge ((text.take position).reverse.takeWhile (· != '\n')).length position with
    hlt | hge
  · obtain ⟨c, hc, hline⟩ := exists_of_takeWhile _ _ (hlt.trans_eq hlength.symm)
    rw [getElem?_reverse_take h hlt, bne_eq_false_iff_eq.mp hline] at hc
    right
    rw [Nat.sub_right_comm, hc]
  · exact Or.inl (Nat.sub_eq_zero_of_le hge)

/-- No line starts between the start of a line and a position in it. -/
theorem le_lineStart (h : position ≤ text.length) {start : Nat} (hstart : text.StartsLine start)
    (hle : start ≤ position) : start ≤ text.lineStart position := by
  rcases hstart with rfl | hbreak
  · exact Nat.zero_le _
  · rcases Nat.eq_zero_or_pos start with rfl | hpos
    · exact Nat.zero_le _
    unfold lineStart
    suffices hshort : ((text.take position).reverse.takeWhile (· != '\n')).length ≤
        position - start by omega
    by_contra hlong
    rw [Nat.not_le] at hlong
    have hback : position - 1 - (position - start) = start - 1 := by omega
    have hline := of_lt_takeWhile (a := '\n') hlong (by
      rw [getElem?_reverse_take h (by omega), hback, hbreak])
    cases hline

/-- The next line starts behind a line feed. -/
theorem startsLine_of_nextLineStart? {stop : Nat} (h : text.nextLineStart? position = some stop) :
    text.StartsLine stop := by
  unfold nextLineStart? at h
  simp only [Option.ite_none_right_eq_some, Option.some.injEq] at h
  obtain ⟨hlt, rfl⟩ := h
  have hlength : (text.drop position).length = text.length - position := List.length_drop
  obtain ⟨c, hc, hline⟩ := exists_of_takeWhile (· != '\n') (text.drop position)
    (by omega)
  rw [List.getElem?_drop, bne_eq_false_iff_eq.mp hline] at hc
  exact Or.inr hc

theorem nextLineStart?_bounds {stop : Nat} (h : text.nextLineStart? position = some stop) :
    position ≤ stop ∧ stop ≤ text.length := by
  unfold nextLineStart? at h
  simp only [Option.ite_none_right_eq_some, Option.some.injEq] at h
  omega

/-- A character in a span that holds blanks only is a blank. -/
theorem not_hasInk_of_isAllBlank {span : Span} (h : isAllBlank (text.slice span) = true)
    (hstart : span.start ≤ position) (hstop : position < span.stop) : ¬ text.HasInk position := by
  rintro ⟨c, hc, hink⟩
  have hmem : c ∈ text.slice span := by
    unfold slice
    apply List.mem_of_getElem? (i := position - span.start)
    rw [List.getElem?_drop, Nat.add_sub_cancel' hstart, List.getElem?_take_of_lt hstop]
    exact hc
  have hblank := List.all_eq_true.mp h c hmem
  rw [hink] at hblank
  cases hblank

theorem isAllBlank_slice_point (text : Text) (position : Nat) :
    isAllBlank (text.slice (Span.between position position)) = true := by
  have hslice : text.slice (Span.between position position) = [] := by
    refine List.drop_eq_nil_iff.mpr ((List.length_take_le _ _).trans ?_)
    exact (Nat.max_self position).le
  rw [hslice]
  rfl

end Text

/-! ## Widening -/

/-- Whether a span of a text consists of another one and of blanks around it. -/
structure Span.Widens (text : Text) (wide span : Span) : Prop where
  inside : wide.stop ≤ text.length
  start_le : wide.start ≤ span.start
  le_stop : span.stop ≤ wide.stop
  blank_before : Text.isAllBlank (text.slice (Span.between wide.start span.start)) = true
  blank_behind : Text.isAllBlank (text.slice (Span.between span.stop wide.stop)) = true

/-- Whether a span consists of whole lines of a text. -/
structure Span.CoversLines (text : Text) (span : Span) : Prop where
  start : text.StartsLine span.start
  stop : text.StartsLine span.stop ∨ span.stop = text.length

section WholeLines

variable {text : Text} {span : Span}

theorem nextStop_bounds (hspan : span.stop ≤ text.length) :
    span.stop ≤ (text.nextLineStart? span.stop).getD text.length ∧
      (text.nextLineStart? span.stop).getD text.length ≤ text.length := by
  cases hstop : text.nextLineStart? span.stop with
  | none => exact ⟨hspan, Nat.le_refl _⟩
  | some stop => exact Text.nextLineStart?_bounds hstop

/-- A span is left as it is, or widened to its lines. -/
private theorem wholeLines_cases (hspan : span.stop ≤ text.length) :
    wholeLines text span = span ∨
      (wholeLines text span).start = text.lineStart span.start ∧
        (wholeLines text span).stop = (text.nextLineStart? span.stop).getD text.length ∧
        (wholeLines text span).Widens text span := by
  have hline := text.lineStart_le span.start
  have horder := span.start_le_stop
  obtain ⟨hnext, hlength⟩ := nextStop_bounds hspan
  simp only [wholeLines]
  generalize text.lineStart span.start = start at hline ⊢
  generalize (text.nextLineStart? span.stop).getD text.length = stop at hnext hlength ⊢
  have hwide : (Span.between start stop).stop = stop := Nat.max_eq_right (by omega)
  split
  · rename_i hblank
    rw [Bool.and_eq_true] at hblank
    exact Or.inr ⟨rfl, hwide, hwide.symm ▸ hlength, hline, hwide.symm ▸ hnext, hblank.1,
      hwide.symm ▸ hblank.2⟩
  · exact Or.inl rfl

/-- The lines of a declaration hold the declaration and blanks. -/
theorem wholeLines_widens (hspan : span.stop ≤ text.length) :
    (wholeLines text span).Widens text span := by
  rcases wholeLines_cases hspan with hsame | ⟨-, -, hwidens⟩
  · rw [hsame]
    exact ⟨hspan, Nat.le_refl _, Nat.le_refl _, text.isAllBlank_slice_point _,
      text.isAllBlank_slice_point _⟩
  · exact hwidens

/-- A declaration is widened to whole lines if at all. -/
theorem coversLines_of_widened (hspan : span.stop ≤ text.length)
    (h : wholeLines text span ≠ span) : (wholeLines text span).CoversLines text := by
  rcases wholeLines_cases hspan with hsame | ⟨hstart, hstop, -⟩
  · exact absurd hsame h
  · constructor
    · rw [hstart]
      exact Text.startsLine_lineStart (Nat.le_trans span.start_le_stop hspan)
    · rw [hstop]
      cases hnext : text.nextLineStart? span.stop with
      | none => exact Or.inr rfl
      | some stop => exact Or.inl (Text.startsLine_of_nextLineStart? hnext)

/-- A character other than a blank that stands before a declaration stands before its
lines. -/
theorem lt_wholeLines_start {place : Nat} (hink : text.HasInk place)
    (hspan : span.stop ≤ text.length) (h : place < span.start) :
    place < (wholeLines text span).start := by
  have hwidens := wholeLines_widens hspan
  by_contra hle
  refine Text.not_hasInk_of_isAllBlank hwidens.blank_before (Nat.le_of_not_lt hle) ?_ hink
  exact Nat.lt_of_lt_of_le h (Nat.le_max_right _ _)

/-- What comes next behind a declaration comes behind its lines. -/
theorem wholeLines_stop_le {next : Nat} (hunblank : text.Unblank next)
    (hnext : next ≤ text.length) (h : span.stop ≤ next) : (wholeLines text span).stop ≤ next := by
  have hwidens := wholeLines_widens (Nat.le_trans h hnext)
  by_contra hlt
  rw [Nat.not_le] at hlt
  have hinside : next < text.length := Nat.lt_of_lt_of_le hlt hwidens.inside
  refine Text.not_hasInk_of_isAllBlank hwidens.blank_behind h ?_
    ⟨text[next], List.getElem?_eq_getElem hinside, hunblank _ (List.getElem?_eq_getElem hinside)⟩
  exact Nat.lt_of_lt_of_le hlt (Nat.le_max_right _ _)

/-- A span that starts and ends with a character other than a blank, and that
stands apart from a declaration, also stands apart from its lines. -/
theorem wholeLines_apart {chain : Span} (hstart : text.HasInk chain.start)
    (hstop : text.HasInk (chain.stop - 1)) (hchain : chain.start < chain.stop)
    (hspan : span.stop ≤ text.length) (hapart : chain.Apart span) :
    chain.Apart (wholeLines text span) := by
  rcases hapart with hleft | hright
  · left
    have := lt_wholeLines_start hstop hspan (by omega)
    omega
  · right
    exact wholeLines_stop_le hstart.unblank (Nat.le_of_lt hstart.lt_length) hright

/-- The lines of declarations that stand one behind the other do so too. -/
theorem wholeLines_ordered {other : Span} (hink : text.HasInk (span.stop - 1))
    (hspan : span.start < span.stop) (hother : other.start < other.stop)
    (hinside : other.stop ≤ text.length) {next : Nat} (hunblank : text.Unblank next)
    (hnext : span.stop ≤ next) (hle : next ≤ other.start) :
    (wholeLines text span).stop ≤ (wholeLines text other).start := by
  have hstop := wholeLines_stop_le hunblank (by omega) hnext
  rcases wholeLines_cases hinside with hsame | ⟨hstart, -⟩
  · rw [hsame]
    exact Nat.le_trans hstop hle
  · by_cases hwidened : wholeLines text span = span
    · have hlt := lt_wholeLines_start hink hinside (by omega)
      rw [hwidened]
      omega
    · rw [hstart]
      rcases (coversLines_of_widened (by omega) hwidened).stop with hline | hend
      · exact Text.le_lineStart (by omega) hline (Nat.le_trans hstop hle)
      · omega

end WholeLines

end SdkMigration
