import SdkMigration.Text.Lines
import SdkMigration.Proofs.WholeLines

/-!
# Rows of a text

A text up to a position falls into rows that each end with a line feed and a tail
without one (`exists_rows`).  The rows and the tail say where the line of the position
starts, which lines there are before it, and what stands before the position on its own
line.

The indentation of a line is told by where it starts and what comes next behind it.
-/

namespace SdkMigration.Text

variable {text tail : Text} {rows : List Text} {position : Nat}

/-- The text of rows that each end with a line feed. -/
def ofRows (rows : List Text) : Text := rows.flatMap (· ++ ['\n'])

theorem ofRows_append (rows more : List Text) : ofRows (rows ++ more) = ofRows rows ++ ofRows more :=
  List.flatMap_append

theorem exists_rows (text : Text) :
    ∃ rows tail, text = ofRows rows ++ tail ∧ (∀ row ∈ rows, '\n' ∉ row) ∧ '\n' ∉ tail := by
  induction text with
  | nil => exact ⟨[], [], rfl, by simp, by simp⟩
  | cons c rest ih =>
    obtain ⟨rows, tail, rfl, hrows, htail⟩ := ih
    by_cases hfeed : c = '\n'
    · refine ⟨[] :: rows, tail, by simp [ofRows, hfeed], ?_, htail⟩
      simpa using hrows
    · cases rows with
      | nil => exact ⟨[], c :: tail, rfl, by simp, by simp [htail, Ne.symm hfeed]⟩
      | cons row more =>
        refine ⟨(c :: row) :: more, tail, by simp [ofRows], ?_, htail⟩
        have hfirst : '\n' ∉ c :: row := by
          simp [hrows row List.mem_cons_self, Ne.symm hfeed]
        simpa [hfirst] using fun row hrow => hrows row (List.mem_cons_of_mem _ hrow)

/-- The text of rows is empty or ends with a line feed. -/
theorem ofRows_ends (rows : List Text) :
    ofRows rows = [] ∨ (ofRows rows).getLast? = some '\n' := by
  rcases List.eq_nil_or_concat rows with rfl | ⟨before, last, rfl⟩
  · exact Or.inl rfl
  · right
    simp [ofRows]

theorem exists_rows_of_ends (h : text = [] ∨ text.getLast? = some '\n') :
    ∃ rows, text = ofRows rows ∧ ∀ row ∈ rows, '\n' ∉ row := by
  obtain ⟨rows, tail, rfl, hrows, htail⟩ := exists_rows text
  refine ⟨rows, ?_, hrows⟩
  rcases List.eq_nil_or_concat tail with rfl | ⟨before, last, rfl⟩
  · rw [List.append_nil]
  · rcases h with h | h
    · simp at h
    · refine absurd ?_ htail
      simp_all

/-! ## Lines before a position -/

/-- The line of a position starts behind the last row before it. -/
theorem lineStart_of_rows (h : text.take position = ofRows rows ++ tail) (htail : '\n' ∉ tail)
    (hposition : position ≤ text.length) : text.lineStart position = (ofRows rows).length := by
  have hlength : position = (ofRows rows).length + tail.length := by
    rw [← List.length_append, ← h, List.length_take_of_le hposition]
  have hpass : ∀ c ∈ tail.reverse, (c != '\n') = true := by
    intro c hc
    rw [bne_iff_ne]
    rintro rfl
    exact htail (List.mem_reverse.mp hc)
  have hstop : (ofRows rows).reverse.takeWhile (· != '\n') = [] := by
    rcases List.eq_nil_or_concat rows with rfl | ⟨before, last, rfl⟩
    · rfl
    · simp [ofRows]
  unfold lineStart
  rw [h, List.reverse_append, List.takeWhile_append_of_pos hpass, hstop, List.append_nil,
    List.length_reverse, hlength, Nat.add_sub_cancel]

private theorem linesFrom_row {row : Text} (h : '\n' ∉ row) (current rest : Text) :
    linesFrom current (row ++ '\n' :: rest) =
      dropCarriageReturn (current.reverse ++ row) :: linesFrom [] rest := by
  induction row generalizing current with
  | nil => simp [linesFrom]
  | cons c row ih =>
    rw [List.mem_cons, not_or] at h
    rw [List.cons_append, linesFrom, if_neg (Ne.symm h.1), ih h.2]
    simp

theorem lines_ofRows (h : ∀ row ∈ rows, '\n' ∉ row) :
    lines (ofRows rows) = rows.map dropCarriageReturn := by
  induction rows with
  | nil => rfl
  | cons row rest ih =>
    have hrest := ih fun other hother => h other (List.mem_cons_of_mem _ hother)
    have hsplit : ofRows (row :: rest) = row ++ '\n' :: ofRows rest := by simp [ofRows]
    rw [lines, hsplit, linesFrom_row (h row List.mem_cons_self), ← lines, hrest]
    rfl

/-! ## Indentation -/

theorem dropCarriageReturn_isPrefix (line : Text) : dropCarriageReturn line <+: line := by
  unfold dropCarriageReturn
  split
  · exact List.dropLast_prefix line
  · exact List.prefix_rfl

/-- Whether blanks are those that the line of a position starts with: they stand at the
start of the line, and behind them comes something else or the end of the line, to which a
carriage return belongs. -/
structure Indents (text : Text) (position : Nat) (indent : Text) : Prop where
  blank : isAllBlank indent = true
  sameLine : '\n' ∉ indent
  start : ∃ start ≤ position, text.StartsLine start ∧
    '\n' ∉ text.slice (Span.between start position) ∧
    ∃ rest, text.drop start = indent ++ rest ∧
      (rest = [] ∨ (∃ c more, rest = c :: more ∧ isBlank c = false) ∨
        (indent.getLast? ≠ some '\r' ∧ ∃ more, rest = '\n' :: more) ∨
        ∃ more, rest = '\r' :: '\n' :: more)

/-- What stands before a position on its own line. -/
theorem slice_lineStart (h : text.take position = ofRows rows ++ tail) (htail : '\n' ∉ tail)
    (hposition : position ≤ text.length) :
    text.slice (Span.between (text.lineStart position) position) = tail := by
  have hstop : max (text.lineStart position) position = position :=
    Nat.max_eq_right (text.lineStart_le position)
  simp only [slice, Span.between, hstop, h]
  rw [lineStart_of_rows h htail hposition, List.drop_left]

/-- A line goes on to the end of the text or to its line feed, before which a carriage
return may stand. -/
theorem exists_drop_lineStart (text : Text) (position : Nat) :
    ∃ behind, text.drop (text.lineStart position) = text.lineText position ++ behind ∧
      (behind = [] ∨
        ((text.lineText position).getLast? ≠ some '\r' ∧ ∃ more, behind = '\n' :: more) ∨
        ∃ more, behind = '\r' :: '\n' :: more) := by
  unfold lineText
  generalize text.drop (text.lineStart position) = rest
  simp only
  have hsplit := List.takeWhile_append_dropWhile (p := (· != '\n')) (l := rest)
  split
  · rename_i hlt
    cases hfeed : rest.dropWhile (· != '\n') with
    | nil =>
      rw [hfeed, List.append_nil] at hsplit
      rw [hsplit] at hlt
      exact absurd hlt (Nat.lt_irrefl _)
    | cons c more =>
      have hc : c = '\n' := by
        have hhead := List.head?_dropWhile_not (· != '\n') rest
        rw [hfeed] at hhead
        simpa using hhead
      rw [hfeed, hc] at hsplit
      generalize rest.takeWhile (· != '\n') = line at hsplit
      rw [← hsplit]
      unfold dropCarriageReturn
      split
      · rename_i hreturn
        obtain ⟨front, rfl⟩ := List.getLast?_eq_some_iff.mp hreturn
        exact ⟨'\r' :: '\n' :: more, by simp, Or.inr (Or.inr ⟨more, rfl⟩)⟩
      · rename_i hplain
        exact ⟨'\n' :: more, rfl, Or.inr (Or.inl ⟨hplain, more, rfl⟩)⟩
  · rename_i hge
    have hline : rest.takeWhile (· != '\n') = rest :=
      (List.takeWhile_prefix _).eq_of_length_le (Nat.le_of_not_lt hge)
    exact ⟨[], by rw [hline, List.append_nil], Or.inl rfl⟩

theorem feed_notMem_lineText (text : Text) (position : Nat) :
    '\n' ∉ text.lineText position := by
  have hline : ∀ rest : Text, '\n' ∉ rest.takeWhile (· != '\n') := by
    intro rest hmem
    simpa using List.mem_takeWhile_imp hmem
  unfold lineText
  simp only
  split
  · exact fun hmem => hline _ ((dropCarriageReturn_isPrefix _).subset hmem)
  · exact hline _

theorem isAllBlank_lineIndent (text : Text) (position : Nat) :
    isAllBlank (text.lineIndent position) = true :=
  List.all_eq_true.mpr fun _ hc => List.mem_takeWhile_imp hc

theorem feed_notMem_lineIndent (text : Text) (position : Nat) :
    '\n' ∉ text.lineIndent position := fun hmem =>
  text.feed_notMem_lineText position ((List.takeWhile_prefix _).subset hmem)

theorem indents_lineIndent (hposition : position ≤ text.length) :
    text.Indents position (text.lineIndent position) where
  blank := text.isAllBlank_lineIndent position
  sameLine := text.feed_notMem_lineIndent position
  start := by
    obtain ⟨rows, tail, hrows, -, htail⟩ := exists_rows (text.take position)
    obtain ⟨behind, hbehind, hend⟩ := text.exists_drop_lineStart position
    refine ⟨text.lineStart position, text.lineStart_le position, startsLine_lineStart hposition, ?_,
      (text.lineText position).dropWhile isBlank ++ behind, ?_, ?_⟩
    · rw [slice_lineStart hrows htail hposition]
      exact htail
    · rw [hbehind, lineIndent, ← List.append_assoc, List.takeWhile_append_dropWhile]
    · cases hink : (text.lineText position).dropWhile isBlank with
      | nil =>
        have hwhole : (text.lineText position).takeWhile isBlank = text.lineText position := by
          rw [← List.append_nil (List.takeWhile _ _), ← hink, List.takeWhile_append_dropWhile]
        rw [← hwhole] at hend
        exact hend.imp id Or.inr
      | cons c more =>
        have hhead := List.head?_dropWhile_not isBlank (text.lineText position)
        rw [hink] at hhead
        exact Or.inr (Or.inl ⟨c, more ++ behind, rfl, by simpa using hhead⟩)

end SdkMigration.Text
