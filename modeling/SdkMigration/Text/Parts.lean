import SdkMigration.Text.Span

/-!
# Parts of a text

A text is split at every occurrence of a mark.  There is always at least one
part, and the parts joined by the mark are the text again.
-/

namespace SdkMigration.Text

/-- Splits a text at a mark, `current` holding the characters of the part so
far in reverse order. -/
def partsFrom (mark : Char) (current : Text) : Text → List Text
  | [] => [current.reverse]
  | c :: rest =>
    if c = mark then current.reverse :: partsFrom mark [] rest
    else partsFrom mark (c :: current) rest

/-- The parts of a text between the occurrences of a mark. -/
def parts (mark : Char) (text : Text) : List Text := partsFrom mark [] text

theorem partsFrom_ne_nil (mark : Char) (current text : Text) :
    partsFrom mark current text ≠ [] := by
  induction text generalizing current with
  | nil => simp [partsFrom]
  | cons c rest ih =>
    simp only [partsFrom]
    split
    · simp
    · exact ih (c :: current)

/-- The parts joined by the mark are the text again. -/
theorem intercalate_partsFrom (mark : Char) (current text : Text) :
    [mark].intercalate (partsFrom mark current text) = current.reverse ++ text := by
  induction text generalizing current with
  | nil => simp [partsFrom, List.intercalate]
  | cons c rest ih =>
    simp only [partsFrom]
    split
    · rename_i hc
      subst hc
      obtain ⟨first, others, hparts⟩ := List.exists_cons_of_ne_nil (partsFrom_ne_nil c [] rest)
      have hrest := ih []
      simp only [hparts, List.reverse_nil, List.nil_append] at hrest
      simp only [hparts, List.intercalate, List.intersperse_cons_cons, List.flatten_cons] at hrest ⊢
      simp [hrest]
    · simp [ih]

theorem intercalate_parts (mark : Char) (text : Text) :
    [mark].intercalate (parts mark text) = text := by
  simp [parts, intercalate_partsFrom]

/-- No part of a text holds the mark that the text is split at. -/
theorem mark_notMem_part {mark : Char} {current text part : Text} (hcurrent : mark ∉ current)
    (h : part ∈ partsFrom mark current text) : mark ∉ part := by
  induction text generalizing current with
  | nil =>
    rw [List.mem_singleton.mp h]
    simpa using hcurrent
  | cons c rest ih =>
    rw [partsFrom] at h
    split at h
    · rcases List.mem_cons.mp h with rfl | h
      · simpa using hcurrent
      · exact ih List.not_mem_nil h
    · rename_i hc
      exact ih (List.not_mem_cons_of_ne_of_not_mem (Ne.symm hc) hcurrent) h

end SdkMigration.Text
