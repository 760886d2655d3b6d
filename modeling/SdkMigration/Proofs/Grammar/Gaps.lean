import SdkMigration.Program.Reading
import Mathlib.Data.List.Basic

/-!
# Gaps before tokens

How far a gap goes is said by its own characters, up to those that open or close a comment, and
not by the token behind it.  So what stands before one token can stand before any other that no
comment starts with (`Token.Fills`).  The same holds of a first line that starts with `#!`
(`Program.afterInterpreterLine_prepended`).
-/

namespace SdkMigration

namespace Token

/-! ## Where a gap ends -/

/-- Where the token behind a gap starts. -/
def Gap.start (gap : Gap) : Nat := gap.markupComment.getD gap.position

/-- A character that a token can start with and no gap goes on with. -/
structure Starts (c : Char) : Prop where
  noLineEnd : isLineEnd c = false
  noSeparator : isSeparator c = false
  noSlash : c ≠ '/'
  noAngle : c ≠ '<'
  noHyphen : c ≠ '-'

theorem starts_hash : Starts '#' := ⟨by decide, by decide, by decide, by decide, by decide⟩

theorem skipGap_starts {c : Char} (h : Starts c) (rest : List Char) (position : Nat)
    (newline : Bool) :
    skipGap .blank 0 position newline none (c :: rest) =
      ⟨position, newline, c :: rest, true, none⟩ := by
  obtain ⟨hline, hseparator, hslash, hangle, hhyphen⟩ := h
  simp [skipGap, hline, hseparator, hslash.symm, hangle.symm, hhyphen.symm]

/-- A separator is passed over. -/
theorem skipGap_blank {c : Char} (h : isSeparator c = true) (rest : List Char)
    (position : Nat) (newline : Bool) :
    ∃ other, skipGap .blank 0 position newline none (c :: rest) =
      skipGap .blank 0 (position + 1) other none rest := by
  by_cases hline : isLineEnd c = true
  · exact ⟨true, by simp [skipGap, hline]⟩
  · exact ⟨newline, by simp [skipGap, hline, h]⟩

/-- The first comment in the style of markup is the one that counts. -/
theorem skipGap_markupComment (mode : GapMode) (passed position : Nat) (newline : Bool)
    (known : Nat) (chars : List Char) :
    (skipGap mode passed position newline (some known) chars).markupComment = some known := by
  induction chars generalizing mode passed position newline with
  | nil => rfl
  | cons c rest ih =>
    unfold skipGap
    cases passed with
    | succ passed => exact ih _ _ _ _
    | zero =>
      cases mode with
      | lineComment => simp only; split <;> exact ih _ _ _ _
      | blockComment => simp only; split <;> exact ih _ _ _ _
      | blank =>
        simp only
        split
        · exact ih _ _ _ _
        split
        · exact ih _ _ _ _
        split
        · exact ih _ _ _ _
        split
        · exact ih _ _ _ _
        split
        · exact ih _ _ _ _
        · rfl

/-! ## What fills a gap -/

/-- Whether some characters are what a gap passes over before the token behind it, and are a gap
before other tokens too. -/
structure Fills (mode : GapMode) (passed position : Nat) (newline : Bool)
    (before chars : List Char) : Prop where
  front : before <+: chars
  start : (skipGap mode passed position newline none chars).start = position + before.length
  ahead : passed < before.length ∨ mode = .blank ∧ passed = before.length
  other : ∀ first more, Starts first → ∃ newline',
    skipGap mode passed position newline none (before ++ first :: more) =
      ⟨position + before.length, newline', first :: more, true, none⟩

namespace Fills

variable {mode mode' : GapMode} {passed passed' position : Nat} {newline newline' : Bool} {c : Char}
  {before rest : List Char}

theorem nil {chars : List Char}
    (hstart : (skipGap .blank 0 position newline none chars).start = position) :
    Fills .blank 0 position newline [] chars :=
  ⟨List.nil_prefix, hstart, Or.inr ⟨rfl, rfl⟩,
    fun _ _ hfirst => ⟨newline, skipGap_starts hfirst _ _ _⟩⟩

/-- Inside a comment, or inside a mark, the gap goes on. -/
theorem ne_nil (h : Fills mode passed position newline before rest)
    (hmode : mode ≠ .blank ∨ 0 < passed) : before ≠ [] := by
  rintro rfl
  rcases h.ahead with hlt | ⟨rfl, hsame⟩
  · cases hlt
  · rcases hmode with hmode | hmode
    · exact hmode rfl
    · exact Nat.ne_of_gt hmode hsame

/-- A gap takes one more character where the step depends on no more than the one behind it, and
on that only if it belongs to the gap as well. -/
theorem cons (h : Fills mode' passed' (position + 1) newline' before rest)
    (hahead : passed < before.length + 1 ∨ mode = .blank ∧ passed = before.length + 1)
    (hstep : ∀ others, (before ≠ [] → others.head? = rest.head?) →
      skipGap mode passed position newline none (c :: others) =
        skipGap mode' passed' (position + 1) newline' none others) :
    Fills mode passed position newline (c :: before) (c :: rest) := by
  have hplace : position + 1 + before.length = position + (c :: before).length := by
    rw [List.length_cons]
    omega
  refine ⟨List.cons_prefix_cons.mpr ⟨rfl, h.front⟩, ?_, hahead, fun first more hfirst => ?_⟩
  · rw [hstep rest fun _ => rfl, h.start, hplace]
  · obtain ⟨last, hother⟩ := h.other first more hfirst
    refine ⟨last, ?_⟩
    rw [List.cons_append, hstep, hother, hplace]
    intro hne
    obtain ⟨behind, rfl⟩ := h.front
    rw [List.head?_append_of_ne_nil _ hne, List.head?_append_of_ne_nil _ hne]

/-- A gap in front of a character that a token starts with is empty. -/
theorem eq_nil (h : Fills .blank 0 position newline before (c :: rest)) (hc : Starts c) :
    before = [] := by
  have hstart := h.start
  rw [skipGap_starts hc] at hstart
  exact List.eq_nil_of_length_eq_zero (by simpa [Gap.start] using hstart.symm)

end Fills

private theorem isPrefixOf_pair (a b c : Char) (rest : List Char) :
    [a, b].isPrefixOf (c :: rest) = (a == c && rest.head? == some b) := by
  cases rest with
  | nil => simp [List.isPrefixOf]
  | cons d others =>
    simp only [List.isPrefixOf, List.head?_cons, Option.some_beq_some, Bool.and_true]
    rw [BEq.comm (a := d)]

section Gaps

variable {mode : GapMode} {passed position : Nat} {newline : Bool} {chars rest : List Char}

/-- Every gap that does not reach the end of the text is filled by its characters. -/
theorem exists_fills (h : (skipGap mode passed position newline none chars).rest ≠ []) :
    ∃ before, Fills mode passed position newline before chars := by
  induction chars generalizing mode passed position newline with
  | nil => exact absurd rfl h
  | cons c rest ih =>
    cases passed with
    | succ passed =>
      obtain ⟨before, hfills⟩ := @ih mode passed _ _ h
      refine ⟨c :: before, hfills.cons ?_ fun _ _ => rfl⟩
      rcases hfills.ahead with hlt | ⟨hmode, heq⟩
      · exact Or.inl (Nat.succ_lt_succ hlt)
      · exact Or.inr ⟨hmode, congrArg (· + 1) heq⟩
    | zero =>
      have hahead : ∀ before : List Char, 0 < before.length + 1 ∨ mode = .blank ∧
          0 = before.length + 1 := fun _ => Or.inl (Nat.succ_pos _)
      unfold skipGap at h
      cases mode with
      | lineComment =>
        simp only at h
        split at h
        · rename_i hline
          obtain ⟨before, hfills⟩ := ih h
          exact ⟨c :: before, hfills.cons (hahead _) fun _ _ => by simp [skipGap, hline]⟩
        · rename_i hline
          obtain ⟨before, hfills⟩ := ih h
          exact ⟨c :: before, hfills.cons (hahead _) fun _ _ => by simp [skipGap, hline]⟩
      | blockComment =>
        -- Whether the comment is closed here depends on the next character, which it holds.
        simp only at h
        split at h
        · rename_i hclose
          obtain ⟨before, hfills⟩ := ih h
          refine ⟨c :: before, hfills.cons (hahead _) fun others hothers => ?_⟩
          rw [← hothers (hfills.ne_nil (Or.inr Nat.zero_lt_one))] at hclose
          simp only [skipGap, hclose, if_true]
        · rename_i hclose
          obtain ⟨before, hfills⟩ := ih h
          refine ⟨c :: before, hfills.cons (hahead _) fun others hothers => ?_⟩
          rw [← hothers (hfills.ne_nil (Or.inl nofun))] at hclose
          simp only [skipGap, hclose, if_false, Bool.false_eq_true]
      | blank =>
        simp only at h
        split at h
        · rename_i hline
          obtain ⟨before, hfills⟩ := ih h
          exact ⟨c :: before, hfills.cons (hahead _) fun _ _ => by simp [skipGap, hline]⟩
        rename_i hline
        split at h
        · rename_i hseparator
          obtain ⟨before, hfills⟩ := ih h
          exact ⟨c :: before, hfills.cons (hahead _) fun _ _ => by
            simp [skipGap, hline, hseparator]⟩
        rename_i hseparator
        split at h
        · rename_i hopens
          obtain ⟨before, hfills⟩ := ih h
          refine ⟨c :: before, hfills.cons (hahead _) fun others hothers => ?_⟩
          rw [isPrefixOf_pair, ← hothers (hfills.ne_nil (Or.inr Nat.zero_lt_one)),
            ← isPrefixOf_pair] at hopens
          simp only [skipGap, hline, hseparator, hopens, if_true, Bool.false_eq_true, if_false]
        rename_i hnoLine
        split at h
        · rename_i hopens
          obtain ⟨before, hfills⟩ := ih h
          refine ⟨c :: before, hfills.cons (hahead _) fun others hothers => ?_⟩
          rw [isPrefixOf_pair, ← hothers (hfills.ne_nil (Or.inr Nat.zero_lt_one)),
            ← isPrefixOf_pair] at hopens hnoLine
          simp only [skipGap, hline, hseparator, hopens, hnoLine, if_true, Bool.false_eq_true,
            if_false]
        rename_i hnoBlock
        -- The token starts here, be it with a comment in the style of markup before it.
        refine ⟨[], .nil ?_⟩
        unfold skipGap
        simp only [hline, hseparator, hnoLine, hnoBlock, Bool.false_eq_true, if_false]
        split
        · exact congrArg (Option.getD · _) (skipGap_markupComment _ _ _ _ _ _)
        · rfl

/-- A gap in front of a line end holds it. -/
theorem Fills.ne_nil_of_lineEnd {before : List Char} {c : Char}
    (h : Fills .blank 0 position newline before (c :: rest))
    (hrest : (skipGap .blank 0 position newline none (c :: rest)).rest ≠ [])
    (hc : isLineEnd c = true) : before ≠ [] := by
  have hstart := h.start
  simp only [skipGap, hc, if_true] at hstart hrest
  obtain ⟨others, hothers⟩ := exists_fills hrest
  rw [hothers.start] at hstart
  rintro rfl
  rw [List.length_nil] at hstart
  omega

end Gaps

end Token

/-! ## The first line -/

namespace Program

open Token

/-- A first line that starts with the two marks ends before the first line end. -/
theorem afterInterpreterLine_append {line behind : Text}
    (hline : ∀ c ∈ line, isLineEnd c = false) (hbehind : ∀ c ∈ behind.head?, isLineEnd c = true) :
    afterInterpreterLine ('#' :: '!' :: line ++ behind) = line.length + 2 := by
  have hrest : (line ++ behind).takeWhile (fun c => !isLineEnd c) = line := by
    rw [List.takeWhile_append_of_pos fun c hc => by simp [hline c hc]]
    cases behind with
    | nil => simp
    | cons c others => simp [hbehind c rfl]
  have hmarks : isLineEnd '#' = false ∧ isLineEnd '!' = false := by decide
  show (('#' :: '!' :: (line ++ behind)).takeWhile fun c => !isLineEnd c).length = _
  simp [hmarks, hrest]

theorem interpreterLine_cases (text : Text) : afterInterpreterLine text = 0 ∨
    ∃ line behind, text = '#' :: '!' :: line ++ behind ∧ (∀ c ∈ line, isLineEnd c = false) ∧
      ∀ c ∈ behind.head?, isLineEnd c = true := by
  unfold afterInterpreterLine
  split
  · rename_i rest
    right
    refine ⟨rest.takeWhile fun c => !isLineEnd c, rest.dropWhile fun c => !isLineEnd c, ?_,
      fun c hc => ?_, fun c hc => ?_⟩
    · simp [List.takeWhile_append_dropWhile]
    · simpa using List.all_eq_true.mp List.all_takeWhile c hc
    · have hfirst := List.head?_dropWhile_not (fun c => !isLineEnd c) rest
      rw [hc] at hfirst
      simpa using hfirst
  · exact Or.inl rfl

/-- The first line stays as it is when something else comes to stand behind the gap below it. -/
theorem afterInterpreterLine_prepended {text before more : Text} {c : Char} (hhash : c ≠ '#')
    (hfills : Fills .blank 0 (afterInterpreterLine text) (afterInterpreterLine text == 0) before
      (text.drop (afterInterpreterLine text)))
    (hrest : (skipGap .blank 0 (afterInterpreterLine text) (afterInterpreterLine text == 0) none
      (text.drop (afterInterpreterLine text))).rest ≠ []) :
    afterInterpreterLine (text.take (afterInterpreterLine text) ++ (before ++ c :: more)) =
      afterInterpreterLine text := by
  rcases interpreterLine_cases text with hzero | ⟨line, behind, rfl, hline, hbehind⟩
  · rw [hzero] at hfills ⊢
    rw [List.drop_zero] at hfills
    rw [List.take_zero, List.nil_append]
    unfold afterInterpreterLine
    split
    · rename_i rest heq
      cases before with
      | nil => exact absurd (List.cons.inj heq).1 hhash
      | cons d before =>
        obtain ⟨behind, rfl⟩ := hfills.front
        rw [List.cons_append] at heq
        obtain ⟨rfl, -⟩ := List.cons.inj heq
        cases hfills.eq_nil starts_hash
    · rfl
  · have hposition := afterInterpreterLine_append hline hbehind
    have hlength : ('#' :: '!' :: line).length = line.length + 2 := rfl
    rw [hposition, ← hlength] at hfills hrest ⊢
    rw [List.drop_left] at hfills hrest
    rw [List.take_left]
    refine afterInterpreterLine_append hline fun d hd => hbehind d ?_
    cases behind with
    | nil => exact absurd rfl hrest
    | cons e behind =>
      have hne := hfills.ne_nil_of_lineEnd hrest (hbehind e rfl)
      obtain ⟨others, hothers⟩ := hfills.front
      have hfront : (before ++ c :: more).head? = (before ++ others).head? := by
        rw [List.head?_append_of_ne_nil _ hne, List.head?_append_of_ne_nil _ hne]
      rwa [hfront, hothers] at hd

end Program

end SdkMigration
