import SdkMigration.Proofs.Stages.Calls
import SdkMigration.Proofs.TextRows
import SdkMigration.Proofs.WrittenText

/-!
# Comment lines

Advisories are written as lines of their own before a position, and the indentation of
its line goes with each of them.  What was there stays as it is, and a second time the
lines are found above the position and not written again.

An advisory is found when it stands in the run of lines directly above that each end with
an advisory (`Advisory.StandsAbove`).  No comment line is the end of another one, so the
advisory that a line ends with is the only one.  A line that is written ends with its
advisory, also where it goes on from code before the position, and so it belongs to the
run from then on.
-/

namespace SdkMigration

open Text

/-! ## The advisory that a line ends with -/

namespace Advisory

/-- Whether a line ends with an advisory, but for blanks behind it. -/
def Ends (advisory : Advisory) (line : Text) : Prop :=
  ∃ before behind, line = before ++ advisory.comment.toList ++ behind ∧ isAllBlank behind = true

/-- Whether an advisory stands directly above a position: before the position there are only
blanks on its line, and the advisory is that of a line in a run of lines above that each end
with one. -/
def StandsAbove (advisory : Advisory) (text : Text) (position : Nat) : Prop :=
  ∃ (front blank : Text) (run : List Text),
    text.take position = front ++ ofRows run ++ blank ∧
    (front = [] ∨ front.getLast? = some '\n') ∧ '\n' ∉ blank ∧ isAllBlank blank = true ∧
    (∀ line ∈ run, '\n' ∉ line ∧ ∃ other : Advisory, other.Ends line) ∧
    ∃ line ∈ run, advisory.Ends line

theorem mem_all (advisory : Advisory) : advisory ∈ all := by
  cases advisory <;> decide

/-- The comment lines, character by character: how they start and end, and that none of them is
the end of another one. -/
private theorem exists_chars : ∃ chars : Advisory → Text,
    (∀ advisory : Advisory, advisory.comment.toList = chars advisory) ∧
      (∀ advisory ∈ all, "//".toList <+: chars advisory ∧ '\n' ∉ chars advisory ∧
        (chars advisory).getLast? = some '.') ∧
      ∀ a ∈ all, ∀ b ∈ all, (chars a).isSuffixOf (chars b) = true → a = b := by
  refine ⟨fun advisory => advisory.casesOn ?callback ?context ?require ?dynamic ?reference,
    ?same, ?_⟩
  case same =>
    -- The literals are taken apart once, and what is decided is about lists.
    intro advisory
    cases advisory <;> exact String.toList_ofList
  decide +kernel

theorem comment_spelled (advisory : Advisory) :
    "//".toList <+: advisory.comment.toList ∧ '\n' ∉ advisory.comment.toList ∧
      advisory.comment.toList.getLast? = some '.' := by
  obtain ⟨chars, hchars, hspelled, -⟩ := exists_chars
  rw [hchars]
  exact hspelled advisory advisory.mem_all

/-- No comment line is the end of another one. -/
theorem eq_of_comment_suffix {a b : Advisory} (h : a.comment.toList <:+ b.comment.toList) :
    a = b := by
  obtain ⟨chars, hchars, -, hends⟩ := exists_chars
  rw [hchars, hchars, ← List.isSuffixOf_iff_suffix] at h
  exact hends a a.mem_all b b.mem_all h

/-- Blanks at the end are all that trimming takes off. -/
theorem exists_trimEnd (line : Text) :
    ∃ behind, line = line.trimEnd ++ behind ∧ isAllBlank behind = true := by
  refine ⟨(line.reverse.takeWhile isBlank).reverse, ?_, ?_⟩
  · rw [trimEnd, ← List.reverse_append, List.takeWhile_append_dropWhile, List.reverse_reverse]
  · exact List.all_eq_true.mpr fun c hc => List.mem_takeWhile_imp (List.mem_reverse.mp hc)

theorem trimEnd_append_comment (advisory : Advisory) (before : Text) {behind : Text}
    (hbehind : isAllBlank behind = true) :
    (before ++ advisory.comment.toList ++ behind).trimEnd =
      before ++ advisory.comment.toList := by
  obtain ⟨init, hinit⟩ := List.getLast?_eq_some_iff.mp advisory.comment_spelled.2.2
  have hall : ∀ c ∈ behind.reverse, isBlank c = true := fun c hc =>
    List.all_eq_true.mp hbehind c (List.mem_reverse.mp hc)
  have hdot : isBlank '.' = false := by decide
  rw [trimEnd, List.reverse_append, List.dropWhile_append_of_pos hall, hinit]
  simp [hdot]

theorem endOf?_eq_some_iff {line : Text} {advisory : Advisory} :
    endOf? line = some advisory ↔ advisory.Ends line := by
  constructor
  · intro h
    obtain ⟨behind, hline, hbehind⟩ := exists_trimEnd line
    unfold endOf? at h
    have hends := List.find?_some h
    rw [List.isSuffixOf_iff_suffix] at hends
    obtain ⟨before, hbefore⟩ := hends
    exact ⟨before, behind, by rw [hbefore, ← hline], hbehind⟩
  · rintro ⟨before, behind, rfl, hbehind⟩
    have hends : advisory.comment.toList.isSuffixOf
        (before ++ advisory.comment.toList ++ behind).trimEnd = true := by
      rw [trimEnd_append_comment advisory before hbehind, List.isSuffixOf_iff_suffix]
      exact List.suffix_append before _
    unfold endOf?
    cases hfound : all.find? fun found =>
        found.comment.toList.isSuffixOf (before ++ advisory.comment.toList ++ behind).trimEnd with
    | none => exact absurd hends (List.find?_eq_none.mp hfound advisory advisory.mem_all)
    | some found =>
      have hother := List.find?_some hfound
      rw [List.isSuffixOf_iff_suffix] at hends hother
      rcases List.suffix_or_suffix_of_suffix hother hends with h | h
      · rw [eq_of_comment_suffix h]
      · rw [eq_of_comment_suffix h]

/-- A carriage return at the end of a line makes no difference. -/
theorem endOf?_dropCarriageReturn (line : Text) :
    endOf? (dropCarriageReturn line) = endOf? line := by
  have htrim : (dropCarriageReturn line).trimEnd = line.trimEnd := by
    unfold dropCarriageReturn
    split
    · rename_i hreturn
      obtain ⟨init, rfl⟩ := List.getLast?_eq_some_iff.mp hreturn
      have hblank : isBlank '\r' = true := by decide
      simp [trimEnd, hblank]
    · rfl
  unfold endOf?
  rw [htrim]

/-! ## Advisories above a position -/

-- Unfolding the run must not evaluate the comment lines that `endOf?` compares with.
attribute [local irreducible] endOf? in
theorem unbroken_cons (line : Text) (rest : List Text) :
    unbroken (line :: rest) =
      match endOf? line with
      | some advisory => advisory :: unbroken rest
      | none => [] := rfl

theorem unbroken_cons_of_none {line : Text} (h : endOf? line = none) (rest : List Text) :
    unbroken (line :: rest) = [] := by
  rw [unbroken_cons, h]

theorem unbroken_cons_of_some {line : Text} {advisory : Advisory} (h : endOf? line = some advisory)
    (rest : List Text) : unbroken (line :: rest) = advisory :: unbroken rest := by
  rw [unbroken_cons, h]

theorem unbroken_map_dropCarriageReturn (lines : List Text) :
    unbroken (lines.map dropCarriageReturn) = unbroken lines := by
  induction lines with
  | nil => rfl
  | cons line rest ih =>
    have hsame := endOf?_dropCarriageReturn line
    cases hend : endOf? line with
    | none =>
      rw [hend] at hsame
      rw [unbroken_cons_of_none hend]
      exact unbroken_cons_of_none hsame _
    | some advisory =>
      rw [hend] at hsame
      rw [unbroken_cons_of_some hend]
      exact (unbroken_cons_of_some hsame _).trans (congrArg _ ih)

theorem mem_unbroken_iff {lines : List Text} {advisory : Advisory} :
    advisory ∈ unbroken lines ↔ ∃ run rest, lines = run ++ rest ∧
      (∀ line ∈ run, ∃ other : Advisory, other.Ends line) ∧ ∃ line ∈ run, advisory.Ends line := by
  induction lines with
  | nil =>
    constructor
    · exact nofun
    · rintro ⟨run, rest, hsplit, -, found, hfound, -⟩
      rw [(List.append_eq_nil_iff.mp hsplit.symm).1] at hfound
      cases hfound
  | cons line rest ih =>
    cases hend : endOf? line with
    | none =>
      rw [unbroken_cons_of_none hend]
      have hnone : ∀ other : Advisory, ¬other.Ends line := fun other hother => by
        rw [← endOf?_eq_some_iff, hend] at hother
        cases hother
      constructor
      · exact nofun
      · rintro ⟨run, more, hsplit, hrun, found, hfound, -⟩
        cases run with
        | nil => cases hfound
        | cons first run =>
          obtain ⟨rfl, -⟩ := List.cons.inj hsplit
          obtain ⟨other, hother⟩ := hrun line List.mem_cons_self
          exact absurd hother (hnone other)
    | some first =>
      have hfirst := endOf?_eq_some_iff.mp hend
      rw [unbroken_cons_of_some hend, List.mem_cons, ih]
      constructor
      · rintro (rfl | ⟨run, more, rfl, hrun, found, hfound, hends⟩)
        · exact ⟨[line], rest, rfl, by simpa using ⟨_, hfirst⟩, line, List.mem_cons_self, hfirst⟩
        · refine ⟨line :: run, more, rfl, ?_, found, List.mem_cons_of_mem _ hfound, hends⟩
          intro other hother
          rcases List.mem_cons.mp hother with rfl | hother
          · exact ⟨first, hfirst⟩
          · exact hrun other hother
      · rintro ⟨run, more, hsplit, hrun, found, hfound, hends⟩
        cases run with
        | nil => cases hfound
        | cons other run =>
          obtain ⟨rfl, rfl⟩ := List.cons.inj hsplit
          rcases List.mem_cons.mp hfound with rfl | hfound
          · left
            exact Option.some.inj ((endOf?_eq_some_iff.mpr hends).symm.trans hend)
          · exact Or.inr ⟨run, more, rfl, fun line hline => hrun line (List.mem_cons_of_mem _ hline),
              found, hfound, hends⟩

section Above

variable {text tail : Text} {rows : List Text} {position : Nat}

/-- What stands above a position, by the rows of the text before it. -/
theorem above_of_rows (h : text.take position = ofRows rows ++ tail)
    (hrows : ∀ row ∈ rows, '\n' ∉ row) (htail : '\n' ∉ tail) (hposition : position ≤ text.length) :
    above text position = if isAllBlank tail then unbroken rows.reverse else [] := by
  have htake : text.take (text.lineStart position) = ofRows rows := by
    have hle : text.lineStart position ≤ position := text.lineStart_le position
    rw [← Nat.min_eq_left hle, ← List.take_take, h, lineStart_of_rows h htail hposition,
      List.take_left]
  unfold above
  simp only [slice_lineStart h htail hposition, htake, lines_ofRows hrows, ← List.map_reverse,
    unbroken_map_dropCarriageReturn]

theorem mem_above_iff (hposition : position ≤ text.length) {advisory : Advisory} :
    advisory ∈ above text position ↔ advisory.StandsAbove text position := by
  constructor
  · intro h
    obtain ⟨rows, tail, htake, hrows, htail⟩ := exists_rows (text.take position)
    rw [above_of_rows htake hrows htail hposition] at h
    split at h
    · rename_i hblank
      obtain ⟨run, rest, hsplit, hrun, found, hfound, hends⟩ := mem_unbroken_iff.mp h
      obtain rfl : rows = rest.reverse ++ run.reverse := by
        rw [← List.reverse_append, ← hsplit, List.reverse_reverse]
      refine ⟨ofRows rest.reverse, tail, run.reverse, ?_, ofRows_ends _, htail, hblank, ?_, found,
        List.mem_reverse.mpr hfound, hends⟩
      · rw [htake, ofRows_append]
      · exact fun line hline => ⟨hrows line (List.mem_append_right _ hline),
          hrun line (List.mem_reverse.mp hline)⟩
    · cases h
  · rintro ⟨front, blank, run, htake, hfront, hfeed, hblank, hrun, found, hfound, hends⟩
    obtain ⟨rows, rfl, hrows⟩ := exists_rows_of_ends hfront
    rw [← ofRows_append] at htake
    have hall : ∀ row ∈ rows ++ run, '\n' ∉ row := by
      intro row hrow
      rcases List.mem_append.mp hrow with hrow | hrow
      · exact hrows row hrow
      · exact (hrun row hrow).1
    rw [above_of_rows htake hall hfeed hposition, if_pos hblank, List.reverse_append]
    exact mem_unbroken_iff.mpr ⟨run.reverse, rows.reverse, rfl,
      fun line hline => (hrun line (List.mem_reverse.mp hline)).2, found,
      List.mem_reverse.mpr hfound, hends⟩

end Above

/-! ## Writing comment lines -/

/-- The lines of advisories, and behind each of them what stands before what it pushes down. -/
def commentLines (indent : Text) (advisories : List Advisory) : Text :=
  advisories.flatMap fun advisory => advisory.comment.toList ++ '\n' :: indent

section Written

variable {text other indent : Text} {position place : Nat}

/-- Behind one more comment line, its advisory stands above and so do those that did before. -/
theorem standsAbove_behind_comment (hblank : isAllBlank indent = true) (hfeed : '\n' ∉ indent)
    (written : Advisory)
    (h : other.take place = text.take position ++ (written.comment.toList ++ '\n' :: indent)) :
    written.StandsAbove other place ∧
      ∀ advisory : Advisory, advisory.StandsAbove text position →
        advisory.StandsAbove other place := by
  have hcomment := written.comment_spelled.2.1
  have hends : ∀ before, written.Ends (before ++ written.comment.toList) := fun before =>
    ⟨before, [], (List.append_nil _).symm, rfl⟩
  have hline : ∀ before, '\n' ∉ before → '\n' ∉ before ++ written.comment.toList :=
    fun before hbefore => by simp [hbefore, hcomment]
  constructor
  · obtain ⟨rows, tail, htake, -, htail⟩ := exists_rows (text.take position)
    refine ⟨ofRows rows, indent, [tail ++ written.comment.toList], ?_, ofRows_ends rows, hfeed,
      hblank, ?_, _, List.mem_singleton_self _, hends tail⟩
    · rw [h, htake]
      simp [ofRows]
    · intro line hmem
      rw [List.mem_singleton.mp hmem]
      exact ⟨hline tail htail, written, hends tail⟩
  · rintro advisory ⟨front, blank, run, htake, hfront, hblankFeed, -, hrun, found, hfound, hfoundEnds⟩
    refine ⟨front, indent, run ++ [blank ++ written.comment.toList], ?_, hfront, hfeed, hblank, ?_,
      found, List.mem_append_left _ hfound, hfoundEnds⟩
    · rw [h, htake, ofRows_append]
      simp [ofRows]
    · intro line hmem
      rcases List.mem_append.mp hmem with hmem | hmem
      · exact hrun line hmem
      · rw [List.mem_singleton.mp hmem]
        exact ⟨hline blank hblankFeed, written, hends blank⟩

theorem standsAbove_behind_comments (hblank : isAllBlank indent = true) (hfeed : '\n' ∉ indent)
    {missing : List Advisory}
    (h : other.take place = text.take position ++ commentLines indent missing) :
    (∀ advisory ∈ missing, advisory.StandsAbove other place) ∧
      ∀ advisory : Advisory, advisory.StandsAbove text position →
        advisory.StandsAbove other place := by
  induction missing generalizing text position with
  | nil =>
    rw [commentLines, List.flatMap_nil, List.append_nil] at h
    refine ⟨nofun, fun advisory hadvisory => ?_⟩
    unfold StandsAbove at hadvisory ⊢
    rwa [h]
  | cons first rest ih =>
    rw [commentLines, List.flatMap_cons, ← List.append_assoc, ← commentLines] at h
    generalize hmiddle : text.take position ++ (first.comment.toList ++ '\n' :: indent) = middle at h
    have hwhole : middle.take middle.length = middle := List.take_length
    obtain ⟨hfirst, hkept⟩ :=
      standsAbove_behind_comment hblank hfeed first (hwhole.trans hmiddle.symm)
    rw [← hwhole] at h
    obtain ⟨hrest, hbehind⟩ := ih h
    refine ⟨fun advisory hadvisory => ?_, fun advisory hadvisory => hbehind _ (hkept _ hadvisory)⟩
    rcases List.mem_cons.mp hadvisory with rfl | hadvisory
    · exact hbehind _ hfirst
    · exact hrest advisory hadvisory

end Written

end Advisory

/-! ## Twice -/

namespace Draft

/-- The comments that are missing at a position write their lines there. -/
theorem apply_missingComments {text : Text} {position : Nat} (hposition : position ≤ text.length)
    (advisories : List Advisory) :
    (⟨missingComments text position advisories⟩ : Edits).apply text =
      text.take position ++ Advisory.commentLines (text.lineIndent position)
        (advisories.filter fun advisory => !(Advisory.above text position).contains advisory) ++
        text.drop position := by
  have hinserts : ∀ edit ∈ missingComments text position advisories,
      edit.insertsAt position = true := by
    intro edit hedit
    obtain ⟨advisory, -, rfl⟩ := List.mem_map.mp hedit
    exact Edit.insertsAt_iff.mpr ⟨rfl, rfl⟩
  have happly : (⟨missingComments text position advisories⟩ : Edits).apply text =
      text.take position ++ (missingComments text position advisories).flatMap Edit.newText ++
        text.drop position := Edits.apply_insertions hposition hinserts
  rw [happly, missingComments, List.flatMap_map]
  rfl

/-- Where all advisories stand above a position, none is missing. -/
theorem insertComments_of_above {text : Text} {position : Nat} {advisories : List Advisory}
    (h : ∀ advisory ∈ advisories, advisory ∈ Advisory.above text position) :
    ({} : Draft).insertComments text position advisories = ({}, false) := by
  have hnone : missingComments text position advisories = [] := by
    rw [missingComments, List.filter_eq_nil_iff.mpr, List.map_nil]
    intro advisory hadvisory
    simpa using h advisory hadvisory
  rw [insertComments_of_free advisories (by simp), hnone]
  rfl

/-- **Comment lines are written once.**  The advisories that do not stand above a position are
written before it, each as a whole line with the indentation of the position's line behind it, and
the rest of the text stays as it is.  Something is written when an advisory is missing, and
nothing the second time, at the place that what followed the position has moved to. -/
theorem insertComments_settles {text : Text} {position : Nat} (hposition : position ≤ text.length)
    (advisories : List Advisory) :
    let first := ({} : Draft).insertComments text position advisories
    let output := first.1.edits.apply text
    ∃ indent missing, text.Indents position indent ∧
      missing.Sublist advisories ∧
      (∀ advisory : Advisory, advisory.StandsAbove text position → advisory ∉ missing) ∧
      (∀ advisory : Advisory, ¬advisory.StandsAbove text position →
        missing.count advisory = advisories.count advisory) ∧
      (∀ advisory ∈ missing,
        "//".toList <+: advisory.comment.toList ∧ '\n' ∉ advisory.comment.toList) ∧
      output = text.take position ++ Advisory.commentLines indent missing ++ text.drop position ∧
      (first.2 = true ↔ ∃ advisory ∈ advisories, ¬advisory.StandsAbove text position) ∧
      ({} : Draft).insertComments output
        (position + (Advisory.commentLines indent missing).length) advisories = ({}, false) := by
  intro first output
  obtain ⟨missing, hmissing⟩ : ∃ missing, missing =
    advisories.filter fun advisory => !(Advisory.above text position).contains advisory := ⟨_, rfl⟩
  have hfirst : first = ({ edits := ⟨missingComments text position advisories⟩ },
      !(missingComments text position advisories).isEmpty) :=
    insertComments_of_free advisories (by simp)
  have houtput : output = text.take position ++
      Advisory.commentLines (text.lineIndent position) missing ++ text.drop position := by
    rw [hmissing, ← apply_missingComments hposition]
    exact congrArg (fun draft : Draft × Bool => draft.1.edits.apply text) hfirst
  have hmem : ∀ advisory, advisory ∈ missing ↔
      advisory ∈ advisories ∧ ¬advisory.StandsAbove text position := by
    intro advisory
    rw [hmissing, List.mem_filter, ← Advisory.mem_above_iff hposition]
    simp
  refine ⟨text.lineIndent position, missing, indents_lineIndent hposition,
    hmissing ▸ List.filter_sublist, fun advisory habove hmissing => ((hmem _).mp hmissing).2 habove,
    fun advisory hnot => ?_, fun advisory _ => ⟨advisory.comment_spelled.1,
    advisory.comment_spelled.2.1⟩, houtput, ?_, ?_⟩
  · rw [← Advisory.mem_above_iff hposition] at hnot
    rw [hmissing]
    exact List.count_filter (by simpa using hnot)
  · -- The flag says that an edit was made, and each missing advisory makes one.
    rw [hfirst, missingComments, ← hmissing, Bool.not_eq_true',
      List.isEmpty_eq_false_iff_exists_mem]
    simp [hmem]
  · -- Behind its own output, the second call finds every advisory of the list above its place.
    have hlength : (text.take position).length = position := List.length_take_of_le hposition
    have htake : output.take
          (position + (Advisory.commentLines (text.lineIndent position) missing).length) =
        text.take position ++ Advisory.commentLines (text.lineIndent position) missing := by
      rw [houtput]
      exact List.take_left' (by rw [List.length_append, hlength])
    obtain ⟨hwritten, hkept⟩ := Advisory.standsAbove_behind_comments
      (text.isAllBlank_lineIndent position) (text.feed_notMem_lineIndent position) htake
    refine insertComments_of_above fun advisory hadvisory => (Advisory.mem_above_iff ?_).mpr ?_
    · rw [houtput]
      simp only [List.length_append, hlength]
      omega
    · by_cases habove : advisory.StandsAbove text position
      · exact hkept advisory habove
      · exact hwritten advisory ((hmem advisory).mpr ⟨hadvisory, habove⟩)

/-- A file in which one advisory stands above a call already. -/
private def flaggedCall : Text :=
  "\t".toList ++ Advisory.callbackToPromise.comment.toList ++ "\r\n\tapp.getContext(use);\r\n".toList

/-- Where the call stands. -/
private def flaggedPlace : Nat := 3 + Advisory.callbackToPromise.comment.toList.length + 1

/-- Above the call one more advisory is written, indented as the call is, and once only. -/
theorem flaggedCall_settles :
    flaggedPlace ≤ flaggedCall.length ∧
      let advisories := [Advisory.callbackToPromise, .contextSchemaChanged]
      let first := ({} : Draft).insertComments flaggedCall flaggedPlace advisories
      first.2 = true ∧ first.1.edits.apply flaggedCall =
        flaggedCall.take flaggedPlace ++ Advisory.commentLines ['\t'] [.contextSchemaChanged] ++
          flaggedCall.drop flaggedPlace ∧
      ∃ indent missing, flaggedCall.Indents flaggedPlace indent ∧ missing.Sublist advisories ∧
        ({} : Draft).insertComments (first.1.edits.apply flaggedCall)
          (flaggedPlace + (Advisory.commentLines indent missing).length) advisories =
            ({}, false) := by
  have hinside : flaggedPlace ≤ flaggedCall.length := by decide +kernel
  obtain ⟨indent, missing, hindent, hmissing, -, -, -, -, -, hagain⟩ := insertComments_settles
    hinside [Advisory.callbackToPromise, .contextSchemaChanged]
  exact ⟨hinside, by decide +kernel, by decide +kernel, indent, missing, hindent, hmissing, hagain⟩

end Draft

end SdkMigration
