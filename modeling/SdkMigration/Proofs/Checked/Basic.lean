import SdkMigration.Migration.ImportBlock
import SdkMigration.Proofs.Drafts
import SdkMigration.Proofs.EditRequests
import SdkMigration.Proofs.Stages.References
import SdkMigration.Proofs.WholeLines

/-!
# Operations with their checks

Some operations of a migration are partial.  A part of the text is read between two
positions in order, neither behind its end, and a line is asked for at a position in the
text.  The name at an index is read where there is one, and a match is recorded for a
binding that is there.  Edits are carried out as long as none starts before the end of the
one before it.

Here each of them comes with its check and gives up where that fails.  The lemmas say
where the checks hold, and that the operation then gives what it gives without them.
-/

namespace SdkMigration

/-- Steps with their checks lead where the steps lead, when every step does as long as an
invariant holds that the steps keep. -/
theorem foldlM_eq_some {α β : Type} {step? : β → α → Option β} {step : β → α → β}
    (invariant : β → Prop) {list : List α} {state : β} (h : invariant state)
    (hstep : ∀ state, invariant state → ∀ item ∈ list,
      step? state item = some (step state item) ∧ invariant (step state item)) :
    list.foldlM step? state = some (list.foldl step state) := by
  induction list generalizing state with
  | nil => rfl
  | cons first rest ih =>
    obtain ⟨hfirst, hkept⟩ := hstep state h first List.mem_cons_self
    rw [List.foldlM_cons, hfirst, List.foldl_cons]
    exact ih hkept fun later hlater item hitem =>
      hstep later hlater item (List.mem_cons_of_mem _ hitem)

/-! ## Parts and lines of a text -/

/-- The span between two positions that are in order. -/
def Span.ordered? (start stop : Nat) : Option Span :=
  if h : start ≤ stop then some ⟨start, stop, h⟩ else none

theorem Span.ordered?_eq {start stop : Nat} (h : start ≤ stop) :
    Span.ordered? start stop = some (Span.between start stop) := by
  simp [ordered?, h, between]

theorem Span.between_eq (span : Span) : Span.between span.start span.stop = span := by
  cases span with
  | mk start stop h => simp [between, Nat.max_eq_right h]

namespace Text

variable {text : Text} {position : Nat}

/-- The characters between two positions that are in order and in the text. -/
def slice? (text : Text) (start stop : Nat) : Option Text :=
  if start ≤ stop ∧ stop ≤ text.length then some (text.slice (Span.between start stop)) else none

/-- The line that holds a position in the text. -/
def lineIndex? (text : Text) (position : Nat) : Option Nat :=
  if position ≤ text.length then some (text.lineIndex position) else none

/-- The start of that line. -/
def lineStart? (text : Text) (position : Nat) : Option Nat :=
  if position ≤ text.length then some (text.lineStart position) else none

/-- The start of the line after it, or the end of the text on the last line. -/
def lineEnd? (text : Text) (position : Nat) : Option Nat :=
  if position ≤ text.length then some ((text.nextLineStart? position).getD text.length) else none

/-- The blanks at its start: what its text has before the part without leading blanks. -/
def lineIndent? (text : Text) (position : Nat) : Option Text :=
  if position ≤ text.length then
    let line := text.lineText position
    line.slice? 0 (line.length - line.trimStart.length)
  else none

theorem slice?_eq {start stop : Nat} (hstart : start ≤ stop) (hstop : stop ≤ text.length) :
    text.slice? start stop = some (text.slice (Span.between start stop)) := if_pos ⟨hstart, hstop⟩

theorem slice?_span {span : Span} (h : span.stop ≤ text.length) :
    text.slice? span.start span.stop = some (text.slice span) := by
  rw [slice?_eq span.start_le_stop h, Span.between_eq]

theorem lineIndex?_eq (h : position ≤ text.length) :
    text.lineIndex? position = some (text.lineIndex position) := if_pos h

theorem lineStart?_eq (h : position ≤ text.length) :
    text.lineStart? position = some (text.lineStart position) := if_pos h

theorem lineEnd?_eq (h : position ≤ text.length) :
    text.lineEnd? position = some ((text.nextLineStart? position).getD text.length) := if_pos h

theorem lineIndent?_eq (h : position ≤ text.length) :
    text.lineIndent? position = some (text.lineIndent position) := by
  unfold lineIndent? lineIndent trimStart
  generalize text.lineText position = line
  have hlength : (line.takeWhile isBlank).length + (line.dropWhile isBlank).length =
      line.length := by
    rw [← List.length_append, List.takeWhile_append_dropWhile]
  have hindent : line.length - (line.dropWhile isBlank).length =
      (line.takeWhile isBlank).length := by omega
  have htake : line.take (line.takeWhile isBlank).length = line.takeWhile isBlank :=
    (List.prefix_iff_eq_take.mp (List.takeWhile_prefix isBlank)).symm
  simp only [h, if_true, hindent]
  rw [slice?_eq (Nat.zero_le _) (by omega)]
  simp [slice, Span.between, htake]

end Text

/-! ## Comments -/

/-- The advisories on the lines directly above a position. -/
def Advisory.above? (text : Text) (position : Nat) : Option (List Advisory) := do
  let lineStart ← text.lineStart? position
  let before ← text.slice? lineStart position
  if Text.isAllBlank before then
    let head ← text.slice? 0 lineStart
    return unbroken (Text.lines head).reverse
  else return []

theorem Advisory.above?_eq {text : Text} {position : Nat} (h : position ≤ text.length) :
    Advisory.above? text position = some (Advisory.above text position) := by
  have hstart := text.lineStart_le position
  have hhead : text.slice? 0 (text.lineStart position) =
      some (text.take (text.lineStart position)) := by
    rw [Text.slice?_eq (Nat.zero_le _) (Nat.le_trans hstart h)]
    simp [Text.slice, Span.between]
  simp only [above?, Text.lineStart?_eq h, Text.slice?_eq hstart h, hhead, Option.bind_eq_bind,
    Option.bind_some, above]
  split <;> rfl

/-- The start of the outermost node around a place that begins on the same line, `place`
being the outermost one so far. -/
def outermostFrom? (text : Text) (line place : Nat) : List Nat → Option Nat
  | [] => some place
  | outer :: rest => do
    let other ← text.lineIndex? outer
    if other == line then outermostFrom? text line (min place outer) rest else return place

/-- The place for a comment line about a node. -/
def insertionPoint? (text : Text) (around : List Nat) (start : Nat) : Option Nat := do
  let line ← text.lineIndex? start
  outermostFrom? text line start around

theorem insertionPoint?_eq {text : Text} {around : List Nat} {start : Nat}
    (hstart : start ≤ text.length) (haround : ∀ outer ∈ around, outer ≤ text.length) :
    insertionPoint? text around start = some (insertionPoint text.lineIndex around start) := by
  have hfrom : ∀ place, outermostFrom? text (text.lineIndex start) place around =
      some ((around.takeWhile fun outer =>
        text.lineIndex outer == text.lineIndex start).foldl min place) := by
    induction around with
    | nil => exact fun _ => rfl
    | cons outer rest ih =>
      intro place
      simp only [outermostFrom?, Text.lineIndex?_eq (haround outer List.mem_cons_self),
        Option.bind_eq_bind, Option.bind_some, List.takeWhile_cons]
      split
      · exact ih (fun other hother => haround other (List.mem_cons_of_mem _ hother)) _
      · rfl
  simp only [insertionPoint?, Text.lineIndex?_eq hstart, Option.bind_eq_bind, Option.bind_some]
  exact hfrom start

namespace Draft

/-- Inserts comment lines at a position. -/
def insertComments? (draft : Draft) (text : Text) (position : Nat) (advisories : List Advisory) :
    Option (Draft × Bool) := do
  let present ← Advisory.above? text position
  let indent ← text.lineIndent? position
  return advisories.foldl
    (fun (draft, inserted) advisory =>
      if present.contains advisory then (draft, inserted)
      else
        let (next, done) :=
          draft.tryEdit ⟨Span.point position, advisory.comment.toList ++ '\n' :: indent⟩
        (next, inserted || done))
    (draft, false)

theorem insertComments?_eq (draft : Draft) {text : Text} {position : Nat}
    (h : position ≤ text.length) (advisories : List Advisory) :
    draft.insertComments? text position advisories =
      some (draft.insertComments text position advisories) := by
  simp only [insertComments?, Advisory.above?_eq h, Text.lineIndent?_eq h, Option.bind_eq_bind,
    Option.bind_some]
  rfl

end Draft

/-! ## Names of a path and of a chain -/

/-- Reads the names of a written path of a group behind the one that stands for the
module. -/
def readNames? (group : RuleGroup) (written : String) :
    Option (Except MappingError (List String)) :=
  let segments := Text.parts '.' written.toList
  if segments.length < 2 || segments.any Text.isAllBlank then
    some (.error (.invalidPath group written))
  else if 1 ≤ segments.length then
    some (.ok ((segments.drop 1).map fun segment => String.ofList segment.trim))
  else none

/-- A path is read with its first name in range, and has a name behind it. -/
theorem readNames?_eq (group : RuleGroup) (written : String) :
    readNames? group written = some ((readPath group written).map NamePath.names) := by
  unfold readNames? readPath NamePath.ofWritten?
  match Text.parts '.' written.toList with
  | [] => rfl
  | [segment] =>
    cases hblank : Text.isAllBlank segment with
    | true => simp [hblank, Except.map]
    | false => simp [hblank, Except.map]
  | segment :: first :: rest =>
    cases hblank : (segment :: first :: rest).any Text.isAllBlank with
    | true => simp [hblank, Except.map]
    | false => simp [hblank, Except.map, NamePath.names]

namespace Chain

variable {text : Text} {lo hi : Nat} {chain : Chain}

/-- The first name of a chain. -/
def root? (chain : Chain) : Option String := chain.names[0]?

/-- The last name of a chain. -/
def lastName? (chain : Chain) : Option String := chain.names[chain.names.length - 1]?

/-- The place of a chain. -/
def span? (chain : Chain) : Option Span := do
  let first ← chain.segments[0]?
  let last ← chain.segments[chain.segments.length - 1]?
  Span.ordered? first.span.start last.span.stop

theorem root?_eq (chain : Chain) : chain.root? = some chain.root := rfl

theorem getElem?_last (chain : Chain) :
    chain.segments[chain.segments.length - 1]? = some chain.last := by
  rw [← List.getLast?_eq_getElem?]
  unfold segments last
  rw [List.getLast?_cons]

theorem lastName?_eq (chain : Chain) : chain.lastName? = some chain.last.name := by
  unfold lastName? names
  rw [List.length_map, List.getElem?_map, chain.getElem?_last]
  rfl

theorem span?_eq (h : chain.Placed text lo hi) : chain.span? = some chain.span := by
  have hspan := h.start_lt_stop
  rw [h.span_stop] at hspan
  simp only [span?, chain.getElem?_last, Option.bind_eq_bind]
  exact Span.ordered?_eq (Nat.le_of_lt hspan)

end Chain

/-! ## Writing a replacement -/

/-- Marks an access, if there is one at an index, as optional. -/
def markHop? (hops : List Bool) (index : Nat) : Option (List Bool) :=
  if index < hops.length then some (hops.set index true) else none

/-- Marks the access that a segment at an index asks for. -/
def markSegment? (kept : Nat) (hops : List Bool) (index : Nat) (segment : Segment) :
    Option (List Bool) :=
  if segment.optional then
    if index ≤ kept ∧ index < hops.length then markHop? hops index
    else if 1 < hops.length then markHop? hops (hops.length - 1)
    else some hops
  else some hops

/-- Marks the accesses that segments ask for, `index` being the index of the first one. -/
def markHops? (kept : Nat) (hops : List Bool) (index : Nat) : List Segment → Option (List Bool)
  | [] => some hops
  | segment :: rest => do
    let marked ← markSegment? kept hops index segment
    markHops? kept marked (index + 1) rest

/-- Writes the names from an index on, each behind its access. -/
def renderNames? (hops : List Bool) : Nat → List String → Option Text
  | _, [] => some []
  | index, token :: rest => do
    let optional ← hops[index]?
    let others ← renderNames? hops (index + 1) rest
    return (if optional then ['?', '.'] else ['.']) ++ token.toList ++ others

/-- Writes a replacement for a whole chain. -/
def Chain.render? (chain : Chain) (path : NamePath) : Option Text := do
  let hops ← markHops? (commonPrefix chain.segments path.names)
    (List.replicate path.names.length false) 0 chain.segments
  let rest ← renderNames? hops 1 path.rest
  return path.first.toList ++ rest

private theorem markSegment?_eq (kept : Nat) (hops : List Bool) (index : Nat)
    (segment : Segment) : ∃ marked, markSegment? kept hops index segment = some marked ∧
      marked.length = hops.length ∧
      ∀ hop, 1 ≤ hop → hop < hops.length → marked[hop]? = (hops[hop]?).map fun before =>
        before || (decide (hop = index ∧ hop ≤ kept) && segment.optional) ||
          (hop + 1 == hops.length && (segment.optional &&
            (decide (kept < index) || decide (hops.length ≤ index)))) := by
  unfold markSegment? markHop?
  by_cases hoptional : segment.optional = true
  · by_cases hstays : index ≤ kept ∧ index < hops.length
    · refine ⟨hops.set index true, by simp [hoptional, hstays], List.length_set, ?_⟩
      intro hop _ hlt
      have hmoves : (decide (kept < index) || decide (hops.length ≤ index)) = false := by
        simp only [Bool.or_eq_false_iff, decide_eq_false_iff_not]
        omega
      rw [List.getElem?_set, List.getElem?_eq_getElem hlt, hmoves]
      by_cases hsame : index = hop
      · simp [hsame, hsame ▸ hstays.1, hlt, hoptional]
      · simp [hsame, Ne.symm hsame]
    · -- The question mark moves to the last access.
      have hmoves : (decide (kept < index) || decide (hops.length ≤ index)) = true := by
        simp only [Bool.or_eq_true, decide_eq_true_eq]
        omega
      have hnever : ∀ hop < hops.length, ¬(hop = index ∧ hop ≤ kept) := by omega
      by_cases hlong : 1 < hops.length
      · refine ⟨hops.set (hops.length - 1) true, ?_, List.length_set, ?_⟩
        · have hlast : hops.length - 1 < hops.length := by omega
          simp [hoptional, hstays, hlong, hlast]
        · intro hop _ hlt
          rw [List.getElem?_set, List.getElem?_eq_getElem hlt, hmoves]
          by_cases hlast : hops.length - 1 = hop
          · have hend : hop + 1 = hops.length := by omega
            simp [hlast, hlt, hend, hoptional]
          · have hend : hop + 1 ≠ hops.length := by omega
            simp [hlast, hend, hnever hop hlt]
      · exact ⟨hops, by simp [hoptional, hstays, hlong], rfl, by omega⟩
  · exact ⟨hops, by simp [hoptional], rfl, fun hop _ _ => by simp [hoptional]⟩

/-- Every access behind the first name is marked as the replacement is written. -/
theorem markHops?_eq (kept : Nat) (segments : List Segment) (hops : List Bool) (index : Nat) :
    ∃ marked, markHops? kept hops index segments = some marked ∧ marked.length = hops.length ∧
      ∀ hop, 1 ≤ hop → hop < hops.length → marked[hop]? = (hops[hop]?).map fun before =>
        before || (decide (index ≤ hop ∧ hop ≤ kept) &&
          (segments[hop - index]?).any (·.optional)) ||
          (hop + 1 == hops.length && movesHop kept hops.length index segments) := by
  induction segments generalizing hops index with
  | nil => exact ⟨hops, rfl, rfl, fun hop _ _ => by simp [movesHop]⟩
  | cons segment rest ih =>
    obtain ⟨first, hfirst, hlength, hmarks⟩ := markSegment?_eq kept hops index segment
    obtain ⟨marked, hmarked, hsame, hrest⟩ := ih first (index + 1)
    refine ⟨marked, by simp [markHops?, hfirst, hmarked], hsame.trans hlength, ?_⟩
    intro hop hpos hlt
    rw [hrest hop hpos (hlength ▸ hlt), hmarks hop hpos hlt, hlength, Option.map_map]
    congr 1
    funext before
    simp only [Function.comp, movesHop]
    -- The segment is the one behind the access, or a later one is.
    have hbehind : (decide (index ≤ hop ∧ hop ≤ kept) &&
        ((segment :: rest)[hop - index]?).any (·.optional)) =
          ((decide (hop = index ∧ hop ≤ kept) && segment.optional) ||
            (decide (index + 1 ≤ hop ∧ hop ≤ kept) &&
              (rest[hop - (index + 1)]?).any (·.optional))) := by
      rcases Nat.lt_trichotomy hop index with hless | rfl | hmore
      · simp [Nat.not_le.mpr hless, Nat.ne_of_lt hless, Nat.not_le.mpr (Nat.lt_succ_of_lt hless)]
      · simp
      · obtain ⟨more, rfl⟩ := Nat.exists_eq_add_of_lt hmore
        have hplace : index + more + 1 - index = more + 1 := by omega
        have hrestPlace : index + more + 1 - (index + 1) = more := by omega
        have hne : ¬index + more + 1 = index := by omega
        have hle : index ≤ index + more + 1 := by omega
        have hlt : index + 1 ≤ index + more + 1 := by omega
        simp [hplace, hrestPlace, hne, hle]
    rw [hbehind]
    simp only [Bool.and_or_distrib_left]
    ac_rfl

/-- A replacement is written with all its accesses in range. -/
theorem Chain.render?_eq (chain : Chain) (path : NamePath) :
    chain.render? path = some (chain.render path) := by
  obtain ⟨marked, hmarked, hlength, hmarks⟩ := markHops?_eq
    (commonPrefix chain.segments path.names) chain.segments
    (List.replicate path.names.length false) 0
  have hnames : ∀ (rest : List String) (index : Nat), 1 ≤ index →
      index + rest.length = path.names.length →
      renderNames? marked index rest = some (chain.renderRest path.names index rest) := by
    intro rest
    induction rest with
    | nil => exact fun _ _ _ => rfl
    | cons token others ih =>
      intro index hpos hcount
      rw [List.length_cons] at hcount
      have hlt : index < path.names.length := by omega
      have hhop : marked[index]? = some (chain.hopIsOptional path.names index) := by
        rw [hmarks index hpos (by rwa [List.length_replicate])]
        simp [hlt, Chain.hopIsOptional]
      simp only [renderNames?, hhop, ih (index + 1) (by omega) (by omega), Option.bind_eq_bind,
        Option.bind_some, Chain.renderRest]
      rfl
  have hcount : 1 + path.rest.length = path.names.length := Nat.add_comm _ _
  simp only [render?, hmarked, hnames path.rest 1 (Nat.le_refl _) hcount, Option.bind_eq_bind,
    Option.bind_some]
  rfl

/-! ## Bindings -/

namespace Bindings

/-- Records a match for a binding that is there. -/
def recordMatch? (bindings : Bindings) (origin : Origin) (target : NamePath) :
    Option Bindings := do
  let first ← target.names[0]?
  match origin with
  | .named index =>
    let _ ← bindings.named[index]?
    return bindings.recordMatch origin first
  | .whole index =>
    let _ ← bindings.whole[index]?
    return bindings.recordMatch origin first

theorem recordMatch?_eq {bindings : Bindings} {origin : Origin} (h : bindings.Has origin)
    (target : NamePath) :
    bindings.recordMatch? origin target = some (bindings.recordMatch origin target.first) := by
  cases origin with
  | named index =>
    obtain ⟨named, hnamed⟩ := h
    simp only [recordMatch?, hnamed]
    rfl
  | whole index =>
    obtain ⟨whole, hwhole⟩ := h
    simp only [recordMatch?, hwhole]
    rfl

/-- Keeps the name of a single export that is there. -/
def keepLocal? (bindings : Bindings) (index : Nat) : Option Bindings := do
  let _ ← bindings.named[index]?
  return bindings.keepLocal index

theorem keepLocal?_eq {bindings : Bindings} {index : Nat} (h : bindings.Has (.named index)) :
    bindings.keepLocal? index = some (bindings.keepLocal index) := by
  obtain ⟨named, hnamed⟩ := h
  simp only [keepLocal?, hnamed]
  rfl

end Bindings

/-- Records that a reference through a binding was moved to a path. -/
def Draft.recordMatch? (draft : Draft) (origin : Origin) (target : NamePath) : Option Draft := do
  let first ← target.names[0]?
  let bindings ← draft.bindings.recordMatch? origin target
  return { draft.addNotes (retargetNotes draft.bindings origin first) with bindings }

theorem Draft.recordMatch?_eq {draft : Draft} {origin : Origin} (h : draft.bindings.Has origin)
    (target : NamePath) : draft.recordMatch? origin target =
      some (draft.recordMatch origin target) := by
  simp only [recordMatch?, Bindings.recordMatch?_eq h]
  rfl

/-! ## Lookups -/

/-- A rule as seen through the single exports. -/
def namedReplacements? (rule : Rule) (index : Nat) : List NamedImport → Option (List Replacement)
  | [] => some []
  | named :: rest => do
    let others ← namedReplacements? rule (index + 1) rest
    let first ← rule.source.names[0]?
    if named.exported = first then
      return ⟨rule.source.withFirst named.localName, rule.target, rule, .named index⟩ :: others
    else return others

/-- The lookups of a file. -/
def Lookups.build? (bindings : Bindings) (rules : List Rule) : Option (Lookups × List Note) := do
  let found ← rules.mapM fun rule => (namedReplacements? rule 0 bindings.named).map fun named =>
    named ++ wholeReplacements rule 0 bindings.whole
  return found.flatten.foldl add ({}, [])

theorem namedReplacements?_eq (rule : Rule) (index : Nat) (list : List NamedImport) :
    namedReplacements? rule index list = some (namedReplacements rule index list) := by
  induction list generalizing index with
  | nil => rfl
  | cons named rest ih =>
    simp only [namedReplacements?, ih, namedReplacements, Option.bind_eq_bind, Option.bind_some]
    show (if named.exported = rule.source.first then _ else _) = _
    split <;> rfl

theorem Lookups.build?_eq (bindings : Bindings) (rules : List Rule) :
    Lookups.build? bindings rules = some (Lookups.build bindings rules) := by
  have hrules : rules.mapM (fun rule => some (namedReplacements rule 0 bindings.named ++
      wholeReplacements rule 0 bindings.whole)) =
      some (rules.map fun rule => namedReplacements rule 0 bindings.named ++
        wholeReplacements rule 0 bindings.whole) := List.mapM_pure
  simp only [build?, namedReplacements?_eq, Option.map_some, hrules]
  rfl

/-! ## Carrying out the edits -/

/-- The text with all edits carried out, when each is in the text. -/
def Edits.carriedOut? (edits : Edits) (text : Text) : Option Text :=
  if edits.held.all fun edit => decide (edit.span.stop ≤ text.length) then
    sweep? 0 text (inOrder edits.held)
  else none

theorem Edits.Consistent.carriedOut?_eq {edits : Edits} (h : edits.Consistent) {text : Text}
    (hinside : ∀ edit ∈ edits.held, edit.span.stop ≤ text.length) :
    edits.carriedOut? text = some (edits.apply text) := by
  have hall : (edits.held.all fun edit => decide (edit.span.stop ≤ text.length)) = true :=
    List.all_eq_true.mpr fun edit hedit => decide_eq_true (hinside edit hedit)
  rw [carriedOut?, if_pos hall, sweep?_eq_some text h.ordered fun _ _ => Nat.zero_le _]
  rfl

end SdkMigration
