import Mathlib.Data.List.DropRight
import SdkMigration.Mapping.Rule
import SdkMigration.Proofs.Landmarks

/-!
# Tables that are loaded

A table is loaded from a written mapping as a whole or not at all
(`MappingTable.ofFile_loads`).  Every reader of a part of a mapping goes through the written
paths of that part in their order and stops at the first one that cannot be read.  `Loads` says
so of one reader, and by `Loads.bind` it goes on from the readers of paths to those of entries,
groups and tables.
-/

namespace SdkMigration

namespace Text

/-! ## Blanks at the ends -/

theorem trimEnd_eq_rdropWhile (text : Text) : text.trimEnd = text.rdropWhile isBlank := rfl

/-- Blanks at the ends are all that trimming takes off. -/
theorem exists_trim (text : Text) :
    ∃ before after, text = before ++ text.trim ++ after ∧
      isAllBlank before = true ∧ isAllBlank after = true := by
  refine ⟨text.takeWhile isBlank, text.trimStart.rtakeWhile isBlank, ?_, List.all_takeWhile,
    List.all_eq_true.mpr fun c => List.mem_rtakeWhile_imp⟩
  rw [trim, trimEnd_eq_rdropWhile, List.append_assoc, List.rdropWhile_append_rtakeWhile]
  exact List.takeWhile_append_dropWhile.symm

theorem trim_eq_nil_iff {text : Text} : text.trim = [] ↔ text.isAllBlank = true := by
  constructor
  · intro h
    obtain ⟨before, after, htext, hbefore, hafter⟩ := text.exists_trim
    rw [htext, h, List.append_nil, isAllBlank, List.all_append]
    exact Bool.and_eq_true_iff.mpr ⟨hbefore, hafter⟩
  · intro h
    have hnone : text.trimStart = [] :=
      List.dropWhile_eq_nil_iff.mpr fun c hc => List.all_eq_true.mp h c hc
    rw [trim, hnone]
    rfl

/-- What has been trimmed is not trimmed further. -/
theorem trim_trim (text : Text) : text.trim.trim = text.trim := by
  -- What is left at the start is what trimming the start has left there.
  have hstart : text.trim.trimStart = text.trim := by
    refine List.dropWhile_eq_self_iff.mpr fun hlength => ?_
    have hinner : text.trim <+: text.dropWhile isBlank := List.rdropWhile_prefix isBlank _
    rw [hinner.getElem hlength]
    exact List.dropWhile_get_zero_not isBlank text _
  rw [trim, hstart, trim, trimEnd_eq_rdropWhile, trimEnd_eq_rdropWhile,
    List.rdropWhile_idempotent]

theorem partsFrom_eq_splitOnPPrepend (mark : Char) (current text : Text) :
    partsFrom mark current text = text.splitOnPPrepend (· == mark) current := by
  induction text generalizing current with
  | nil => rfl
  | cons c rest ih => simp [partsFrom, List.splitOnPPrepend, ih]

/-- The parts of a text are those it is split into at the mark. -/
theorem parts_eq_splitOn (mark : Char) (text : Text) : text.parts mark = text.splitOn mark :=
  partsFrom_eq_splitOnPPrepend mark [] text

end Text

/-! ## Written paths -/

/-- The segments of a written path between its dots. -/
def pathSegments (written : String) : List Text := written.toList.splitOn '.'

/-- Whether a text is a path behind the name of a module: it has at least two segments, and none
of them is blank. -/
def IsWrittenPath (written : String) : Prop :=
  2 ≤ (pathSegments written).length ∧ ∀ segment ∈ pathSegments written, Text.trim segment ≠ []

instance (written : String) : Decidable (IsWrittenPath written) :=
  inferInstanceAs (Decidable (_ ≤ _ ∧ ∀ segment ∈ pathSegments written, Text.trim segment ≠ []))

/-- Whether a name can stand in a path: it is not blank, has no blanks at its ends and no dot. -/
structure IsToken (name : String) : Prop where
  inked : Text.isAllBlank name.toList = false
  trimmed : Text.trim name.toList = name.toList
  dotFree : DotFree name

/-- Whether a name is a segment without the blanks around it. -/
def SegmentNames (segment : Text) (name : String) : Prop :=
  ∃ before after : Text, segment = before ++ name.toList ++ after ∧
    before.isAllBlank = true ∧ after.isAllBlank = true

/-- Whether a path is what a written path names behind its first dot.  Its names joined by dots
are the text there, but for blanks around the segments. -/
structure NamePath.Follows (path : NamePath) (written : String) : Prop where
  tokens : ∀ name ∈ path.names, IsToken name
  joined : ∃ module segments, '.' ∉ module ∧
    written.toList = module ++ '.' :: ['.'].intercalate segments ∧
    List.Forall₂ SegmentNames segments path.names

section WrittenPaths

variable {written : String}

theorem dot_notMem_segment {segment : Text} (h : segment ∈ pathSegments written) :
    '.' ∉ segment := by
  rw [pathSegments, ← Text.parts_eq_splitOn] at h
  exact Text.mark_notMem_part List.not_mem_nil h

theorem isToken_trim {segment : Text} (hdot : '.' ∉ segment) (hinked : segment.trim ≠ []) :
    IsToken (String.ofList segment.trim) := by
  obtain ⟨before, after, hsegment, -⟩ := segment.exists_trim
  refine ⟨?_, ?_, ?_⟩
  · rw [String.toList_ofList, ← Bool.not_eq_true, ← Text.trim_eq_nil_iff, Text.trim_trim]
    exact hinked
  · rw [String.toList_ofList, Text.trim_trim]
  · rw [DotFree, String.toList_ofList]
    rw [hsegment] at hdot
    exact fun hmem => hdot (List.mem_append_left _ (List.mem_append_right _ hmem))

theorem segmentNames_trim (segment : Text) : SegmentNames segment (String.ofList segment.trim) := by
  obtain ⟨before, after, hsegment, hblank⟩ := segment.exists_trim
  exact ⟨before, after, by rwa [String.toList_ofList], hblank⟩

theorem any_isAllBlank_iff {segments : List Text} :
    segments.any Text.isAllBlank = true ↔ ¬∀ segment ∈ segments, segment.trim ≠ [] := by
  simp [List.any_eq_true, Text.trim_eq_nil_iff]

/-- A written path is read as the path that it names. -/
theorem exists_ofWritten?_of_isWrittenPath (h : IsWrittenPath written) :
    ∃ path, NamePath.ofWritten? written = some path ∧ path.Follows written := by
  obtain ⟨hlength, hinked⟩ := h
  have hdots := @dot_notMem_segment written
  have hjoined : ['.'].intercalate (pathSegments written) = written.toList :=
    List.intercalate_splitOn '.'
  rw [NamePath.ofWritten?, Text.parts_eq_splitOn, ← pathSegments]
  simp only [if_neg fun hblank => any_isAllBlank_iff.mp hblank hinked]
  rcases hsegments : pathSegments written with _ | ⟨module, _ | ⟨first, rest⟩⟩
  · rw [hsegments] at hlength
    cases hlength
  · rw [hsegments] at hlength
    simp at hlength
  · rw [hsegments] at hinked hjoined hdots
    refine ⟨_, rfl, ?_, module, first :: rest, hdots (.head _), ?_, ?_⟩
    · intro name hname
      obtain ⟨segment, hsegment, rfl⟩ := List.mem_map.mp
        (show name ∈ (first :: rest).map fun segment => String.ofList segment.trim from hname)
      exact isToken_trim (hdots (.tail _ hsegment)) (hinked segment (.tail _ hsegment))
    · rw [← hjoined, List.intercalate_cons_cons]
      simp
    · exact List.forall₂_map_right_iff.mpr
        (List.forall₂_same.mpr fun segment _ => segmentNames_trim segment)

theorem ofWritten?_of_not_isWrittenPath (h : ¬IsWrittenPath written) :
    NamePath.ofWritten? written = none := by
  rw [NamePath.ofWritten?, Text.parts_eq_splitOn, ← pathSegments]
  by_cases hinked : ∀ segment ∈ pathSegments written, segment.trim ≠ []
  · have hshort : (pathSegments written).length < 2 :=
      Nat.lt_of_not_le fun hlength => h ⟨hlength, hinked⟩
    simp only [if_neg fun hblank => any_isAllBlank_iff.mp hblank hinked]
    rcases hsegments : pathSegments written with _ | ⟨module, _ | ⟨first, rest⟩⟩
    · rfl
    · rfl
    · rw [hsegments, List.length_cons, List.length_cons] at hshort
      omega
  · exact if_pos (any_isAllBlank_iff.mpr hinked)

end WrittenPaths

/-! ## Readers that stop at the first fault -/

/-- A written path with the group of its entry. -/
abbrev PathPlace := RuleGroup × String

/-- The first place where something else than a path is written. -/
def firstFault? (places : List PathPlace) : Option PathPlace :=
  places.find? fun place => !decide (IsWrittenPath place.2)

/-- Whether a result is that of a reader which goes through written paths: a value as wanted when
all of them are paths, and otherwise the error about the first one that is not. -/
inductive Loads {α : Type} (places : List PathPlace) (wanted : α → Prop) :
    Except MappingError α → Prop
  | loaded {value : α} (none : firstFault? places = none) (fits : wanted value) :
    Loads places wanted (.ok value)
  | refused {group : RuleGroup} {path : String}
    (first : firstFault? places = some (group, path)) :
    Loads places wanted (.error (.invalidPath group path))

namespace Loads

variable {α β : Type} {places more : List PathPlace}

/-- A second reader goes on where the first one has found no fault. -/
theorem bind {wanted : α → Prop} {wantedThen : β → Prop} {result : Except MappingError α}
    {next : α → Except MappingError β} (h : Loads places wanted result)
    (hnext : ∀ value, wanted value → Loads more wantedThen (next value)) :
    Loads (places ++ more) wantedThen (result >>= next) := by
  cases h with
  | refused first =>
    refine .refused ?_
    rw [firstFault?, List.find?_append, ← firstFault?, first]
    rfl
  | @loaded value none fits =>
    have hsame : firstFault? (places ++ more) = firstFault? more := by
      rw [firstFault?, List.find?_append, ← firstFault?, none]
      rfl
    have hfound := hnext value fits
    have hbind : (Except.ok value >>= next) = next value := rfl
    rw [hbind]
    generalize next value = found at hfound ⊢
    cases hfound with
    | refused first => exact .refused (hsame.trans first)
    | loaded none fits => exact .loaded (hsame.trans none) fits

/-- What is made of what was read has no more paths to read. -/
theorem last {wanted : α → Prop} {wantedThen : β → Prop} {result : Except MappingError α}
    {next : α → β} (h : Loads places wanted result)
    (hnext : ∀ value, wanted value → wantedThen (next value)) :
    Loads places wantedThen (result >>= fun value => pure (next value)) := by
  have hnone : firstFault? [] = none := rfl
  rw [← List.append_nil places]
  exact h.bind fun value hvalue => .loaded hnone (hnext value hvalue)

end Loads

/-! ## Tables -/

/-- The places of the paths of an entry. -/
def MappingEntry.places (group : RuleGroup) (entry : MappingEntry) : List PathPlace :=
  [(group, entry.source), (group, entry.target)]

/-- The places of all paths of a written mapping: group by group, in each entry by entry, and in
each the source before the target. -/
def MappingFile.places (file : MappingFile) : List PathPlace :=
  file.functions.flatMap (·.places .functions) ++ file.interfaces.flatMap (·.places .interfaces) ++
    file.enums.flatMap (·.places .enums)

/-- Whether a rule is the one that an entry stands for. -/
structure Rule.Follows (entry : MappingEntry) (rule : Rule) : Prop where
  source : rule.source.Follows entry.source
  target : rule.target.Follows entry.target
  converts : rule.callback.isSome = entry.callbackToPromise
  position : ∀ position ∈ rule.callback, position = entry.callbackPosition.getD 0

/-- Whether the rules of a table are those that the entries of a written mapping stand for, one
for each entry and in their order. -/
structure MappingTable.Follows (file : MappingFile) (table : MappingTable) : Prop where
  functions : List.Forall₂ Rule.Follows file.functions table.functions
  interfaces : List.Forall₂ Rule.Follows file.interfaces table.interfaces
  enums : List.Forall₂ Rule.Follows file.enums table.enums

theorem loads_readPath (group : RuleGroup) (written : String) :
    Loads [(group, written)] (·.Follows written) (readPath group written) := by
  unfold readPath
  by_cases h : IsWrittenPath written
  · obtain ⟨path, hpath, hfollows⟩ := exists_ofWritten?_of_isWrittenPath h
    rw [hpath]
    exact .loaded (by simp [firstFault?, h]) hfollows
  · rw [ofWritten?_of_not_isWrittenPath h]
    exact .refused (by simp [firstFault?, h])

theorem loads_ofEntry (group : RuleGroup) (entry : MappingEntry) :
    Loads (entry.places group) (Rule.Follows entry) (Rule.ofEntry group entry) := by
  refine (loads_readPath group entry.source).bind fun source hsource => ?_
  refine (loads_readPath group entry.target).last fun target htarget => ⟨hsource, htarget, ?_, ?_⟩
  · cases entry.callbackToPromise <;> rfl
  · cases entry.callbackToPromise <;> simp

theorem loads_rulesOfEntries (group : RuleGroup) (entries : List MappingEntry) :
    Loads (entries.flatMap (·.places group)) (List.Forall₂ Rule.Follows entries)
      (rulesOfEntries group entries) := by
  induction entries with
  | nil => exact .loaded rfl .nil
  | cons entry rest ih =>
    exact (loads_ofEntry group entry).bind fun rule hrule =>
      ih.last fun others hothers => .cons hrule hothers

theorem loads_ofFile (file : MappingFile) :
    Loads file.places (MappingTable.Follows file) (MappingTable.ofFile file) := by
  unfold MappingFile.places
  rw [List.append_assoc]
  refine (loads_rulesOfEntries .functions _).bind fun functions hfunctions => ?_
  refine (loads_rulesOfEntries .interfaces _).bind fun interfaces hinterfaces => ?_
  exact (loads_rulesOfEntries .enums _).last fun enums henums =>
    ⟨hfunctions, hinterfaces, henums⟩

theorem firstFault?_eq_none_iff {places : List PathPlace} :
    firstFault? places = none ↔ ∀ place ∈ places, IsWrittenPath place.2 := by
  simp [firstFault?]

/-- **Tables are loaded as a whole.**  A written mapping is loaded exactly when every path in it
can be read.  Then each group has one rule for each entry, in their order, with the paths and the
callback that the entry says; and otherwise the error tells the first path that cannot be read and
its group. -/
theorem MappingTable.ofFile_loads (file : MappingFile) :
    ((∃ table, ofFile file = .ok table) ↔ ∀ place ∈ file.places, IsWrittenPath place.2) ∧
      (∀ table, ofFile file = .ok table → table.Follows file) ∧
      ∀ error, ofFile file = .error error →
        ∃ group path, firstFault? file.places = some (group, path) ∧
          error = .invalidPath group path := by
  have hloads := loads_ofFile file
  generalize ofFile file = result at hloads
  cases hloads with
  | @loaded table none fits =>
    refine ⟨⟨fun _ => firstFault?_eq_none_iff.mp none, fun _ => ⟨table, rfl⟩⟩, ?_, nofun⟩
    rintro other ⟨⟩
    exact fits
  | @refused group path first =>
    refine ⟨⟨nofun, fun hall => ?_⟩, nofun, ?_⟩
    · rw [firstFault?_eq_none_iff.mpr hall] at first
      cases first
    · rintro error ⟨⟩
      exact ⟨group, path, first, rfl⟩

end SdkMigration
