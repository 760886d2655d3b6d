import Mathlib.Data.List.Forall2
import SdkMigration.Proofs.Json.Faithful
import SdkMigration.Proofs.TextRows
import SdkMigration.Proofs.UpdatedDependencies

/-!
# What an update does to a package description

An update pins a package and does nothing else (`updatePackage_pins`): the new text is read as
the value of the old one with the version in every entry of the package, and there is nothing to
update in it any more.

The indentation of the new text is taken from the old one.  Since that is a text of the format,
the blanks in front of its lines are spaces that the format knows
(`Dependencies.isSpace_of_mem_indentOf`), and so the new text is read back.
-/

namespace SdkMigration

namespace Text

/-! ## Lines behind the first -/

theorem head_linesFrom {current text line : Text} (h : (linesFrom current text).head? = some line) :
    line <+: current.reverse ++ text := by
  induction text generalizing current with
  | nil =>
    unfold linesFrom at h
    split at h
    · cases h
    · cases h
      exact List.prefix_append ..
  | cons c rest ih =>
    unfold linesFrom at h
    split at h
    · cases h
      exact (dropCarriageReturn_isPrefix _).trans (List.prefix_append ..)
    · simpa using ih h

/-- A line behind the first stands right behind a line feed. -/
theorem mem_tail_linesFrom {current text line : Text}
    (h : line ∈ (linesFrom current text).drop 1) :
    ∃ tail, '\n' :: tail <:+ text ∧ line <+: tail := by
  induction text generalizing current with
  | nil =>
    unfold linesFrom at h
    split at h
    · cases h
    · cases h
  | cons c rest ih =>
    unfold linesFrom at h
    split at h
    · next hfeed =>
      rw [List.drop_one, List.tail_cons] at h
      rw [hfeed]
      cases hlines : linesFrom [] rest with
      | nil =>
        rw [hlines] at h
        cases h
      | cons first others =>
        rw [hlines] at h
        rcases List.mem_cons.mp h with rfl | hothers
        · exact ⟨rest, List.suffix_rfl, head_linesFrom (by rw [hlines]; rfl)⟩
        · have hline : line ∈ (linesFrom [] rest).drop 1 := by rwa [hlines]
          obtain ⟨tail, htail, hline⟩ := ih hline
          exact ⟨tail, htail.trans (List.suffix_cons ..), hline⟩
    · obtain ⟨tail, htail, hline⟩ := ih h
      exact ⟨tail, htail.trans (List.suffix_cons ..), hline⟩

end Text

namespace Dependencies

variable {package version : String}

theorem mem_takeWhile_append {kind : Char → Bool} {c : Char} {chars : List Char}
    (h : c ∈ chars.takeWhile kind) (rest : List Char) : c ∈ (chars ++ rest).takeWhile kind := by
  rw [List.takeWhile_append]
  split
  · exact List.mem_append_left _ ((List.takeWhile_sublist _).subset h)
  · exact h

/-- The indentation of a text of the format consists of spaces that the format knows. -/
theorem isSpace_of_mem_indentOf {text : String} {json : Json} (h : Json.read? text = some json) :
    ∀ c ∈ indentOf text.toList, Json.isSpace c = true := by
  unfold indentOf
  simp only
  cases hfound : (((Text.lines text.toList).drop 1).map fun line => line.takeWhile isBlank).find?
      fun indent => !indent.isEmpty with
  | none => exact List.all_eq_true.mp (by decide)
  | some indent =>
    obtain ⟨line, hline, rfl⟩ := List.mem_map.mp (List.mem_of_find?_eq_some hfound)
    obtain ⟨tail, htail, rest, rfl⟩ := Text.mem_tail_linesFrom hline
    intro c hc
    exact (Json.linesSpaced_of_read? h).later _ htail c (mem_takeWhile_append hc rest)

/-! ## Entries that are pinned -/

/-- What becomes of an entry of a list of dependencies: the one of the package gets the version,
and every other one stays as it is. -/
inductive Pinned (package version : String) : String × Json → String × Json → Prop
  | pinned (old : Json) : Pinned package version (package, old) (package, .string version)
  | other {name : String} (value : Json) (apart : name ≠ package) :
      Pinned package version (name, value) (name, value)

/-- What becomes of an entry of a description: a list of dependencies is pinned, and everything
else stays as it is. -/
inductive Updated (package version : String) : String × Json → String × Json → Prop
  | table {key : String} {listing pinned : List (String × Json)} (known : key ∈ tables)
      (pins : List.Forall₂ (Pinned package version) listing pinned) :
      Updated package version (key, .object listing) (key, .object pinned)
  | other {entry : String × Json}
      (apart : ¬(entry.1 ∈ tables ∧ ∃ listing, entry.2 = .object listing)) :
      Updated package version entry entry

theorem pinned_setVersion (package version : String) (listing : List (String × Json)) :
    List.Forall₂ (Pinned package version) listing (setVersion package version listing) := by
  rw [setVersion, List.forall₂_map_right_iff, List.forall₂_same]
  rintro ⟨name, value⟩ -
  by_cases hname : name = package
  · subst hname
    simpa using Pinned.pinned value
  · simpa [hname] using Pinned.other value hname

theorem updated_updateEntry (package version : String) (entry : String × Json) :
    Updated package version entry (updateEntry package version entry) := by
  obtain ⟨key, value⟩ := entry
  cases value with
  | object listing =>
    rw [updateEntry]
    split
    · next hkey =>
      exact .table (List.contains_iff_mem.mp hkey) (pinned_setVersion package version listing)
    · next hkey => exact .other fun h => hkey (List.contains_iff_mem.mpr h.1)
  | _ =>
    refine .other ?_
    rintro ⟨-, listing, hobject⟩
    cases hobject

theorem Pinned.fst_eq {entry pinned : String × Json} (h : Pinned package version entry pinned) :
    pinned.1 = entry.1 := by
  cases h with
  | pinned old => rfl
  | other value _ => rfl

theorem Updated.fst_eq {entry updated : String × Json} (h : Updated package version entry updated) :
    updated.1 = entry.1 := by
  cases h with
  | table _ _ => rfl
  | other _ => rfl

/-- Entries that are changed one by one keep their keys. -/
theorem map_fst_eq {relation : String × Json → String × Json → Prop}
    (hfst : ∀ {entry changed}, relation entry changed → changed.1 = entry.1)
    {entries changed : List (String × Json)} (h : List.Forall₂ relation entries changed) :
    changed.map Prod.fst = entries.map Prod.fst := by
  induction h with
  | nil => rfl
  | cons hhead _ ih => rw [List.map_cons, List.map_cons, hfst hhead, ih]

theorem exists_of_mem_right {relation : String × Json → String × Json → Prop}
    {entries changed : List (String × Json)} (h : List.Forall₂ relation entries changed)
    {found : String × Json} (hfound : found ∈ changed) :
    ∃ entry ∈ entries, relation entry found := by
  induction h with
  | nil => cases hfound
  | cons hhead _ ih =>
    rcases List.mem_cons.mp hfound with rfl | hrest
    · exact ⟨_, .head _, hhead⟩
    · obtain ⟨entry, hentry, hrelated⟩ := ih hrest
      exact ⟨entry, .tail _ hentry, hrelated⟩

/-! ## Descriptions that are pinned -/

theorem Pinned.settled {depth : Nat} {entry pinned : String × Json}
    (h : Pinned package version entry pinned) (hentry : entry.2.settled depth = some entry.2) :
    pinned.2.settled depth = some pinned.2 := by
  cases h with
  | pinned old => rfl
  | other value _ => exact hentry

theorem Updated.settled {depth : Nat} {entry updated : String × Json}
    (h : Updated package version entry updated) (hentry : entry.2.settled depth = some entry.2) :
    updated.2.settled depth = some updated.2 := by
  cases h with
  | table _ hpins =>
    obtain ⟨below, rfl, hkeys, hlisting⟩ := Json.settled_object_self hentry
    rw [← map_fst_eq Pinned.fst_eq hpins] at hkeys
    refine Json.settled_object_eq_self hkeys fun pinned hpinned => ?_
    obtain ⟨listed, hlisted, hpin⟩ := exists_of_mem_right hpins hpinned
    exact hpin.settled (hlisting listed hlisted)
  | other _ => exact hentry

/-- A description stays settled when it is updated. -/
theorem settled_of_updated {depth : Nat} {entries updated : List (String × Json)}
    (h : List.Forall₂ (Updated package version) entries updated)
    (hentries : (Json.object entries).settled depth = some (.object entries)) :
    (Json.object updated).settled depth = some (.object updated) := by
  obtain ⟨below, rfl, hkeys, hvalues⟩ := Json.settled_object_self hentries
  rw [← map_fst_eq Updated.fst_eq h] at hkeys
  refine Json.settled_object_eq_self hkeys fun found hfound => ?_
  obtain ⟨entry, hentry, hupdate⟩ := exists_of_mem_right h hfound
  exact hupdate.settled (hvalues entry hentry)

theorem Pinned.leaf {leaf : Json} {entry pinned : String × Json}
    (h : Pinned package version entry pinned) (hleaf : leaf ∈ pinned.2.leaves) :
    leaf = .string version ∨ leaf ∈ entry.2.leaves := by
  cases h with
  | pinned old => exact Or.inl (List.mem_singleton.mp hleaf)
  | other value _ => exact Or.inr hleaf

theorem Updated.leaf {leaf : Json} {entry updated : String × Json}
    (h : Updated package version entry updated) (hleaf : leaf ∈ updated.2.leaves) :
    leaf = .string version ∨ leaf ∈ entry.2.leaves := by
  cases h with
  | table _ hpins =>
    obtain ⟨pinned, hpinned, hmem⟩ := Json.mem_leaves_object.mp hleaf
    obtain ⟨listed, hlisted, hpin⟩ := exists_of_mem_right hpins hpinned
    exact (hpin.leaf hmem).imp_right fun hold => Json.mem_leaves_object.mpr ⟨listed, hlisted, hold⟩
  | other _ => exact Or.inr hleaf

/-- An update brings in no number. -/
theorem numbersReadBack_of_updated {entries updated : List (String × Json)}
    (h : List.Forall₂ (Updated package version) entries updated)
    (hentries : (Json.object entries).NumbersReadBack) :
    (Json.object updated).NumbersReadBack := by
  have hleaf : ∀ leaf ∈ (Json.object updated).leaves,
      leaf = .string version ∨ leaf ∈ (Json.object entries).leaves := by
    intro leaf hleaf
    obtain ⟨found, hfound, hmem⟩ := Json.mem_leaves_object.mp hleaf
    obtain ⟨entry, hentry, hupdate⟩ := exists_of_mem_right h hfound
    exact (hupdate.leaf hmem).imp_right fun hold => Json.mem_leaves_object.mpr ⟨entry, hentry, hold⟩
  exact {
    integers := fun value hvalue =>
      hentries.integers value ((hleaf _ hvalue).resolve_left Json.noConfusion)
    doubles := fun value hvalue => hentries.doubles value (Json.mem_doubles.mpr
      ((hleaf _ (Json.mem_doubles.mp hvalue)).resolve_left Json.noConfusion)) }

/-! ## Descriptions that are written anew -/

theorem getLast?_write_object (layout : Json.Layout) (level : Nat)
    (entries : List (String × Json)) :
    ((Json.object entries).write layout level).getLast? = some '\x7d' := by
  cases entries with
  | nil => rfl
  | cons entry rest =>
    rw [Json.write, ← List.cons_append]
    exact List.getLast?_concat

/-- A description ends in a line feed when the old one does, and only then. -/
theorem getLast?_written (old : Text) (entries : List (String × Json)) :
    (written old entries).toList.getLast? = some '\n' ↔ old.getLast? = some '\n' := by
  unfold written Json.pretty
  simp only
  split
  · next hold => simp [hold]
  · next hold => simp [hold, getLast?_write_object]

/-- What is written of a description is read back. -/
theorem readSettled?_written_self {text : String} {json : Json}
    (hread : Json.read? text = some json) {entries : List (String × Json)}
    (hsettled : (Json.object entries).settled Json.maxDepth = some (.object entries))
    (hnumbers : (Json.object entries).NumbersReadBack) :
    Json.readSettled? (written text.toList entries) = some (.object entries) := by
  obtain ⟨spaces, hspaces, hwritten⟩ := written_eq text.toList entries
  rw [hwritten]
  exact Json.readSettled?_write (isSpaced_indented (isSpace_of_mem_indentOf hread)) hsettled
    hnumbers 0 hspaces

theorem isVersion_iff {value : Json} :
    isVersion version value = true ↔ value = .string version := by
  cases value with
  | string found => simp [isVersion]
  | _ => simp [isVersion]

/-- An entry is up to date when there is nothing to update in it, and only then. -/
theorem not_outdated_iff {entry : String × Json} :
    entryIsOutdated package version entry = false ↔ UpToDate package version entry := by
  refine ⟨fun h => ?_, UpToDate.not_outdated⟩
  obtain ⟨key, value⟩ := entry
  rintro htables listing rfl ⟨name, found⟩ hlisted rfl
  rw [entryIsOutdated, List.contains_iff_mem.mpr htables, Bool.true_and, isOutdated,
    List.any_eq_false] at h
  simpa [isVersion_iff] using h (name, found) hlisted

theorem any_outdated_eq_false_iff {entries : List (String × Json)} :
    entries.any (entryIsOutdated package version) = false ↔
      ∀ entry ∈ entries, UpToDate package version entry := by
  simp only [List.any_eq_false, Bool.not_eq_true, not_outdated_iff]

end Dependencies

open Dependencies

/-! ## Updates -/

/-- There is nothing to update in a description whose lists are up to date, and only there. -/
theorem updatePackage_eq_none_iff {text package version : String} :
    updatePackage text package version = .ok none ↔
      VersionRequirement.isValid version = true ∧ ∃ entries,
        Json.readSettled? text = some (.object entries) ∧
          ∀ entry ∈ entries, UpToDate package version entry := by
  unfold updatePackage
  by_cases hvalid : VersionRequirement.isValid version = true
  · rw [if_pos hvalid]
    cases hread : Json.readSettled? text with
    | none => simp
    | some json =>
      cases json with
      | object entries =>
        simp only [hvalid, true_and, Option.some.injEq, Json.object.injEq, exists_eq_left',
          ← any_outdated_eq_false_iff]
        split
        · next houtdated => simp [houtdated]
        · next hlatest => simp [hlatest]
      | _ => simp
  · simp [hvalid]

/-- A description that is updated is written with the version in every entry of the package. -/
theorem updatePackage_eq_some {text package version updated : String}
    (h : updatePackage text package version = .ok (some updated)) :
    VersionRequirement.isValid version = true ∧ ∃ entries,
      Json.readSettled? text = some (.object entries) ∧
        updated = written text.toList (entries.map (updateEntry package version)) := by
  unfold updatePackage at h
  split at h
  · next hvalid =>
    split at h
    · cases h
    · next entries hread =>
      split at h
      · cases h
        exact ⟨hvalid, entries, hread, rfl⟩
      · cases h
    · cases h
  · cases h

/-- **What an update does.**  Suppose that the doubles in a description are read back as
themselves once they are written.  A new text is read as the value of the old one, in which every
list of dependencies has the version where it lists the package and nothing else is changed; it
ends in a line feed when the old one does; and updating it once more changes nothing.  Nothing is
changed exactly when the version is a requirement and the text is an object in which no list has
another version of the package. -/
theorem updatePackage_pins (text package version : String)
    (hdoubles : ∀ json, Json.readSettled? text = some json → ∀ value ∈ json.doubles,
      Json.readNumber (Json.doubleText value) = .double value) :
    (∀ updated, updatePackage text package version = .ok (some updated) →
      (∃ entries pinned, Json.readSettled? text = some (.object entries) ∧
        Json.readSettled? updated = some (.object pinned) ∧
        List.Forall₂ (Updated package version) entries pinned) ∧
      (updated.toList.getLast? = some '\n' ↔ text.toList.getLast? = some '\n') ∧
      updatePackage updated package version = .ok none) ∧
    (updatePackage text package version = .ok none ↔
      VersionRequirement.isValid version = true ∧ ∃ entries,
        Json.readSettled? text = some (.object entries) ∧
          ∀ entry ∈ entries, UpToDate package version entry) := by
  refine ⟨fun updated hupdate => ?_, updatePackage_eq_none_iff⟩
  obtain ⟨hvalid, entries, hread, rfl⟩ := updatePackage_eq_some hupdate
  have hpins : List.Forall₂ (Updated package version) entries
      (entries.map (updateEntry package version)) := by
    rw [List.forall₂_map_right_iff, List.forall₂_same]
    exact fun entry _ => updated_updateEntry package version entry
  have hnumbers := Json.numbersReadBack_of_readSettled? hread (hdoubles _ hread)
  obtain ⟨json, htext, hsettled⟩ := Option.bind_eq_some_iff.mp hread
  have hnew := readSettled?_written_self htext
    (settled_of_updated hpins (Json.settled_settled hsettled))
    (numbersReadBack_of_updated hpins hnumbers)
  refine ⟨⟨entries, _, hread, hnew, hpins⟩, getLast?_written _ _, ?_⟩
  refine updatePackage_eq_none_iff.mpr ⟨hvalid, _, hnew, fun entry hentry => ?_⟩
  obtain ⟨old, -, rfl⟩ := List.mem_map.mp hentry
  exact upToDate_updateEntry old

/-- A description with a package in two lists, and a double in it. -/
private def description : String :=
  "\x7b\n\t\"scale\": 1.5,\n" ++
  "\t\"dependencies\": \x7b \"react\": \"^18\", \"teams\": \"1.9.0\" \x7d,\n" ++
  "\t\"peerDependencies\": \x7b \"teams\": [1] \x7d\n\x7d\n"

/-- What the description is written as with a new version of the package. -/
private def pinnedDescription : String :=
  "\x7b\n\t\"scale\": 1.5,\n" ++
  "\t\"dependencies\": \x7b\n\t\t\"react\": \"^18\",\n\t\t\"teams\": \"^2.0.0\"\n\t\x7d,\n" ++
  "\t\"peerDependencies\": \x7b\n\t\t\"teams\": \"^2.0.0\"\n\t\x7d\n\x7d\n"

private theorem description_doubles :
    (Json.readSettled? description).map Json.doubles = some [⟨false, 6755399441055744, -52⟩] := by
  decide +kernel

private theorem description_doubles_readBack (json : Json)
    (h : Json.readSettled? description = some json) : ∀ value ∈ json.doubles,
      Json.readNumber (Json.doubleText value) = .double value := by
  have hdoubles := description_doubles
  rw [h, Option.map_some, Option.some.injEq] at hdoubles
  intro value hvalue
  rw [hdoubles, List.mem_singleton] at hvalue
  subst hvalue
  exact Json.double?_eq_some.mp (by decide +kernel)

private theorem description_updates :
    updatePackage description "teams" "^2.0.0" = .ok (some pinnedDescription) := by
  decide +kernel

/-- A description with a package in two lists is updated in both, and then stays as it is. -/
theorem description_pins :
    (∀ json, Json.readSettled? description = some json → ∀ value ∈ json.doubles,
      Json.readNumber (Json.doubleText value) = .double value) ∧
    updatePackage description "teams" "^2.0.0" = .ok (some pinnedDescription) ∧
    (∃ entries pinned, Json.readSettled? description = some (.object entries) ∧
      Json.readSettled? pinnedDescription = some (.object pinned) ∧
      List.Forall₂ (Updated "teams" "^2.0.0") entries pinned) ∧
    updatePackage pinnedDescription "teams" "^2.0.0" = .ok none := by
  obtain ⟨hupdates, -⟩ :=
    updatePackage_pins description "teams" "^2.0.0" description_doubles_readBack
  obtain ⟨hread, -, hagain⟩ := hupdates pinnedDescription description_updates
  exact ⟨description_doubles_readBack, description_updates, hread, hagain⟩

end SdkMigration
