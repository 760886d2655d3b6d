import SdkMigration.Package.Dependencies
import SdkMigration.Proofs.Json.Rereading
import SdkMigration.Proofs.Json.Settling

/-!
# Package descriptions that are updated

A description that is written anew differs from the text it takes the place of
(`updatePackage_changes`).  What is written is read back without an outdated version, and the
old text had one; and where the indentation is one that the format does not know, what is
written is no text of the format any more, and the old text was one.
-/

namespace SdkMigration

namespace Json

/-! ## Objects in what is read -/

theorem Numeral.number_ne_object (numeral : Numeral) (entries : List (String × Json)) :
    numeral.number ≠ .object entries := by
  have hdouble : numeral.double ≠ .object entries := by
    unfold Numeral.double
    simp only
    split
    · exact Json.noConfusion
    · exact Json.noConfusion
  unfold Numeral.number
  split
  · simp only
    split
    · split
      · exact Json.noConfusion
      · exact hdouble
    · split
      · exact Json.noConfusion
      · exact hdouble
  · exact hdouble

theorem readNumber_ne_object (text : List Char) (entries : List (String × Json)) :
    readNumber text ≠ .object entries := by
  unfold readNumber
  split
  · exact Numeral.number_ne_object _ entries
  · exact Json.noConfusion

/-- An object is read where an object has been written. -/
theorem reread_eq_object {json : Json} {entries : List (String × Json)}
    (h : json.reread = .object entries) :
    ∃ written, json = .object written ∧ entries = rereadEntries written := by
  cases json with
  | object written => exact ⟨written, rfl, (Json.object.inj h).symm⟩
  | integer value => exact absurd h (readNumber_ne_object _ entries)
  | double value => exact absurd h (readNumber_ne_object _ entries)
  | null => cases h
  | meaningless => cases h
  | bool value => cases h
  | string value => cases h
  | array items => cases h

end Json

namespace Dependencies

variable {package version : String}

/-! ## Versions that are up to date -/

/-- Whether an entry of a description lists a package with no version but the given one, if
it is a list of dependencies. -/
def UpToDate (package version : String) (entry : String × Json) : Prop :=
  entry.1 ∈ tables → ∀ listing, entry.2 = .object listing →
    ∀ listed ∈ listing, listed.1 = package → listed.2 = .string version

/-- An entry that has been updated is up to date. -/
theorem upToDate_updateEntry (entry : String × Json) :
    UpToDate package version (updateEntry package version entry) := by
  obtain ⟨key, value⟩ := entry
  cases value with
  | object listing =>
    rw [updateEntry]
    by_cases hkey : tables.contains key = true
    · rw [if_pos hkey]
      rintro - _ ⟨⟩ listed hlisted hpackage
      obtain ⟨old, -, rfl⟩ := List.mem_map.mp hlisted
      exact if_pos hpackage
    · rw [if_neg hkey]
      intro htables
      exact absurd (List.contains_iff_mem.mpr htables) hkey
  | _ =>
    rintro - listing hlisting
    cases hlisting

theorem UpToDate.not_outdated {entry : String × Json} (h : UpToDate package version entry) :
    entryIsOutdated package version entry = false := by
  obtain ⟨key, value⟩ := entry
  cases value with
  | object listing =>
    rw [Bool.eq_false_iff]
    intro houtdated
    simp only [entryIsOutdated, isOutdated, Bool.and_eq_true, List.any_eq_true, beq_iff_eq,
      Bool.not_eq_true'] at houtdated
    obtain ⟨htables, listed, hlisted, hpackage, hversion⟩ := houtdated
    have hlatest := h (List.contains_iff_mem.mp htables) listing rfl listed hlisted hpackage
    rw [hlatest] at hversion
    simp [isVersion] at hversion
  | _ => rfl

theorem UpToDate.reread {key : String} {value : Json} (h : UpToDate package version (key, value)) :
    UpToDate package version (key, value.reread) := by
  intro htables listing hlisting listed hlisted hpackage
  obtain ⟨written, rfl, rfl⟩ := Json.reread_eq_object hlisting
  rw [Json.rereadEntries_eq_map] at hlisted
  obtain ⟨old, hold, rfl⟩ := List.mem_map.mp hlisted
  have hlatest := h htables written rfl old hold hpackage
  simp only [hlatest, Json.reread]

theorem UpToDate.settled {key : String} {value found : Json} {depth : Nat}
    (h : UpToDate package version (key, value)) (hfound : value.settled depth = some found) :
    UpToDate package version (key, found) := by
  rintro htables listing rfl listed hlisted hpackage
  obtain ⟨values, rfl, hentries⟩ := Json.settled_eq_object hfound
  obtain ⟨below, old, hold, hsettled⟩ := hentries listed hlisted
  have hlatest : old = .string version := h htables values rfl (listed.1, old) hold hpackage
  subst hlatest
  exact (Option.some.inj hsettled).symm

/-! ## Descriptions that are written anew -/

theorem isBlank_of_mem_indentOf {text : Text} {c : Char} (h : c ∈ indentOf text) :
    isBlank c = true := by
  unfold indentOf at h
  simp only at h
  cases hfound : ((text.lines.drop 1).map fun line => line.takeWhile isBlank).find?
      fun indent => !indent.isEmpty with
  | none =>
    rw [hfound] at h
    have hspaces : [' ', ' '].all isBlank = true := by decide
    exact List.all_eq_true.mp hspaces c h
  | some indent =>
    rw [hfound] at h
    obtain ⟨line, -, rfl⟩ := List.mem_map.mp (List.mem_of_find?_eq_some hfound)
    exact List.all_eq_true.mp List.all_takeWhile c h

theorem isSpaced_indented {indent : List Char} (h : ∀ c ∈ indent, Json.isSpace c = true) :
    (Json.indented indent).IsSpaced where
  lineBreak level c hc := by
    rcases List.mem_cons.mp hc with rfl | hindent
    · rfl
    · obtain ⟨chars, hchars, hmem⟩ := List.mem_flatten.mp hindent
      rw [List.eq_of_mem_replicate hchars] at hmem
      exact h c hmem
  afterColon c hc := by
    rw [List.mem_singleton.mp hc]
    rfl

/-- A description is written with its indentation and at most a line feed behind it. -/
theorem written_eq (old : Text) (entries : List (String × Json)) :
    ∃ spaces, (∀ c ∈ spaces, Json.isSpace c = true) ∧ written old entries =
      String.ofList ((Json.object entries).write (Json.indented (indentOf old)) 0 ++ spaces) := by
  unfold written
  simp only
  split
  · refine ⟨['\n'], List.all_eq_true.mp (by decide), ?_⟩
    rw [String.ofList_append]
    rfl
  · refine ⟨[], nofun, ?_⟩
    rw [List.append_nil]
    rfl

/-- What is read of a description that has been updated is up to date. -/
theorem readSettled?_written {old : Text} {entries found : List (String × Json)}
    (hindent : ∀ c ∈ indentOf old, Json.isSpace c = true)
    (h : Json.readSettled? (written old (entries.map (updateEntry package version))) =
      some (.object found)) : ∀ entry ∈ found, UpToDate package version entry := by
  obtain ⟨spaces, hspaces, htext⟩ := written_eq old (entries.map (updateEntry package version))
  unfold Json.readSettled? at h
  rw [htext, Json.read?_write (isSpaced_indented hindent) _ 0 hspaces] at h
  intro entry hentry
  obtain ⟨values, hvalues, hsettled⟩ := Json.settled_eq_object h
  obtain ⟨below, value, hvalue, hfound⟩ := hsettled entry hentry
  obtain rfl := Json.object.inj hvalues
  rw [Json.rereadEntries_eq_map] at hvalue
  obtain ⟨updated, hupdated, hreread⟩ := List.mem_map.mp hvalue
  obtain ⟨given, -, rfl⟩ := List.mem_map.mp hupdated
  have hlatest : UpToDate package version (entry.1, value) := by
    rw [← hreread]
    exact (upToDate_updateEntry given).reread
  exact hlatest.settled hfound

/-- Behind a brace, a text of the format goes on with a quotation mark or with another
brace. -/
theorem spanPart?_object_eq_none {c : Char} {chars rest : List Char}
    (h : Json.skipSpaces chars = c :: rest) (hspace : Json.isSpace c = false) (hquote : c ≠ '"')
    (hbrace : c ≠ '\x7d') (fuel : Nat) : Json.spanPart? .value ('\x7b' :: chars) fuel = none := by
  have hentries : ∀ fuel, Json.spanPart? .entries (c :: rest) fuel = none := by
    intro fuel
    cases fuel with
    | zero => rfl
    | succ fuel =>
      unfold Json.spanPart?
      simp only [Json.skipSpaces_cons hspace]
      split
      · next heq => exact absurd (List.cons.inj heq).1 hquote
      · rfl
  cases fuel with
  | zero => rfl
  | succ fuel =>
    unfold Json.spanPart?
    simp only [Json.skipSpaces_cons (show Json.isSpace '\x7b' = false by decide), h]
    split
    · next heq => exact absurd (List.cons.inj heq).1 hbrace
    · rw [hentries]

theorem skipSpaces_indent {indent : List Char} {c : Char} (hc : c ∈ indent)
    (hspace : Json.isSpace c = false) (rest : List Char) :
    ∃ first others, first ∈ indent ∧ Json.isSpace first = false ∧
      Json.skipSpaces (indent ++ rest) = first :: others := by
  induction indent with
  | nil => cases hc
  | cons first indent ih =>
    by_cases hfirst : Json.isSpace first = true
    · have htail : c ∈ indent := by
        rcases List.mem_cons.mp hc with rfl | htail
        · rw [hfirst] at hspace
          cases hspace
        · exact htail
      obtain ⟨next, others, hnext, hvisible, hskip⟩ := ih htail
      refine ⟨next, others, .tail first hnext, hvisible, ?_⟩
      have hspaces : ∀ c ∈ [first], Json.isSpace c = true := by simpa using hfirst
      rw [← hskip]
      exact Json.skipSpaces_append hspaces (indent ++ rest)
    · rw [Bool.not_eq_true] at hfirst
      exact ⟨first, indent ++ rest, .head indent, hfirst, Json.skipSpaces_cons hfirst _⟩

/-- With an indentation that the format does not know, no description is written. -/
theorem read?_written_of_blank {old : Text} {entries : List (String × Json)}
    (hentries : entries ≠ []) {c : Char} (hc : c ∈ indentOf old)
    (hspace : Json.isSpace c = false) : Json.read? (written old entries) = none := by
  obtain ⟨spaces, -, htext⟩ := written_eq old entries
  obtain ⟨⟨key, value⟩, others, rfl⟩ := List.exists_cons_of_ne_nil hentries
  obtain ⟨rest, hrest⟩ : ∃ rest, (Json.object ((key, value) :: others)).write
      (Json.indented (indentOf old)) 0 ++ spaces = '\x7b' :: (['\n'] ++ (indentOf old ++ rest)) := by
    simp only [Json.write, Json.indented, List.replicate_succ, List.replicate_zero,
      List.flatten_cons, List.flatten_nil, List.append_nil, List.cons_append, List.append_assoc,
      List.nil_append]
    exact ⟨_, rfl⟩
  obtain ⟨first, behind, hfirst, hvisible, hskip⟩ := skipSpaces_indent hc hspace rest
  have hfeed : ∀ c ∈ ['\n'], Json.isSpace c = true := List.all_eq_true.mp (by decide)
  rw [← Json.skipSpaces_append hfeed] at hskip
  have hblank := isBlank_of_mem_indentOf hfirst
  have hread := spanPart?_object_eq_none hskip hvisible
    (by rintro rfl; revert hblank; decide) (by rintro rfl; revert hblank; decide)
  unfold Json.read?
  simp only [htext, hrest, String.toList_ofList, hread]

end Dependencies

/-- A description is written anew only when its text changes by that. -/
theorem updatePackage_changes {text package version updated : String}
    (h : updatePackage text package version = .ok (some updated)) : updated ≠ text := by
  unfold updatePackage at h
  split at h
  · split at h
    · cases h
    · next entries hread =>
      split at h
      · next houtdated =>
        obtain ⟨entry, hentry, hold⟩ := List.any_eq_true.mp houtdated
        obtain rfl := Option.some.inj (Except.ok.inj h)
        intro hsame
        cases hindent : (Dependencies.indentOf text.toList).all Json.isSpace with
        | true =>
          have hlatest := Dependencies.readSettled?_written (List.all_eq_true.mp hindent)
            (by rw [hsame, hread])
          rw [(hlatest entry hentry).not_outdated] at hold
          cases hold
        | false =>
          obtain ⟨c, hc, hspace⟩ := List.all_eq_false.mp hindent
          rw [Bool.not_eq_true] at hspace
          have hnonempty : entries.map (Dependencies.updateEntry package version) ≠ [] :=
            List.ne_nil_of_mem (List.mem_map_of_mem hentry)
          have hnone := Dependencies.read?_written_of_blank hnonempty hc hspace
          rw [hsame] at hnone
          rw [Json.readSettled?, hnone] at hread
          cases hread
      · cases h
    · cases h
  · cases h

end SdkMigration
