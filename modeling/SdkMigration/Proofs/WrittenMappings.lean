import SdkMigration.Mapping.Format
import SdkMigration.Proofs.Json.Faithful

/-!
# Mappings that are written are read back

A mapping that has been written is read as the same mapping, as long as its positions fit 64
bits (`MappingFile.read?_written`), which they do when the mapping was read itself
(`MappingFile.fits_of_read?`).  So a mapping can be read and written again without changing the
table that it is loaded as, or the fault for which it is not (`MappingFile.reads_written`).
-/

namespace SdkMigration

namespace Json

/-! ## Parts of records -/

/-- A value whose whole numbers fit 64 bits. -/
def IntegersFit (json : Json) : Prop := ∀ value, .integer value ∈ json.leaves → FitsWord value

theorem IntegersFit.entry {entries : List (String × Json)} (h : (object entries).IntegersFit)
    {entry : String × Json} (hentry : entry ∈ entries) : entry.2.IntegersFit :=
  fun value hvalue => h value (mem_leaves_object.mpr ⟨entry, hentry, hvalue⟩)

theorem IntegersFit.item {items : List Json} (h : (array items).IntegersFit) {item : Json}
    (hitem : item ∈ items) : item.IntegersFit :=
  fun value hvalue => h value (mem_leaves_array.mpr ⟨item, hitem, hvalue⟩)

theorem integersFit_of_read? {text : String} {json : Json} (h : read? text = some json) :
    json.IntegersFit := by
  obtain ⟨rest, hspells, -⟩ := spells_of_read? h
  exact fun _ hvalue => hspells.fitsWord hvalue

theorem mem_of_field? {name : String} {entries : List (String × Json)} {json : Json}
    (h : field? name entries = some (some json)) : ∃ entry ∈ entries, entry.2 = json := by
  unfold field? at h
  split at h
  · cases h
  · next entry hfilter =>
    have hmem : entry ∈ entries :=
      (List.mem_filter.mp (hfilter ▸ List.mem_singleton_self entry)).1
    exact ⟨entry, hmem, Option.some.inj (Option.some.inj h)⟩
  · cases h

section parts

variable {α : Type} {P : α → Prop} {part : Json → Option α} {default value : α}

/-- What holds of the default and of whatever is read of a value whose whole numbers fit holds
of a field of a record whose whole numbers fit. -/
theorem IntegersFit.of_fieldOr? {name : String} {entries : List (String × Json)}
    (h : (object entries).IntegersFit) (hread : fieldOr? part default name entries = some value)
    (hdefault : P default)
    (hpart : ∀ {json value}, IntegersFit json → part json = some value → P value) : P value := by
  obtain ⟨found, hfound, hread⟩ := Option.bind_eq_some_iff.mp hread
  cases found with
  | none =>
    cases hread
    exact hdefault
  | some json =>
    obtain ⟨entry, hentry, rfl⟩ := mem_of_field? hfound
    exact hpart (h.entry hentry) hread

/-- The same for the next part of a record in list form, and what is left of the list still has
whole numbers that fit. -/
theorem IntegersFit.of_nextOr? {items rest : List Json} (h : (array items).IntegersFit)
    (hread : nextOr? part default items = some (value, rest)) (hdefault : P default)
    (hpart : ∀ {json value}, IntegersFit json → part json = some value → P value) :
    P value ∧ (array rest).IntegersFit := by
  cases items with
  | nil =>
    cases hread
    exact ⟨hdefault, h⟩
  | cons first others =>
    obtain ⟨found, hfound, hpair⟩ := Option.map_eq_some_iff.mp hread
    cases hpair
    refine ⟨hpart (h.item (.head _)) hfound, fun value hvalue => ?_⟩
    obtain ⟨item, hitem, hmem⟩ := mem_leaves_array.mp hvalue
    exact h.item (.tail _ hitem) value hmem

theorem exists_of_mem_mapM {items : List Json} {values : List α}
    (h : items.mapM part = some values) (hvalue : value ∈ values) :
    ∃ item ∈ items, part item = some value := by
  induction items generalizing values with
  | nil =>
    cases h
    cases hvalue
  | cons item rest ih =>
    rw [List.mapM_cons] at h
    obtain ⟨first, hfirst, h⟩ := Option.bind_eq_some_iff.mp h
    obtain ⟨others, hothers, h⟩ := Option.bind_eq_some_iff.mp h
    cases h
    rcases List.mem_cons.mp hvalue with rfl | hvalue
    · exact ⟨item, .head _, hfirst⟩
    · obtain ⟨found, hfound, hread⟩ := ih hothers hvalue
      exact ⟨found, .tail _ hfound, hread⟩

/-- The same for the items of a list. -/
theorem IntegersFit.of_asList? {json : Json} {values : List α} (h : json.IntegersFit)
    (hread : asList? part json = some values)
    (hpart : ∀ {json value}, IntegersFit json → part json = some value → P value) :
    ∀ value ∈ values, P value := by
  intro value hvalue
  cases json with
  | array items =>
    obtain ⟨item, hitem, hread⟩ := exists_of_mem_mapM hread hvalue
    exact hpart (h.item hitem) hread
  | _ => cases hread

end parts

end Json

/-! ## Entries -/

namespace MappingEntry

/-- Whether a position fits 64 bits, if there is one. -/
def PositionFits (position : Option Nat) : Prop := ∀ n ∈ position, n < Json.wordBound

/-- Whether the position of an entry fits 64 bits. -/
def Fits (entry : MappingEntry) : Prop := PositionFits entry.callbackPosition

/-- What is left out of an entry is what is taken for a part that is left out. -/
theorem ofJson?_toJson (entry : MappingEntry) : ofJson? entry.toJson = some entry := by
  obtain ⟨source, target, promise, position⟩ := entry
  cases promise <;> cases position <;> rfl

theorem reread_toJson {entry : MappingEntry} (h : entry.Fits) :
    entry.toJson.reread = entry.toJson := by
  obtain ⟨source, target, promise, position⟩ := entry
  cases position with
  | none => cases promise <;> rfl
  | some position =>
    have hbound : position < Json.wordBound := h position rfl
    have hfits : Json.FitsWord (Int.ofNat position) := by
      simp only [Json.FitsWord, Json.wordBound, Nat.pow_eq, Int.ofNat_eq_natCast] at hbound ⊢
      omega
    have hposition := Json.readNumber_integerText hfits
    rw [Int.ofNat_eq_natCast] at hposition
    cases promise <;> simp [toJson, Json.reread, Json.rereadEntries, hposition]

theorem positionFits_of_asOption? {json : Json} {position : Option Nat} (h : json.IntegersFit)
    (hread : Json.asOption? Json.asNat? json = some position) : PositionFits position := by
  rintro n rfl
  have hjson : json = .integer (Int.ofNat n) := by
    cases json with
    | integer value =>
      cases value with
      | ofNat m => cases hread; rfl
      | negSucc m => cases hread
    | _ => cases hread
  subst hjson
  exact Int.ofNat_lt.mp (h _ (.head _)).2

/-- The position of an entry fits when it is read of a value whose whole numbers do. -/
theorem fits_of_ofJson? {json : Json} {entry : MappingEntry} (h : json.IntegersFit)
    (hread : ofJson? json = some entry) : entry.Fits := by
  unfold ofJson? at hread
  split at hread
  · obtain ⟨_, -, hread⟩ := Option.bind_eq_some_iff.mp hread
    obtain ⟨_, -, hread⟩ := Option.bind_eq_some_iff.mp hread
    obtain ⟨_, -, hread⟩ := Option.bind_eq_some_iff.mp hread
    obtain ⟨_, -, hread⟩ := Option.bind_eq_some_iff.mp hread
    obtain ⟨_, -, hread⟩ := Option.bind_eq_some_iff.mp hread
    obtain ⟨position, hposition, hread⟩ := Option.bind_eq_some_iff.mp hread
    cases hread
    exact h.of_fieldOr? (P := PositionFits) hposition nofun positionFits_of_asOption?
  · next source target rest =>
    have hrest : (Json.array rest).IntegersFit := fun value hvalue => by
      obtain ⟨item, hitem, hmem⟩ := Json.mem_leaves_array.mp hvalue
      exact h.item (.tail _ (.tail _ hitem)) value hmem
    obtain ⟨_, -, hread⟩ := Option.bind_eq_some_iff.mp hread
    obtain ⟨_, -, hread⟩ := Option.bind_eq_some_iff.mp hread
    obtain ⟨⟨promise, later⟩, hpromise, hread⟩ := Option.bind_eq_some_iff.mp hread
    have hlater := (hrest.of_nextOr? (P := fun _ => True) hpromise trivial
      fun _ _ => trivial).2
    obtain ⟨⟨position, left⟩, hposition, hread⟩ := Option.bind_eq_some_iff.mp hread
    have hfits := (hlater.of_nextOr? (P := PositionFits) hposition nofun
      positionFits_of_asOption?).1
    simp only at hread
    split at hread
    · cases hread
      exact hfits
    · cases hread
  · cases hread

end MappingEntry

/-! ## Mappings -/

namespace MappingFile

/-- Whether the positions of all entries fit 64 bits. -/
structure Fits (file : MappingFile) : Prop where
  functions : ∀ entry ∈ file.functions, entry.Fits
  interfaces : ∀ entry ∈ file.interfaces, entry.Fits
  enums : ∀ entry ∈ file.enums, entry.Fits

theorem mapM_ofJson? (entries : List MappingEntry) :
    (entries.map MappingEntry.toJson).mapM MappingEntry.ofJson? = some entries := by
  induction entries with
  | nil => rfl
  | cons entry rest ih => simp [List.mapM_cons, MappingEntry.ofJson?_toJson, ih]

theorem ofJson?_toJson (file : MappingFile) : ofJson? file.toJson = some file := by
  have hlist : ∀ entries : List MappingEntry, Json.asList? MappingEntry.ofJson?
      (.array (entries.map MappingEntry.toJson)) = some entries := mapM_ofJson?
  simp [ofJson?, toJson, Json.fieldOr?, Json.field?, hlist]

theorem rereadItems_toJson {entries : List MappingEntry} (h : ∀ entry ∈ entries, entry.Fits) :
    Json.rereadItems (entries.map MappingEntry.toJson) = entries.map MappingEntry.toJson := by
  rw [Json.rereadItems_eq_map, List.map_map]
  exact List.map_congr_left fun entry hentry => MappingEntry.reread_toJson (h entry hentry)

theorem reread_toJson {file : MappingFile} (h : file.Fits) : file.toJson.reread = file.toJson := by
  simp only [toJson, Json.reread, Json.rereadEntries, rereadItems_toJson h.functions,
    rereadItems_toJson h.interfaces, rereadItems_toJson h.enums]

/-- A mapping that has been written is read as the same mapping. -/
theorem read?_written {file : MappingFile} (h : file.Fits) : read? file.written = some file := by
  have hspaced : Json.oneLine.IsSpaced := ⟨fun _ _ => nofun, fun _ => nofun⟩
  have hnone : ∀ c ∈ ([] : List Char), Json.isSpace c = true := nofun
  have hread : Json.read? file.written = some file.toJson.reread := by
    have hwritten := Json.read?_write hspaced file.toJson 0 hnone
    rwa [List.append_nil] at hwritten
  rw [read?, hread, reread_toJson h]
  exact ofJson?_toJson file

/-- The positions of a mapping fit when it is read of a value whose whole numbers do. -/
theorem fits_of_ofJson? {json : Json} {file : MappingFile} (h : json.IntegersFit)
    (hread : ofJson? json = some file) : file.Fits := by
  have hlist : ∀ {json entries}, json.IntegersFit →
      Json.asList? MappingEntry.ofJson? json = some entries →
      ∀ entry ∈ entries, MappingEntry.Fits entry :=
    fun hjson hentries => hjson.of_asList? hentries MappingEntry.fits_of_ofJson?
  cases json with
  | object entries =>
    obtain ⟨functions, hfunctions, hread⟩ := Option.bind_eq_some_iff.mp hread
    obtain ⟨interfaces, hinterfaces, hread⟩ := Option.bind_eq_some_iff.mp hread
    obtain ⟨enums, henums, hread⟩ := Option.bind_eq_some_iff.mp hread
    cases hread
    exact ⟨h.of_fieldOr? hfunctions nofun hlist, h.of_fieldOr? hinterfaces nofun hlist,
      h.of_fieldOr? henums nofun hlist⟩
  | array items =>
    obtain ⟨⟨functions, rest⟩, hfunctions, hread⟩ := Option.bind_eq_some_iff.mp hread
    obtain ⟨⟨interfaces, later⟩, hinterfaces, hread⟩ := Option.bind_eq_some_iff.mp hread
    obtain ⟨⟨enums, left⟩, henums, hread⟩ := Option.bind_eq_some_iff.mp hread
    obtain ⟨hfunctions, hrest⟩ := h.of_nextOr? hfunctions nofun hlist
    obtain ⟨hinterfaces, hlater⟩ := hrest.of_nextOr? hinterfaces nofun hlist
    obtain ⟨henums, -⟩ := hlater.of_nextOr? henums nofun hlist
    simp only at hread
    split at hread
    · cases hread
      exact ⟨hfunctions, hinterfaces, henums⟩
    · cases hread
  | _ => cases hread

/-- The positions of a mapping that has been read fit 64 bits. -/
theorem fits_of_read? {text : String} {file : MappingFile} (h : read? text = some file) :
    file.Fits := by
  obtain ⟨json, hjson, hread⟩ := Option.bind_eq_some_iff.mp h
  exact fits_of_ofJson? (Json.integersFit_of_read? hjson) hread

/-- Reading takes back what has been written: a mapping whose positions fit 64 bits is read as
itself, and a text that is read as a mapping is loaded as the same table as the text that the
mapping is written as, or not loaded for the same fault. -/
theorem reads_written :
    (∀ file : MappingFile, file.Fits → read? file.written = some file) ∧
      ∀ (text : String) (file : MappingFile), read? text = some file →
        read? file.written = some file ∧
          MappingTable.read file.written = MappingTable.read text := by
  refine ⟨fun file hfits => read?_written hfits, fun text file htext => ?_⟩
  have hwritten := read?_written (fits_of_read? htext)
  exact ⟨hwritten, by rw [MappingTable.read, MappingTable.read, hwritten, htext]⟩

/-- One entry with a position, in a text that gives its records as lists. -/
theorem reads_written_listed :
    let file : MappingFile := ⟨[⟨"sdk.v2.call", "sdk.call", true, some 1⟩], [], []⟩
    let listed := "[ [[\"sdk.v2.call\", \"sdk.call\", true, 1]] ]"
    file.Fits ∧ read? listed = some file ∧ read? file.written = some file ∧
      MappingTable.read file.written = MappingTable.read listed := by
  have hlisted : read? "[ [[\"sdk.v2.call\", \"sdk.call\", true, 1]] ]" =
      some ⟨[⟨"sdk.v2.call", "sdk.call", true, some 1⟩], [], []⟩ := by decide +kernel
  have hfits := fits_of_read? hlisted
  exact ⟨hfits, hlisted, reads_written.1 _ hfits, (reads_written.2 _ _ hlisted).2⟩

end MappingFile

end SdkMigration
