import SdkMigration.Proofs.Json.Numerals
import SdkMigration.Proofs.Json.Strings

/-!
# Values that are written are read back

A reader takes from a text that a value has been written as exactly that value, whatever
stands behind it that cannot go on with a numeral (`Json.read?_write`).  What is read may
differ from what was written in its numbers, which are read as the numeral says, and in what
stands for nothing, which is written as `null`; `Json.reread` says what it is.
-/

namespace SdkMigration.Json

/-! ## What is read -/

/-- The number that is read of a text. -/
def readNumber (text : List Char) : Json :=
  match spanNumeral? text with
  | some (numeral, _) => numeral.number
  | none => .null

mutual

/-- What is read of a value that has been written. -/
def reread : Json → Json
  | .null | .meaningless => .null
  | .bool value => .bool value
  | .integer value => readNumber (integerText value)
  | .double value => readNumber (doubleText value)
  | .string value => .string value
  | .array items => .array (rereadItems items)
  | .object entries => .object (rereadEntries entries)

/-- What is read of items that have been written. -/
def rereadItems : List Json → List Json
  | [] => []
  | item :: rest => item.reread :: rereadItems rest

/-- What is read of entries that have been written. -/
def rereadEntries : List (String × Json) → List (String × Json)
  | [] => []
  | (key, value) :: rest => (key, value.reread) :: rereadEntries rest

end

theorem rereadEntries_eq_map (entries : List (String × Json)) :
    rereadEntries entries = entries.map fun (key, value) => (key, value.reread) := by
  induction entries with
  | nil => rfl
  | cons entry rest ih => rw [rereadEntries, ih, List.map_cons]

/-! ## Spaces -/

/-- Whether a layout sets parts apart by nothing but spaces. -/
structure Layout.IsSpaced (layout : Layout) : Prop where
  lineBreak : ∀ level, ∀ c ∈ layout.lineBreak level, isSpace c = true
  afterColon : ∀ c ∈ layout.afterColon, isSpace c = true

theorem skipSpaces_append {spaces : List Char} (h : ∀ c ∈ spaces, isSpace c = true)
    (rest : List Char) : skipSpaces (spaces ++ rest) = skipSpaces rest := by
  unfold skipSpaces
  rw [List.dropWhile_append_of_pos h]

theorem skipSpaces_cons {c : Char} (h : isSpace c = false) (rest : List Char) :
    skipSpaces (c :: rest) = c :: rest := by
  unfold skipSpaces
  rw [List.dropWhile_cons_of_neg (by rw [h]; exact Bool.false_ne_true)]

theorem skipSpaces_append_cons {spaces : List Char} (h : ∀ c ∈ spaces, isSpace c = true)
    {c : Char} (hc : isSpace c = false) (rest : List Char) :
    skipSpaces (spaces ++ c :: rest) = c :: rest := by
  rw [skipSpaces_append h, skipSpaces_cons hc]

/-- A part is read alike whatever spaces stand before it. -/
theorem spanPart?_congr {a b : List Char} (h : skipSpaces a = skipSpaces b) (part : Part)
    (fuel : Nat) : spanPart? part a fuel = spanPart? part b fuel := by
  cases fuel with
  | zero => rfl
  | succ fuel =>
    unfold spanPart?
    rw [h]

theorem spanPart?_spaces {spaces : List Char} (h : ∀ c ∈ spaces, isSpace c = true) (part : Part)
    (rest : List Char) (fuel : Nat) :
    spanPart? part (spaces ++ rest) fuel = spanPart? part rest fuel :=
  spanPart?_congr (skipSpaces_append h rest) part fuel

theorem ends_of_isSpace {c : Char} (h : isSpace c = true) :
    digit? c = none ∧ c ≠ '.' ∧ c ≠ 'e' ∧ c ≠ 'E' := by
  simp only [isSpace, Bool.or_eq_true, beq_iff_eq] at h
  rcases h with ((rfl | rfl) | rfl) | rfl <;> decide

/-- A numeral goes on neither with spaces nor with what may stand behind them. -/
theorem endsNumeral_spaces {spaces rest : List Char} (h : ∀ c ∈ spaces, isSpace c = true)
    (hrest : EndsNumeral rest) : EndsNumeral (spaces ++ rest) := by
  cases spaces with
  | nil => exact hrest
  | cons space spaces =>
    rintro c ⟨⟩
    exact ends_of_isSpace (h space (.head spaces))

/-- A numeral does not go on with what separates or closes parts. -/
theorem endsNumeral_cons {c : Char} (h : c ∈ [',', ']', '\x7d']) (rest : List Char) :
    EndsNumeral (c :: rest) := by
  rintro other ⟨⟩
  simp only [List.mem_cons, List.not_mem_nil, or_false] at h
  rcases h with rfl | rfl | rfl <;> decide

/-! ## Where values start -/

/-- The characters that a numeral starts with. -/
def StartsNumeral (c : Char) : Prop := c = '-' ∨ ∃ d, digit? c = some d

theorem StartsNumeral.ne {c other : Char} (h : StartsNumeral c) (hsign : other ≠ '-')
    (hdigit : digit? other = none) : c ≠ other := by
  rintro rfl
  rcases h with hminus | ⟨d, hd⟩
  · exact hsign hminus
  · rw [hd] at hdigit
    cases hdigit

theorem StartsNumeral.notSpace {c : Char} (h : StartsNumeral c) : isSpace c = false := by
  rw [Bool.eq_false_iff]
  intro hspace
  simp only [isSpace, Bool.or_eq_true, beq_iff_eq] at hspace
  rcases hspace with ((rfl | rfl) | rfl) | rfl
  all_goals exact h.ne (by decide) (by decide) rfl

theorem IsNumeral.head {chars : List Char} (h : IsNumeral chars) :
    ∃ c rest, chars = c :: rest ∧ StartsNumeral c := by
  cases h with
  | positive hunsigned =>
    obtain ⟨c, rest, rfl, hc⟩ := hunsigned.head
    exact ⟨c, rest, rfl, Or.inr hc⟩
  | negative _ => exact ⟨'-', _, rfl, Or.inl rfl⟩

/-- A value is written with a character in front that is no space and closes nothing. -/
theorem write_head (layout : Layout) (level : Nat) (json : Json) :
    ∃ c rest, json.write layout level = c :: rest ∧ isSpace c = false ∧ c ≠ ']' := by
  have hnumeral : ∀ {text : List Char}, IsNumeral text →
      ∃ c rest, text = c :: rest ∧ isSpace c = false ∧ c ≠ ']' := by
    intro text h
    obtain ⟨c, rest, rfl, hc⟩ := h.head
    exact ⟨c, rest, rfl, hc.notSpace, hc.ne (by decide) (by decide)⟩
  cases json with
  | null => exact ⟨'n', _, rfl, by decide⟩
  | meaningless => exact ⟨'n', _, rfl, by decide⟩
  | bool value =>
    cases value with
    | true => exact ⟨'t', _, rfl, by decide⟩
    | false => exact ⟨'f', _, rfl, by decide⟩
  | integer value => exact hnumeral (isNumeral_integerText value)
  | double value => exact hnumeral (isNumeral_doubleText value)
  | string value => exact ⟨'"', _, rfl, by decide⟩
  | array items =>
    cases items with
    | nil => exact ⟨'[', _, rfl, by decide⟩
    | cons first rest => exact ⟨'[', _, rfl, by decide⟩
  | object entries =>
    cases entries with
    | nil => exact ⟨'\x7b', _, rfl, by decide⟩
    | cons entry rest => exact ⟨'\x7b', _, rfl, by decide⟩

/-! ## Reading what is written -/

/-- A numeral is read as a number. -/
theorem spanPart?_number {text rest : List Char} (h : IsNumeral text) (hrest : EndsNumeral rest)
    (fuel : Nat) :
    spanPart? .value (text ++ rest) (fuel + 1) = some (.value (readNumber text), rest) := by
  obtain ⟨numeral, hread⟩ := h.spanNumeral?
  have halone : readNumber text = numeral.number := by
    have := hread [] (by rintro c ⟨⟩)
    rw [List.append_nil] at this
    rw [readNumber, this]
  have hspan := hread rest hrest
  obtain ⟨c, others, rfl, hc⟩ := h.head
  rw [List.cons_append] at hspan ⊢
  unfold spanPart?
  simp only [skipSpaces_cons hc.notSpace]
  split
  · next heq => exact absurd (List.cons.inj heq).1 (hc.ne (by decide) (by decide))
  · next heq => exact absurd (List.cons.inj heq).1 (hc.ne (by decide) (by decide))
  · next heq => exact absurd (List.cons.inj heq).1 (hc.ne (by decide) (by decide))
  · next heq => exact absurd (List.cons.inj heq).1 (hc.ne (by decide) (by decide))
  · next heq => exact absurd (List.cons.inj heq).1 (hc.ne (by decide) (by decide))
  · next heq => exact absurd (List.cons.inj heq).1 (hc.ne (by decide) (by decide))
  · rw [hspan, halone]

/-- Whether all that is written is read back with a given fuel, if that is enough for it. -/
structure Rereads (layout : Layout) (fuel : Nat) : Prop where
  value : ∀ (json : Json) (level : Nat) (rest : List Char), EndsNumeral rest →
    2 * (json.write layout level).length ≤ fuel →
    spanPart? .value (json.write layout level ++ rest) fuel = some (.value json.reread, rest)
  items : ∀ (first : Json) (others : List Json) (level : Nat) (spaces rest : List Char),
    (∀ c ∈ spaces, isSpace c = true) →
    2 * (first.write layout level ++ writeItems layout level others).length + 1 ≤ fuel →
    spanPart? .items (first.write layout level ++
        (writeItems layout level others ++ (spaces ++ ']' :: rest))) fuel =
      some (.items (first.reread :: rereadItems others), rest)
  entries : ∀ (key : String) (value : Json) (others : List (String × Json)) (level : Nat)
    (spaces rest : List Char), (∀ c ∈ spaces, isSpace c = true) →
    2 * (value.write layout level ++ writeEntries layout level others).length + 1 ≤ fuel →
    spanPart? .entries (quotedString key ++ ':' :: (layout.afterColon ++
        (value.write layout level ++
          (writeEntries layout level others ++ (spaces ++ '\x7d' :: rest))))) fuel =
      some (.entries (some ((key, value.reread) :: rereadEntries others)), rest)

namespace Rereads

variable {layout : Layout} {fuel : Nat}

theorem quotedString_append (s : String) (rest : List Char) :
    quotedString s ++ rest = '"' :: (s.toList.flatMap escapedChar ++ '"' :: rest) := by
  simp [quotedString]

theorem string_succ (value : String) (rest : List Char) (fuel : Nat) :
    spanPart? .value (quotedString value ++ rest) (fuel + 1) =
      some (.value (.string value), rest) := by
  rw [quotedString_append]
  unfold spanPart?
  simp only [skipSpaces_cons (show isSpace '"' = false by decide), spanString?_quotedString]

theorem array_succ (hlayout : layout.IsSpaced) (h : Rereads layout fuel) (first : Json)
    (others : List Json) (level : Nat) (rest : List Char)
    (hfuel : 2 * ((Json.array (first :: others)).write layout level).length ≤ fuel + 1) :
    spanPart? .value ((Json.array (first :: others)).write layout level ++ rest) (fuel + 1) =
      some (.value (.array (first.reread :: rereadItems others)), rest) := by
  have htext : (Json.array (first :: others)).write layout level ++ rest =
      '[' :: (layout.lineBreak (level + 1) ++ (first.write layout (level + 1) ++
        (writeItems layout (level + 1) others ++ (layout.lineBreak level ++ ']' :: rest)))) := by
    simp [write]
  have hitems := h.items first others (level + 1) (layout.lineBreak level) rest
    (hlayout.lineBreak level) (by simp [write] at hfuel ⊢; omega)
  obtain ⟨c, written, hwritten, hspace, hclose⟩ := write_head layout (level + 1) first
  rw [htext]
  rw [hwritten, List.cons_append] at hitems ⊢
  unfold spanPart?
  simp only [skipSpaces_cons (show isSpace '[' = false by decide),
    skipSpaces_append_cons (hlayout.lineBreak (level + 1)) hspace]
  split
  · next heq => exact absurd (List.cons.inj heq).1 hclose
  · rw [hitems]

theorem object_succ (hlayout : layout.IsSpaced) (h : Rereads layout fuel) (key : String)
    (value : Json) (others : List (String × Json)) (level : Nat) (rest : List Char)
    (hfuel : 2 * ((Json.object ((key, value) :: others)).write layout level).length ≤ fuel + 1) :
    spanPart? .value ((Json.object ((key, value) :: others)).write layout level ++ rest)
        (fuel + 1) =
      some (.value (.object ((key, value.reread) :: rereadEntries others)), rest) := by
  have htext : (Json.object ((key, value) :: others)).write layout level ++ rest =
      '\x7b' :: (layout.lineBreak (level + 1) ++ (quotedString key ++ ':' :: (layout.afterColon ++
        (value.write layout (level + 1) ++ (writeEntries layout (level + 1) others ++
          (layout.lineBreak level ++ '\x7d' :: rest)))))) := by
    simp [write]
  have hentries := h.entries key value others (level + 1) (layout.lineBreak level) rest
    (hlayout.lineBreak level) (by simp [write] at hfuel ⊢; omega)
  rw [htext]
  rw [quotedString_append] at hentries ⊢
  unfold spanPart?
  simp only [skipSpaces_cons (show isSpace '\x7b' = false by decide),
    skipSpaces_append_cons (hlayout.lineBreak (level + 1)) (show isSpace '"' = false by decide)]
  split
  · next heq => exact absurd (List.cons.inj heq).1 (by decide)
  · rw [hentries]

/-- A value is read back when all that it is made of is, with one step less. -/
theorem value_succ (hlayout : layout.IsSpaced) (h : Rereads layout fuel) (json : Json)
    (level : Nat) (rest : List Char) (hrest : EndsNumeral rest)
    (hfuel : 2 * (json.write layout level).length ≤ fuel + 1) :
    spanPart? .value (json.write layout level ++ rest) (fuel + 1) =
      some (.value json.reread, rest) := by
  cases json with
  | null => rfl
  | meaningless => rfl
  | bool value =>
    cases value with
    | true => rfl
    | false => rfl
  | integer value => exact spanPart?_number (isNumeral_integerText value) hrest fuel
  | double value => exact spanPart?_number (isNumeral_doubleText value) hrest fuel
  | string value => exact string_succ value rest fuel
  | array items =>
    cases items with
    | nil => rfl
    | cons first others => exact array_succ hlayout h first others level rest hfuel
  | object entries =>
    cases entries with
    | nil => rfl
    | cons entry others => exact object_succ hlayout h entry.1 entry.2 others level rest hfuel

theorem items_succ (hlayout : layout.IsSpaced) (h : Rereads layout fuel) (first : Json)
    (others : List Json) (level : Nat) (spaces rest : List Char)
    (hspaces : ∀ c ∈ spaces, isSpace c = true)
    (hfuel : 2 * (first.write layout level ++ writeItems layout level others).length + 1 ≤
      fuel + 1) :
    spanPart? .items (first.write layout level ++
        (writeItems layout level others ++ (spaces ++ ']' :: rest))) (fuel + 1) =
      some (.items (first.reread :: rereadItems others), rest) := by
  have hends : EndsNumeral (writeItems layout level others ++ (spaces ++ ']' :: rest)) := by
    cases others with
    | nil => simpa [writeItems] using endsNumeral_spaces hspaces (endsNumeral_cons (by decide) rest)
    | cons item others => exact endsNumeral_cons (by decide) _
  have hfirst := h.value first level _ hends (by simp at hfuel; omega)
  obtain ⟨c, written, hwritten, hspace, -⟩ := write_head layout level first
  have hskip : ∀ tail, skipSpaces (first.write layout level ++ tail) =
      first.write layout level ++ tail := by
    intro tail
    rw [hwritten, List.cons_append, skipSpaces_cons hspace]
  unfold spanPart?
  simp only [hskip, hfirst]
  cases others with
  | nil =>
    have hclose := skipSpaces_append_cons hspaces (show isSpace ']' = false by decide) rest
    simp only [writeItems, List.nil_append, hclose, rereadItems]
  | cons item others =>
    have htail : writeItems layout level (item :: others) ++ (spaces ++ ']' :: rest) =
        ',' :: (layout.lineBreak level ++ (item.write layout level ++
          (writeItems layout level others ++ (spaces ++ ']' :: rest)))) := by
      simp [writeItems]
    have hothers := h.items item others level spaces rest hspaces
      (by simp [writeItems] at hfuel ⊢; omega)
    simp only [htail, skipSpaces_cons (show isSpace ',' = false by decide),
      spanPart?_spaces (hlayout.lineBreak level), hothers, rereadItems]

theorem entries_succ (hlayout : layout.IsSpaced) (h : Rereads layout fuel) (key : String)
    (value : Json) (others : List (String × Json)) (level : Nat) (spaces rest : List Char)
    (hspaces : ∀ c ∈ spaces, isSpace c = true)
    (hfuel : 2 * (value.write layout level ++ writeEntries layout level others).length + 1 ≤
      fuel + 1) :
    spanPart? .entries (quotedString key ++ ':' :: (layout.afterColon ++
        (value.write layout level ++
          (writeEntries layout level others ++ (spaces ++ '\x7d' :: rest))))) (fuel + 1) =
      some (.entries (some ((key, value.reread) :: rereadEntries others)), rest) := by
  have hends : EndsNumeral (writeEntries layout level others ++ (spaces ++ '\x7d' :: rest)) := by
    cases others with
    | nil =>
      simpa [writeEntries] using endsNumeral_spaces hspaces (endsNumeral_cons (by decide) rest)
    | cons entry others => exact endsNumeral_cons (by decide) _
  have hvalue := h.value value level _ hends (by simp at hfuel; omega)
  rw [quotedString_append]
  unfold spanPart?
  simp only [skipSpaces_cons (show isSpace '"' = false by decide), spanString?_quotedString,
    skipSpaces_cons (show isSpace ':' = false by decide), spanPart?_spaces hlayout.afterColon,
    hvalue]
  cases others with
  | nil =>
    have hclose := skipSpaces_append_cons hspaces (show isSpace '\x7d' = false by decide) rest
    simp only [writeEntries, List.nil_append, hclose, rereadEntries]
    rfl
  | cons entry others =>
    obtain ⟨next, item⟩ := entry
    have htail : writeEntries layout level ((next, item) :: others) ++ (spaces ++ '\x7d' :: rest) =
        ',' :: (layout.lineBreak level ++ (quotedString next ++ ':' :: (layout.afterColon ++
          (item.write layout level ++
            (writeEntries layout level others ++ (spaces ++ '\x7d' :: rest)))))) := by
      simp [writeEntries]
    have hothers := h.entries next item others level spaces rest hspaces
      (by simp [writeEntries] at hfuel ⊢; omega)
    simp only [htail, skipSpaces_cons (show isSpace ',' = false by decide),
      spanPart?_spaces (hlayout.lineBreak level), hothers, rereadEntries]
    rfl

end Rereads

/-- With any fuel that is enough for it, all that is written is read back. -/
theorem rereads {layout : Layout} (hlayout : layout.IsSpaced) (fuel : Nat) :
    Rereads layout fuel := by
  induction fuel with
  | zero =>
    refine ⟨fun json level rest _ hfuel => ?_, fun _ _ _ _ _ _ hfuel => by omega,
      fun _ _ _ _ _ _ _ hfuel => by omega⟩
    obtain ⟨c, written, hwritten, -⟩ := write_head layout level json
    rw [hwritten, List.length_cons] at hfuel
    omega
  | succ fuel ih => exact ⟨ih.value_succ hlayout, ih.items_succ hlayout, ih.entries_succ hlayout⟩

/-- A text that a value was written as is read as that value, whatever spaces stand behind. -/
theorem read?_write {layout : Layout} (hlayout : layout.IsSpaced) (json : Json) (level : Nat)
    {spaces : List Char} (hspaces : ∀ c ∈ spaces, isSpace c = true) :
    read? (String.ofList (json.write layout level ++ spaces)) = some json.reread := by
  have hends : EndsNumeral (spaces ++ []) := endsNumeral_spaces hspaces (by rintro c ⟨⟩)
  have hskip : skipSpaces (spaces ++ []) = [] := skipSpaces_append hspaces []
  rw [List.append_nil] at hends hskip
  have hread := (rereads hlayout (2 * (json.write layout level ++ spaces).length + 2)).value json
    level spaces hends (by simp; omega)
  unfold read?
  simp only [String.toList_ofList, hread, hskip]
  rfl

end SdkMigration.Json
