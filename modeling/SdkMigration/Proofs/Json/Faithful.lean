import SdkMigration.Proofs.Json.Rereading
import SdkMigration.Proofs.Json.Settling
import SdkMigration.Proofs.Json.Spelling

/-!
# Values that are read back unchanged

A whole number that the reader has given out is read back as itself once it is written
(`Json.readNumber_integerText`), and so is a settled value all of whose doubles are
(`Json.reread_settled`).
-/

namespace SdkMigration.Json

/-! ## Whole numbers -/

/-- The whole numbers that fit 64 bits, with a sign or without. -/
def FitsWord (value : Int) : Prop :=
  -Int.ofNat (Nat.pow 2 63) ≤ value ∧ value < Int.ofNat wordBound

theorem digit?_digitChar {n : Nat} (h : n < 10) : digit? n.digitChar = some n := by
  have hall : ∀ n : Fin 10, digit? n.val.digitChar = some n.val := by decide
  exact hall ⟨n, h⟩

theorem digitsValue_append (digits : List Nat) (last : Nat) :
    digitsValue (digits ++ [last]) = digitsValue digits * 10 + last := by
  rw [digitsValue, List.foldl_append]
  rfl

/-- The digits of a number have its value. -/
theorem digitsValue_digitsOf (n : Nat) : digitsValue ((digitsOf n).filterMap digit?) = n := by
  induction n using Nat.strongRecOn with
  | ind n ih =>
    unfold digitsOf at ih ⊢
    by_cases hsmall : n < 10
    · rw [Nat.toDigits_of_lt_base hsmall, List.filterMap_cons_some (digit?_digitChar hsmall)]
      simp [digitsValue]
    · have hlarge : 10 ≤ n := Nat.not_lt.mp hsmall
      have hlast : n % 10 < 10 := Nat.mod_lt n (by omega)
      rw [Nat.toDigits_of_base_le (by omega) hlarge, List.filterMap_append,
        List.filterMap_cons_some (digit?_digitChar hlast), List.filterMap_nil,
        digitsValue_append, ih (n / 10) (by omega)]
      omega

theorem spanUnsigned?_digitsOf (negative : Bool) (n : Nat) :
    spanUnsigned? negative (digitsOf n) =
      some (⟨negative, (digitsOf n).filterMap digit?, none, none⟩, []) := by
  have hdigits := isDigits_digitsOf n
  have hspan : spanDigits (digitsOf n ++ []) = ((digitsOf n).filterMap digit?, []) :=
    spanDigits_append hdigits.digits nofun
  rw [List.append_nil] at hspan
  unfold spanUnsigned?
  rw [hspan]
  rcases hdigits.whole digitsOf_plain with hwhole | ⟨d, others, hwhole⟩
  · rw [hwhole]
    rfl
  · rw [hwhole]
    rfl

theorem spanNumeral?_digitsOf (n : Nat) :
    spanNumeral? (digitsOf n) = some (⟨false, (digitsOf n).filterMap digit?, none, none⟩, []) := by
  rw [← spanUnsigned?_digitsOf]
  obtain ⟨c, rest, hchars, d, hd⟩ := (isDigits_digitsOf n).head
  rw [hchars]
  unfold spanNumeral?
  split
  · next heq =>
    obtain ⟨rfl, -⟩ := List.cons.inj heq
    cases hd
  · rfl

/-- A whole number that fits is read back as itself. -/
theorem readNumber_integerText {value : Int} (h : FitsWord value) :
    readNumber (integerText value) = .integer value := by
  cases value with
  | ofNat n =>
    have hfits : n < wordBound := by
      have hbelow := h.2
      simp only [Int.ofNat_eq_natCast] at hbelow
      omega
    simp only [readNumber, integerText, spanNumeral?_digitsOf, Numeral.number,
      digitsValue_digitsOf, if_pos hfits, Bool.false_eq_true, if_false]
  | negSucc n =>
    have hfits : 0 < n + 1 ∧ n + 1 ≤ Nat.pow 2 63 := by
      have habove := h.1
      simp only [Nat.pow_eq, Int.ofNat_eq_natCast] at habove ⊢
      omega
    have hspan : spanNumeral? ('-' :: digitsOf (n + 1)) = spanUnsigned? true (digitsOf (n + 1)) :=
      rfl
    simp only [readNumber, integerText, hspan, spanUnsigned?_digitsOf, Numeral.number,
      digitsValue_digitsOf, if_pos hfits, if_true]
    rfl

theorem Numeral.double_ne_integer (numeral : Numeral) (value : Int) :
    numeral.double ≠ .integer value := by
  unfold Numeral.double
  simp only
  split
  · exact Json.noConfusion
  · exact Json.noConfusion

/-- A numeral stands for no whole number but one that fits. -/
theorem Numeral.fitsWord {numeral : Numeral} {value : Int} (h : numeral.number = .integer value) :
    FitsWord value := by
  unfold Numeral.number at h
  split at h
  · simp only at h
    split at h
    · split at h
      · next hfits =>
        cases h
        simp only [Nat.pow_eq] at hfits
        simp only [FitsWord, wordBound, Nat.pow_eq, Int.ofNat_eq_natCast]
        omega
      · exact absurd h (Numeral.double_ne_integer _ _)
    · split at h
      · next hfits =>
        cases h
        simp only [wordBound, Nat.pow_eq] at hfits
        simp only [FitsWord, wordBound, Nat.pow_eq, Int.ofNat_eq_natCast]
        omega
      · exact absurd h (Numeral.double_ne_integer _ _)
  · exact absurd h (Numeral.double_ne_integer _ _)

/-! ## The parts of a value that hold no others -/

mutual

/-- The parts of a value that hold no others. -/
def leaves : Json → List Json
  | .array items => leavesOfItems items
  | .object entries => leavesOfEntries entries
  | leaf => [leaf]

/-- The parts of items that hold no others. -/
def leavesOfItems : List Json → List Json
  | [] => []
  | item :: rest => item.leaves ++ leavesOfItems rest

/-- The parts of the values of entries that hold no others. -/
def leavesOfEntries : List (String × Json) → List Json
  | [] => []
  | (_, value) :: rest => value.leaves ++ leavesOfEntries rest

end

theorem mem_leaves_array {leaf : Json} {items : List Json} :
    leaf ∈ (Json.array items).leaves ↔ ∃ item ∈ items, leaf ∈ item.leaves := by
  rw [leaves]
  induction items with
  | nil => simp [leavesOfItems]
  | cons item rest ih => simp [leavesOfItems, ih]

theorem mem_leaves_object {leaf : Json} {entries : List (String × Json)} :
    leaf ∈ (Json.object entries).leaves ↔ ∃ entry ∈ entries, leaf ∈ entry.2.leaves := by
  rw [leaves]
  induction entries with
  | nil => simp [leavesOfEntries]
  | cons entry rest ih => simp [leavesOfEntries, ih]

/-- The double that a value is. -/
def double? : Json → Option Double
  | .double value => some value
  | _ => none

theorem double?_eq_some {json : Json} {value : Double} :
    json.double? = some value ↔ json = .double value := by
  cases json <;> simp [double?]

/-- The doubles in a value. -/
def doubles (json : Json) : List Double := json.leaves.filterMap double?

theorem mem_doubles {json : Json} {value : Double} :
    value ∈ json.doubles ↔ .double value ∈ json.leaves := by
  simp [doubles, double?_eq_some]

/-- Settling a value brings in no new parts. -/
theorem mem_leaves_of_settled {depth : Nat} {json found leaf : Json}
    (h : json.settled depth = some found) (hleaf : leaf ∈ found.leaves) : leaf ∈ json.leaves := by
  induction depth using Nat.strongRecOn generalizing json found with
  | ind depth ih =>
    cases json with
    | object values =>
      obtain ⟨below, entries, rfl, rfl, -, hentries⟩ := settled_object h
      obtain ⟨entry, hentry, hmem⟩ := mem_leaves_object.mp hleaf
      obtain ⟨value, hvalue, hsettled⟩ := hentries entry hentry
      exact mem_leaves_object.mpr ⟨_, hvalue, ih below (Nat.lt_succ_self below) hsettled hmem⟩
    | array values =>
      obtain ⟨below, items, rfl, rfl, hitems⟩ := settled_array h
      obtain ⟨item, hitem, hmem⟩ := mem_leaves_array.mp hleaf
      obtain ⟨value, hvalue, hsettled⟩ := hitems item hitem
      exact mem_leaves_array.mpr ⟨_, hvalue, ih below (Nat.lt_succ_self below) hsettled hmem⟩
    | meaningless => cases h
    | null => cases h; exact hleaf
    | bool value => cases h; exact hleaf
    | integer value => cases h; exact hleaf
    | double value => cases h; exact hleaf
    | string value => cases h; exact hleaf

/-! ## What is read -/

/-- The parts of what has been found that hold no others. -/
def Found.leaves : Found → List Json
  | .value json => json.leaves
  | .items list => (Json.array list).leaves
  | .entries (some list) => (Json.object list).leaves
  | .entries none => []

theorem Numeral.leaves_double (numeral : Numeral) : numeral.double.leaves = [numeral.double] := by
  unfold Numeral.double
  simp only
  split
  · rfl
  · rfl

/-- A numeral stands for a value without parts. -/
theorem Numeral.leaves_number (numeral : Numeral) : numeral.number.leaves = [numeral.number] := by
  unfold Numeral.number
  split
  · simp only
    split
    · split
      · rfl
      · exact numeral.leaves_double
    · split
      · rfl
      · exact numeral.leaves_double
  · exact numeral.leaves_double

theorem integer_notMem_leaves_of_mem_words {word : List Char} {json : Json}
    (h : (word, json) ∈ words) (value : Int) : .integer value ∉ json.leaves := by
  simp only [words, List.mem_cons, List.not_mem_nil, or_false, Prod.mk.injEq] at h
  rcases h with ⟨-, rfl⟩ | ⟨-, rfl⟩ | ⟨-, rfl⟩ <;> simp [leaves]

/-- Every whole number that is found fits. -/
theorem Spells.fitsWord {part : Part} {chars rest : List Char} {found : Found}
    (h : Spells part chars found rest) {value : Int} (hvalue : .integer value ∈ found.leaves) :
    FitsWord value := by
  induction h with
  | space _ _ ih => exact ih hvalue
  | @string _ _ text _ => cases text <;> simp [Found.leaves, leaves] at hvalue
  | word hknown _ => exact absurd hvalue (integer_notMem_leaves_of_mem_words hknown value)
  | @number _ _ numeral _ =>
    rw [Found.leaves, numeral.leaves_number, List.mem_singleton] at hvalue
    exact Numeral.fitsWord hvalue.symm
  | noItems _ => cases hvalue
  | array _ ih => exact ih hvalue
  | noEntries _ => cases hvalue
  | @object _ _ list _ ih =>
    cases list with
    | none => simp [Found.leaves, leaves] at hvalue
    | some list => exact ih hvalue
  | lastItem _ _ ih =>
    obtain ⟨item, hitem, hmem⟩ := mem_leaves_array.mp hvalue
    rw [List.mem_singleton.mp hitem] at hmem
    exact ih hmem
  | item _ _ _ ih ihothers =>
    obtain ⟨item, hitem, hmem⟩ := mem_leaves_array.mp hvalue
    rcases List.mem_cons.mp hitem with rfl | hothers
    · exact ih hmem
    · exact ihothers (mem_leaves_array.mpr ⟨item, hothers, hmem⟩)
  | @lastEntry _ _ _ _ _ key _ _ _ _ _ ih =>
    cases key with
    | none => cases hvalue
    | some key =>
      obtain ⟨entry, hentry, hmem⟩ := mem_leaves_object.mp hvalue
      rw [List.mem_singleton.mp hentry] at hmem
      exact ih hmem
  | @entry _ _ _ _ _ _ key _ list _ _ _ _ _ ih ihothers =>
    cases key with
    | none => cases hvalue
    | some key =>
      cases list with
      | none => cases hvalue
      | some list =>
        obtain ⟨entry, hentry, hmem⟩ := mem_leaves_object.mp hvalue
        rcases List.mem_cons.mp hentry with rfl | hothers
        · exact ih hmem
        · exact ihothers (mem_leaves_object.mpr ⟨entry, hothers, hmem⟩)

/-! ## Values that are read back unchanged -/

theorem rereadItems_eq_map (items : List Json) : rereadItems items = items.map reread := by
  induction items with
  | nil => rfl
  | cons item rest ih => rw [rereadItems, ih, List.map_cons]

/-- Whether all numbers in a value are read back as themselves. -/
structure NumbersReadBack (json : Json) : Prop where
  integers : ∀ value, .integer value ∈ json.leaves → FitsWord value
  doubles : ∀ value ∈ json.doubles, readNumber (doubleText value) = .double value

theorem NumbersReadBack.of_leaves {json part : Json} (h : json.NumbersReadBack)
    (hleaves : ∀ leaf ∈ part.leaves, leaf ∈ json.leaves) : part.NumbersReadBack where
  integers value hvalue := h.integers value (hleaves _ hvalue)
  doubles value hvalue := h.doubles value (mem_doubles.mpr (hleaves _ (mem_doubles.mp hvalue)))

/-- A settled value is read back as itself when its numbers are. -/
theorem NumbersReadBack.reread_eq {depth : Nat} {json : Json} (hnumbers : json.NumbersReadBack)
    (h : json.settled depth = some json) : json.reread = json := by
  induction depth using Nat.strongRecOn generalizing json with
  | ind depth ih =>
    cases json with
    | object entries =>
      obtain ⟨below, rfl, -, hentries⟩ := settled_object_self h
      have hvalues : ∀ entry ∈ entries, (entry.1, entry.2.reread) = entry := by
        intro entry hentry
        have hvalue := hnumbers.of_leaves fun leaf hleaf =>
          mem_leaves_object.mpr ⟨entry, hentry, hleaf⟩
        rw [ih below (Nat.lt_succ_self below) hvalue (hentries entry hentry)]
      rw [reread, rereadEntries_eq_map, List.map_congr_left hvalues, List.map_id']
    | array items =>
      obtain ⟨below, found, rfl, hfound, hitems⟩ := settled_array h
      cases hfound
      have hvalues : ∀ item ∈ items, item.reread = item := by
        intro item hitem
        obtain ⟨value, -, hvalue⟩ := hitems item hitem
        exact ih below (Nat.lt_succ_self below) (hnumbers.of_leaves fun leaf hleaf =>
          mem_leaves_array.mpr ⟨item, hitem, hleaf⟩) (settled_settled hvalue)
      rw [reread, rereadItems_eq_map, List.map_congr_left hvalues, List.map_id']
    | meaningless => cases h
    | null => rfl
    | bool value => rfl
    | string value => rfl
    | integer value => exact readNumber_integerText (hnumbers.integers value (.head _))
    | double value => exact hnumbers.doubles value (mem_doubles.mpr (.head _))

/-- The whole numbers in a value that has been read are read back. -/
theorem numbersReadBack_of_readSettled? {text : String} {json : Json}
    (h : readSettled? text = some json) (hdoubles : ∀ value ∈ json.doubles,
      readNumber (doubleText value) = .double value) : json.NumbersReadBack where
  integers value hvalue := by
    obtain ⟨given, hread, hsettled⟩ := Option.bind_eq_some_iff.mp h
    obtain ⟨rest, hspells, -⟩ := spells_of_read? hread
    exact hspells.fitsWord (mem_leaves_of_settled hsettled hvalue)
  doubles := hdoubles

/-- A text as which a settled value has been written is read as that value. -/
theorem readSettled?_write {layout : Layout} (hlayout : layout.IsSpaced) {json : Json}
    (h : json.settled maxDepth = some json) (hnumbers : json.NumbersReadBack) (level : Nat)
    {spaces : List Char} (hspaces : ∀ c ∈ spaces, isSpace c = true) :
    readSettled? (String.ofList (json.write layout level ++ spaces)) = some json := by
  rw [readSettled?, read?_write hlayout json level hspaces, hnumbers.reread_eq h]
  exact h

end SdkMigration.Json
