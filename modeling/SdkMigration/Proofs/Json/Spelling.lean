import SdkMigration.Json.Reader
import SdkMigration.Text.Lines

/-!
# What the format looks like

`Json.Spells` is the grammar of the format as a relation, with a constructor for every way in
which a part may be written.  Whatever the reader takes has been spelled so
(`Json.spells_of_spanPart?`); what holds of all texts of the format is proved from the grammar
by induction, and the reader is not opened again.
-/

namespace SdkMigration.Json

/-- The words of the format, with what they stand for. -/
def words : List (List Char × Json) :=
  [(['n', 'u', 'l', 'l'], .null), (['t', 'r', 'u', 'e'], .bool true),
    (['f', 'a', 'l', 's', 'e'], .bool false)]

/-- Whether characters start with a part, as which something is found, with the given rest behind
it. -/
inductive Spells : Part → List Char → Found → List Char → Prop
  | space {part : Part} {c : Char} {chars rest : List Char} {found : Found}
      (blank : isSpace c = true) (behind : Spells part chars found rest) :
      Spells part (c :: chars) found rest
  | string {chars rest : List Char} {value : Option String}
      (quoted : spanString? {} chars = some (value, rest)) :
      Spells .value ('"' :: chars) (.value (value.elim .meaningless .string)) rest
  | word {word : List Char} {json : Json} (known : (word, json) ∈ words) (rest : List Char) :
      Spells .value (word ++ rest) (.value json) rest
  | number {chars rest : List Char} {numeral : Numeral}
      (digits : spanNumeral? chars = some (numeral, rest)) :
      Spells .value chars (.value numeral.number) rest
  | noItems {chars rest : List Char} (close : skipSpaces chars = ']' :: rest) :
      Spells .value ('[' :: chars) (.value (.array [])) rest
  | array {chars rest : List Char} {list : List Json}
      (items : Spells .items chars (.items list) rest) :
      Spells .value ('[' :: chars) (.value (.array list)) rest
  | noEntries {chars rest : List Char} (close : skipSpaces chars = '\x7d' :: rest) :
      Spells .value ('\x7b' :: chars) (.value (.object [])) rest
  | object {chars rest : List Char} {list : Option (List (String × Json))}
      (entries : Spells .entries chars (.entries list) rest) :
      Spells .value ('\x7b' :: chars) (.value (list.elim .meaningless .object)) rest
  | lastItem {chars behind rest : List Char} {item : Json}
      (value : Spells .value chars (.value item) behind)
      (close : skipSpaces behind = ']' :: rest) : Spells .items chars (.items [item]) rest
  | item {chars behind next rest : List Char} {item : Json} {list : List Json}
      (value : Spells .value chars (.value item) behind)
      (comma : skipSpaces behind = ',' :: next) (others : Spells .items next (.items list) rest) :
      Spells .items chars (.items (item :: list)) rest
  | lastEntry {chars name next behind rest : List Char} {key : Option String} {value : Json}
      (quoted : spanString? {} chars = some (key, name)) (colon : skipSpaces name = ':' :: next)
      (entry : Spells .value next (.value value) behind)
      (close : skipSpaces behind = '\x7d' :: rest) :
      Spells .entries ('"' :: chars)
        (.entries (do return [← key.map fun key => (key, value)])) rest
  | entry {chars name next behind after rest : List Char} {key : Option String} {value : Json}
      {list : Option (List (String × Json))}
      (quoted : spanString? {} chars = some (key, name)) (colon : skipSpaces name = ':' :: next)
      (entry : Spells .value next (.value value) behind) (comma : skipSpaces behind = ',' :: after)
      (others : Spells .entries after (.entries list) rest) :
      Spells .entries ('"' :: chars)
        (.entries (do return (← key.map fun key => (key, value)) :: (← list))) rest

/-! ## The reader keeps to the grammar -/

theorem Spells.skipped {part : Part} {chars rest : List Char} {found : Found}
    (h : Spells part (skipSpaces chars) found rest) : Spells part chars found rest := by
  induction chars with
  | nil => exact h
  | cons c chars ih =>
    unfold skipSpaces at h ih
    by_cases hc : isSpace c = true
    · rw [List.dropWhile_cons_of_pos hc] at h
      exact .space hc (ih h)
    · rwa [List.dropWhile_cons_of_neg hc] at h

theorem spells_of_word? {word chars rest : List Char} {json : Json} {found : Found}
    (hword : (word, json) ∈ words) (h : word? word json chars = some (found, rest)) :
    Spells .value chars found rest := by
  unfold word? at h
  split at h
  · next hprefix =>
    obtain ⟨behind, rfl⟩ := List.isPrefixOf_iff_prefix.mp hprefix
    rw [List.drop_left] at h
    cases h
    exact .word hword _
  · cases h

section Reader

variable {chars rest : List Char} {found : Found} {fuel : Nat}

/-- Whether whatever is taken with some fuel is spelled. -/
private def SpelledWithin (fuel : Nat) : Prop :=
  ∀ {part : Part} {chars rest : List Char} {found : Found},
    spanPart? part chars fuel = some (found, rest) → Spells part chars found rest

private theorem spells_of_value? (hread : SpelledWithin fuel)
    (h : spanPart? .value chars (fuel + 1) = some (found, rest)) :
    Spells .value chars found rest := by
  apply Spells.skipped
  simp only [spanPart?] at h
  split at h
  · next chars hchars =>
    rw [hchars]
    split at h <;> cases h
    · next hstring => exact .string hstring
    · next hstring => exact .string hstring
  · next chars hchars =>
    rw [hchars]
    split at h
    · next hclose =>
      cases h
      exact .noItems hclose
    · split at h <;> cases h
      next hitems => exact .array (hread hitems).skipped
  · next chars hchars =>
    rw [hchars]
    split at h
    · next hclose =>
      cases h
      exact .noEntries hclose
    · split at h <;> cases h
      · next hentries => exact .object (hread hentries).skipped
      · next hentries => exact .object (hread hentries).skipped
  · exact spells_of_word? (.head _) h
  · exact spells_of_word? (.tail _ (.head _)) h
  · exact spells_of_word? (.tail _ (.tail _ (.head _))) h
  · split at h <;> cases h
    next hnumeral => exact .number hnumeral

private theorem spells_of_items? (hread : SpelledWithin fuel)
    (h : spanPart? .items chars (fuel + 1) = some (found, rest)) :
    Spells .items chars found rest := by
  apply Spells.skipped
  simp only [spanPart?] at h
  split at h
  · next hvalue =>
    split at h
    · next hcomma =>
      split at h <;> cases h
      next hothers => exact .item (hread hvalue) hcomma (hread hothers)
    · next hclose =>
      cases h
      exact .lastItem (hread hvalue) hclose
    · cases h
  · cases h

private theorem spells_of_entries? (hread : SpelledWithin fuel)
    (h : spanPart? .entries chars (fuel + 1) = some (found, rest)) :
    Spells .entries chars found rest := by
  apply Spells.skipped
  simp only [spanPart?] at h
  split at h
  · next chars hchars =>
    rw [hchars]
    split at h
    · cases h
    · next hkey =>
      split at h
      · next hcolon =>
        split at h
        · next hvalue =>
          split at h
          · next hcomma =>
            split at h <;> cases h
            next hothers => exact .entry hkey hcolon (hread hvalue) hcomma (hread hothers)
          · next hclose =>
            cases h
            exact .lastEntry hkey hcolon (hread hvalue) hclose
          · cases h
        · cases h
      · cases h
  · cases h

/-- What the reader takes from the front of characters is spelled there. -/
theorem spells_of_spanPart? {part : Part}
    (h : spanPart? part chars fuel = some (found, rest)) : Spells part chars found rest := by
  induction fuel generalizing part chars rest found with
  | zero => cases h
  | succ fuel ih =>
    cases part with
    | value => exact spells_of_value? ih h
    | items => exact spells_of_items? ih h
    | entries => exact spells_of_entries? ih h

end Reader

/-! ## Characters that are passed over -/

/-- Whether characters of one kind stand in front of the rest. -/
def Passes (kind : Char → Prop) (chars rest : List Char) : Prop :=
  ∃ passed, chars = passed ++ rest ∧ ∀ c ∈ passed, kind c

theorem Passes.none {kind : Char → Prop} (chars : List Char) : Passes kind chars chars :=
  ⟨[], rfl, nofun⟩

theorem Passes.cons {kind : Char → Prop} {c : Char} {chars rest : List Char} (hc : kind c)
    (h : Passes kind chars rest) : Passes kind (c :: chars) rest := by
  obtain ⟨passed, rfl, hpassed⟩ := h
  refine ⟨c :: passed, rfl, fun other hother => ?_⟩
  rcases List.mem_cons.mp hother with rfl | hother
  · exact hc
  · exact hpassed other hother

theorem Passes.trans {kind : Char → Prop} {a b c : List Char} (hab : Passes kind a b)
    (hbc : Passes kind b c) : Passes kind a c := by
  obtain ⟨first, rfl, hfirst⟩ := hab
  obtain ⟨second, rfl, hsecond⟩ := hbc
  refine ⟨first ++ second, (List.append_assoc ..).symm, fun c hc => ?_⟩
  exact (List.mem_append.mp hc).elim (hfirst c) (hsecond c)

theorem simpleEscape?_lineFeed : simpleEscape? '\n' = none := by decide

theorem hexFour?_ne_lineFeed {a b c d : Char} {unit : Nat} (h : hexFour? a b c d = some unit) :
    a ≠ '\n' ∧ b ≠ '\n' ∧ c ≠ '\n' ∧ d ≠ '\n' := by
  have hlineFeed : hexDigit? '\n' = none := by decide
  refine ⟨?_, ?_, ?_, ?_⟩ <;> rintro rfl <;> simp [hexFour?, hlineFeed] at h

/-- A string has no line feed in it. -/
theorem passes_of_spanString? {quoted : Quoted} {chars rest : List Char} {value : Option String}
    (h : spanString? quoted chars = some (value, rest)) : Passes (· ≠ '\n') chars rest := by
  fun_induction spanString? quoted chars with
  | case1 => cases h
  | case2 =>
    cases h
    exact (Passes.none _).cons (by decide)
  | case3 quoted a b c d chars unit hunit ih =>
    obtain ⟨ha, hb, hc, hd⟩ := hexFour?_ne_lineFeed hunit
    refine Passes.trans ⟨['\\', 'u', a, b, c, d], rfl, ?_⟩ (ih h)
    simp [ha, hb, hc, hd]
  | case4 => cases h
  | case5 quoted e chars _ c hescape ih =>
    refine ((ih h).cons ?_).cons (by decide)
    rintro rfl
    rw [simpleEscape?_lineFeed] at hescape
    cases hescape
  | case6 => cases h
  | case7 => cases h
  | case8 quoted c chars _ _ _ hc ih =>
    refine (ih h).cons ?_
    rintro rfl
    exact hc (by decide)

/-- The characters that numerals and words are made of. -/
abbrev Visible (c : Char) : Prop := isBlank c = false

theorem visible_of_digit? {c : Char} {digit : Nat} (h : digit? c = some digit) : Visible c := by
  unfold digit? at h
  split at h
  · next hrange =>
    simp only [Visible, isBlank, Bool.or_eq_false_iff, Bool.and_eq_false_iff,
      decide_eq_false_iff_not]
    omega
  · cases h

theorem passes_of_spanDigits {chars rest : List Char} {digits : List Nat}
    (h : spanDigits chars = (digits, rest)) : Passes Visible chars rest := by
  induction chars generalizing digits with
  | nil =>
    cases h
    exact .none []
  | cons c chars ih =>
    unfold spanDigits at h
    split at h
    · next digit hdigit =>
      cases h
      exact (ih rfl).cons (visible_of_digit? hdigit)
    · cases h
      exact .none _

theorem passes_of_spanFraction? {chars rest : List Char} {fraction : Option (List Nat)}
    (h : spanFraction? chars = some (fraction, rest)) : Passes Visible chars rest := by
  unfold spanFraction? at h
  split at h
  · next after =>
    split at h
    · cases h
    · next hdigits =>
      cases h
      exact (passes_of_spanDigits hdigits).cons (by decide)
  · cases h
    exact .none _

theorem passes_of_spanExponent? {chars rest : List Char} {exponent : Bool × List Nat}
    (h : spanExponent? chars = some (exponent, rest)) : Passes Visible chars rest := by
  unfold spanExponent? at h
  split at h
  next negative after hsign =>
    have hfirst : Passes Visible chars after := by
      split at hsign
      · cases hsign
        exact (Passes.none _).cons (by decide)
      · cases hsign
        exact (Passes.none _).cons (by decide)
      · cases hsign
        exact .none _
    split at h
    · cases h
    · next hdigits =>
      cases h
      exact hfirst.trans (passes_of_spanDigits hdigits)

theorem passes_of_spanScale? {chars rest : List Char} {exponent : Option (Bool × List Nat)}
    (h : spanScale? chars = some (exponent, rest)) : Passes Visible chars rest := by
  unfold spanScale? at h
  split at h
  · next c after =>
    split at h
    · next hletter =>
      split at h
      · next hexponent =>
        cases h
        refine (passes_of_spanExponent? hexponent).cons ?_
        rw [Bool.or_eq_true, beq_iff_eq, beq_iff_eq] at hletter
        rcases hletter with rfl | rfl <;> decide
      · cases h
    · cases h
      exact .none _
  · cases h
    exact .none _

theorem passes_of_spanUnsigned? {negative : Bool} {chars rest : List Char} {numeral : Numeral}
    (h : spanUnsigned? negative chars = some (numeral, rest)) : Passes Visible chars rest := by
  unfold spanUnsigned? at h
  split at h
  · cases h
  · cases h
  · next whole after _ _ hwhole =>
    simp only [Option.bind_eq_bind, Option.bind_eq_some_iff] at h
    obtain ⟨⟨fraction, behind⟩, hfraction, ⟨exponent, last⟩, hscale, hend⟩ := h
    cases hend
    exact (passes_of_spanDigits hwhole).trans
      ((passes_of_spanFraction? hfraction).trans (passes_of_spanScale? hscale))

/-- A numeral has no blank in it. -/
theorem passes_of_spanNumeral? {chars rest : List Char} {numeral : Numeral}
    (h : spanNumeral? chars = some (numeral, rest)) : Passes Visible chars rest := by
  unfold spanNumeral? at h
  split at h
  · exact (passes_of_spanUnsigned? h).cons (by decide)
  · exact passes_of_spanUnsigned? h

theorem head_of_spanUnsigned? {negative : Bool} {chars rest : List Char} {numeral : Numeral}
    (h : spanUnsigned? negative chars = some (numeral, rest)) :
    ∃ c tail, chars = c :: tail ∧ Visible c := by
  cases chars with
  | nil => cases h
  | cons c tail =>
    refine ⟨c, tail, rfl, ?_⟩
    cases hdigit : digit? c with
    | some digit => exact visible_of_digit? hdigit
    | none =>
      unfold spanUnsigned? spanDigits at h
      simp [hdigit] at h

theorem head_of_spanNumeral? {chars rest : List Char} {numeral : Numeral}
    (h : spanNumeral? chars = some (numeral, rest)) : ∃ c tail, chars = c :: tail ∧ Visible c := by
  unfold spanNumeral? at h
  split at h
  · exact ⟨'-', _, rfl, by decide⟩
  · exact head_of_spanUnsigned? h

theorem visible_of_mem_words {word : List Char} {json : Json} (h : (word, json) ∈ words) :
    word ≠ [] ∧ ∀ c ∈ word, Visible c := by
  have hwords : (words.all fun entry => !entry.1.isEmpty && entry.1.all fun c => !isBlank c) :=
    by decide
  simpa [Visible] using List.all_eq_true.mp hwords _ h

/-! ## How lines start -/

/-- Whether every line but the first starts with no blanks but spaces of the format. -/
def LaterLinesSpaced (chars : List Char) : Prop :=
  ∀ line, '\n' :: line <:+ chars → ∀ c ∈ line.takeWhile isBlank, isSpace c = true

/-- Whether every line starts with no blanks but spaces of the format. -/
structure LinesSpaced (chars : List Char) : Prop where
  first : ∀ c ∈ chars.takeWhile isBlank, isSpace c = true
  later : LaterLinesSpaced chars

theorem LaterLinesSpaced.cons {c : Char} {chars : List Char} (hc : c ≠ '\n')
    (h : LaterLinesSpaced chars) : LaterLinesSpaced (c :: chars) := by
  intro line hline
  rcases List.suffix_cons_iff.mp hline with heq | hsuffix
  · exact absurd (List.cons.inj heq).1.symm hc
  · exact h line hsuffix

theorem LaterLinesSpaced.behind {chars rest : List Char} (hpasses : Passes (· ≠ '\n') chars rest)
    (h : LaterLinesSpaced rest) : LaterLinesSpaced chars := by
  obtain ⟨passed, rfl, hpassed⟩ := hpasses
  induction passed with
  | nil => exact h
  | cons c passed ih =>
    exact (ih fun other hother => hpassed other (.tail c hother)).cons (hpassed c (.head passed))

theorem Visible.ne_lineFeed {c : Char} (h : Visible c) : c ≠ '\n' := by
  rintro rfl
  exact absurd h (by decide)

theorem Passes.of_visible {chars rest : List Char} (h : Passes Visible chars rest) :
    Passes (· ≠ '\n') chars rest := by
  obtain ⟨passed, hchars, hpassed⟩ := h
  exact ⟨passed, hchars, fun c hc => (hpassed c hc).ne_lineFeed⟩

/-- A line that starts with a visible character starts with no blanks. -/
theorem LaterLinesSpaced.visible {c : Char} {chars : List Char} (hc : Visible c)
    (h : LaterLinesSpaced (c :: chars)) : LinesSpaced (c :: chars) where
  first := by
    rw [List.takeWhile_cons_of_neg (by rw [hc]; exact Bool.false_ne_true)]
    exact nofun
  later := h

theorem LinesSpaced.space {c : Char} {chars : List Char} (hc : isSpace c = true)
    (h : LinesSpaced chars) : LinesSpaced (c :: chars) where
  first other hother := by
    rw [List.takeWhile_cons] at hother
    split at hother
    · rcases List.mem_cons.mp hother with rfl | hother
      · exact hc
      · exact h.first other hother
    · cases hother
  later line hline := by
    rcases List.suffix_cons_iff.mp hline with heq | hsuffix
    · obtain ⟨-, rfl⟩ := List.cons.inj heq
      exact h.first
    · exact h.later line hsuffix

theorem LinesSpaced.of_skipSpaces {chars : List Char} (h : LinesSpaced (skipSpaces chars)) :
    LinesSpaced chars := by
  induction chars with
  | nil => exact h
  | cons c chars ih =>
    unfold skipSpaces at h ih
    by_cases hc : isSpace c = true
    · rw [List.dropWhile_cons_of_pos hc] at h
      exact .space hc (ih h)
    · rwa [List.dropWhile_cons_of_neg hc] at h

/-- A mark with spaces before it lets all lines start well when those behind it do. -/
theorem LaterLinesSpaced.mark {mark : Char} {chars rest : List Char}
    (hchars : skipSpaces chars = mark :: rest) (hmark : Visible mark) (h : LaterLinesSpaced rest) :
    LinesSpaced chars := by
  apply LinesSpaced.of_skipSpaces
  rw [hchars]
  exact (h.cons hmark.ne_lineFeed).visible hmark

/-- What is spelled keeps its lines from starting with blanks that the format does not know. -/
theorem Spells.linesSpaced {part : Part} {chars rest : List Char} {found : Found}
    (h : Spells part chars found rest) (hrest : LaterLinesSpaced rest) : LinesSpaced chars := by
  have hopen : ∀ {c : Char} {chars : List Char}, Visible c → LaterLinesSpaced chars →
      LinesSpaced (c :: chars) := fun hc h => (h.cons hc.ne_lineFeed).visible hc
  induction h with
  | space hc _ ih => exact (ih hrest).space hc
  | string hquoted => exact hopen (by decide) (hrest.behind (passes_of_spanString? hquoted))
  | word hknown rest =>
    obtain ⟨hnonempty, hvisible⟩ := visible_of_mem_words hknown
    have hlater := hrest.behind (Passes.of_visible ⟨_, rfl, hvisible⟩)
    obtain ⟨c, letters, rfl⟩ := List.exists_cons_of_ne_nil hnonempty
    exact hlater.visible (hvisible c (.head letters))
  | number hdigits =>
    have hlater := hrest.behind (passes_of_spanNumeral? hdigits).of_visible
    obtain ⟨c, tail, rfl, hc⟩ := head_of_spanNumeral? hdigits
    exact hlater.visible hc
  | noItems hclose => exact hopen (by decide) (hrest.mark hclose (by decide)).later
  | array _ ih => exact hopen (by decide) (ih hrest).later
  | noEntries hclose => exact hopen (by decide) (hrest.mark hclose (by decide)).later
  | object _ ih => exact hopen (by decide) (ih hrest).later
  | lastItem _ hclose ih => exact ih (hrest.mark hclose (by decide)).later
  | item _ hcomma _ ih ihothers =>
    exact ih ((ihothers hrest).later.mark hcomma (by decide)).later
  | lastEntry hquoted hcolon _ hclose ih =>
    have hvalue := (ih (hrest.mark hclose (by decide)).later).later
    have hname := (hvalue.mark hcolon (by decide)).later
    exact hopen (by decide) (hname.behind (passes_of_spanString? hquoted))
  | entry hquoted hcolon _ hcomma _ ih ihothers =>
    have hvalue := (ih ((ihothers hrest).later.mark hcomma (by decide)).later).later
    have hname := (hvalue.mark hcolon (by decide)).later
    exact hopen (by decide) (hname.behind (passes_of_spanString? hquoted))

/-! ## Texts of the format -/

/-- A text of the format is the spelling of its value, with spaces behind it. -/
theorem spells_of_read? {text : String} {json : Json} (h : read? text = some json) :
    ∃ rest, Spells .value text.toList (.value json) rest ∧ skipSpaces rest = [] := by
  unfold read? at h
  simp only at h
  split at h
  · next rest hspan =>
    split at h
    · next hrest =>
      cases h
      exact ⟨rest, spells_of_spanPart? hspan, List.isEmpty_iff.mp hrest⟩
    · cases h
  · cases h

theorem linesSpaced_of_read? {text : String} {json : Json} (h : read? text = some json) :
    LinesSpaced text.toList := by
  obtain ⟨rest, hspells, hrest⟩ := spells_of_read? h
  refine hspells.linesSpaced (LinesSpaced.of_skipSpaces ?_).later
  rw [hrest]
  exact ⟨nofun, fun line hline => absurd (List.suffix_nil.mp hline) (List.cons_ne_nil _ _)⟩

end SdkMigration.Json
