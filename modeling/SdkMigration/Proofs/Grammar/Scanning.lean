import SdkMigration.Program.Token
import SdkMigration.Proofs.Landmarks

/-!
# Scanned tokens

Every scanner takes some characters from the head of those it is given, counts
them, and hands on the rest.  `Takes` says so of a scanner that counts from a
number on, and the scanners of the parts of a token are gone through one after
the other.

`Token.At` is what the readers of the grammar rely on.  A token lies in the text
where it says, the characters it keeps are those of the text, and a word is a
name in its place.
-/

namespace SdkMigration

/-! ## Characters -/

/-- The numbers of the characters that are blank. -/
private def blankNumbers : List Nat :=
  [0x20, 9, 10, 11, 12, 13, 0x85, 0xA0, 0x1680, 0x2000, 0x2001, 0x2002, 0x2003, 0x2004, 0x2005,
    0x2006, 0x2007, 0x2008, 0x2009, 0x200A, 0x2028, 0x2029, 0x202F, 0x205F, 0x3000]

private theorem mem_blankNumbers {c : Char} (h : isBlank c = true) : c.toNat ∈ blankNumbers := by
  unfold isBlank at h
  simp only [Bool.or_eq_true, Bool.and_eq_true, decide_eq_true_eq] at h
  unfold blankNumbers
  simp only [List.mem_cons, List.not_mem_nil, or_false]
  omega

private theorem not_continues_of_blank :
    ∀ n ∈ blankNumbers, NameChars.canContinue (Char.ofNat n) = false := by
  decide +kernel

/-- A character of a name is no blank. -/
theorem not_blank_of_canContinue {c : Char} (h : NameChars.canContinue c = true) :
    isBlank c = false := by
  rw [← Bool.not_eq_true]
  intro hblank
  have hfalse := not_continues_of_blank _ (mem_blankNumbers hblank)
  rw [Char.ofNat_toNat, h] at hfalse
  cases hfalse

theorem canContinue_of_canStart {c : Char} (h : NameChars.canStart c = true) :
    NameChars.canContinue c = true := by
  unfold NameChars.canContinue
  rw [h]
  rfl

theorem not_canContinue_dot : NameChars.canContinue '.' = false := by decide +kernel

/-- No name starts with a hyphen. -/
theorem not_canStart_hyphen : NameChars.canStart '-' = false := by decide +kernel

/-- A hexadecimal digit is no blank. -/
theorem not_blank_of_hexDigit {c : Char} {digit : Nat} (h : hexDigit? c = some digit) :
    isBlank c = false := by
  unfold hexDigit? at h
  rw [← Bool.not_eq_true]
  intro hblank
  have hmem := mem_blankNumbers hblank
  unfold blankNumbers at hmem
  simp only [List.mem_cons, List.not_mem_nil, or_false] at hmem
  simp only at h
  split at h
  · omega
  · split at h
    · omega
    · split at h
      · omega
      · cases h

/-! ## Positions in a text -/

namespace Text

variable {text : Text} {position : Nat} {c : Char} {rest : List Char}

theorem getElem?_of_drop (h : text.drop position = c :: rest) : text[position]? = some c := by
  have hhead := congrArg List.head? h
  rwa [List.head?_drop] at hhead

theorem lt_length_of_drop (h : text.drop position = c :: rest) : position < text.length := by
  rcases Nat.lt_or_ge position text.length with hlt | hge
  · exact hlt
  · rw [List.drop_eq_nil_of_le hge] at h
    cases h

theorem drop_of_append {taken : List Char} (h : text.drop position = taken ++ rest) :
    text.drop (position + taken.length) = rest := by
  rw [← List.drop_drop, h, List.drop_left]

/-- The characters that were taken are what the text has in their place. -/
theorem slice_of_append {taken : List Char} (h : text.drop position = taken ++ rest) :
    text.slice (Span.between position (position + taken.length)) = taken := by
  have hstop : (Span.between position (position + taken.length)).stop =
      position + taken.length := Nat.max_eq_right (Nat.le_add_right _ _)
  have hstart : (Span.between position (position + taken.length)).start = position := rfl
  unfold slice
  rw [hstop, List.drop_take, hstart, Nat.add_sub_cancel_left, h, List.take_left]

/-- Behind the characters that were taken stands the first of the others. -/
theorem getElem?_of_append {taken : List Char} (h : text.drop position = taken ++ rest) :
    text[position + taken.length]? = rest.head? := by
  rw [← drop_of_append h, List.head?_drop]

theorem length_le_of_append {taken : List Char} (hposition : position ≤ text.length)
    (h : text.drop position = taken ++ rest) : position + taken.length ≤ text.length := by
  have hlength := congrArg List.length h
  rw [List.length_drop, List.length_append] at hlength
  omega

/-- The last of the characters that were taken is no blank. -/
theorem hasInk_last {taken : List Char} (h : text.drop position = taken ++ rest) {last : Char}
    (hlast : taken.getLast? = some last) (hink : isBlank last = false) :
    text.HasInk (position + taken.length - 1) := by
  rcases List.eq_nil_or_concat taken with rfl | ⟨init, final, rfl⟩
  · cases hlast
  · rw [List.concat_eq_append] at h hlast ⊢
    rw [List.getLast?_concat] at hlast
    obtain rfl := Option.some.inj hlast
    have hsplit : text.drop position = init ++ (final :: rest) := by simp [h]
    refine ⟨final, ?_, hink⟩
    have hposition : position + (init ++ [final]).length - 1 = position + init.length := by
      simp only [List.length_append, List.length_cons, List.length_nil]
      omega
    rw [hposition]
    exact getElem?_of_drop (drop_of_append hsplit)

end Text

/-! ## Scanners -/

namespace Token

/-- Whether what a scanner found, counting from a number on, is some characters
taken from the head of those it was given and the rest of them. -/
def Takes (chars : List Char) (count : Nat) (found : Nat × List Char) : Prop :=
  ∃ taken, chars = taken ++ found.2 ∧ found.1 = count + taken.length

namespace Takes

variable {chars rest : List Char} {count : Nat} {found : Nat × List Char}

theorem none (chars : List Char) (count : Nat) : Takes chars count (count, chars) :=
  ⟨[], rfl, rfl⟩

theorem cons (c : Char) (h : Takes rest (count + 1) found) : Takes (c :: rest) count found := by
  obtain ⟨taken, hchars, hcount⟩ := h
  exact ⟨c :: taken, by rw [hchars]; rfl, by rw [hcount, List.length_cons]; omega⟩

theorem trans {first : Nat × List Char} (h : Takes chars count first)
    (hrest : Takes first.2 first.1 found) : Takes chars count found := by
  obtain ⟨taken, hchars, hcount⟩ := h
  obtain ⟨more, hmore, hfound⟩ := hrest
  refine ⟨taken ++ more, ?_, ?_⟩
  · rw [hchars, hmore, List.append_assoc]
  · rw [hfound, hcount, List.length_append, Nat.add_assoc]

/-- The characters that were taken end where the scanner says. -/
theorem drop {text : Text} {position : Nat} (h : Takes (text.drop position) 0 found)
    (hposition : position ≤ text.length) :
    found.2 = text.drop (position + found.1) ∧ position + found.1 ≤ text.length := by
  obtain ⟨taken, hchars, hcount⟩ := h
  rw [Nat.zero_add] at hcount
  rw [hcount]
  exact ⟨(Text.drop_of_append hchars).symm, Text.length_le_of_append hposition hchars⟩

end Takes

/-- The characters that are counted end before one that is not. -/
theorem spanCount_stops {good : Char → Bool} {count : Nat} {chars rest : List Char} {c : Char}
    (h : (spanCount good count chars).2 = c :: rest) : good c = false := by
  induction chars generalizing count with
  | nil => cases h
  | cons first others ih =>
    unfold spanCount at h
    split at h
    · exact ih h
    · rename_i hbad
      obtain ⟨rfl, -⟩ := List.cons.inj h
      simpa using hbad

theorem takes_spanCount (good : Char → Bool) (count : Nat) (chars : List Char) :
    Takes chars count (spanCount good count chars) := by
  induction chars generalizing count with
  | nil => exact .none [] count
  | cons c rest ih =>
    unfold spanCount
    split
    · exact .cons c (ih (count + 1))
    · exact .none (c :: rest) count

/-! ### Numbers -/

theorem takes_spanDigits {good : Char → Bool} {count : Nat} {chars : List Char}
    {found : Nat × List Char} (h : spanDigits good count chars = some found) :
    Takes chars count found := by
  unfold spanDigits at h
  simp only at h
  split at h
  · rw [← Option.some.inj h]
    exact takes_spanCount _ _ _
  · cases h

theorem takes_spanSuffix (found : Nat × List Char) : Takes found.2 found.1 (spanSuffix found) := by
  unfold spanSuffix
  split
  · rename_i after hn
    rw [hn]
    exact .cons 'n' (.none after _)
  · exact .none _ _

theorem takes_spanExponent {count : Nat} {chars : List Char} {found : Nat × List Char}
    (h : spanExponent count chars = some found) : Takes chars count found := by
  unfold spanExponent at h
  split at h
  · rename_i e after
    split at h
    · split at h
      · rename_i sign digits
        split at h
        · exact .cons e (.cons sign (takes_spanDigits h))
        · exact .cons e (takes_spanDigits h)
      · cases h
    · rw [← Option.some.inj h]
      exact .none _ _
  · rw [← Option.some.inj h]
    exact .none _ _

theorem takes_scanDecimal {chars : List Char} {found : Nat × List Char}
    (h : scanDecimal chars = some found) : Takes chars 0 found := by
  unfold scanDecimal at h
  simp only at h
  have hdigits := takes_spanCount isNumberDigit 0 chars
  split at h
  · rw [← Option.some.inj h]
    exact hdigits
  · split at h
    · rename_i after hn
      split at h
      · rw [← Option.some.inj h]
        refine hdigits.trans ?_
        rw [hn]
        exact .cons 'n' (.none after _)
      · refine hdigits.trans ?_
        exact takes_spanExponent h
    · rename_i after hdot
      refine hdigits.trans ?_
      rw [hdot]
      exact .cons '.' ((takes_spanCount isNumberDigit _ after).trans (takes_spanExponent h))
    · exact hdigits.trans (takes_spanExponent h)

theorem takes_scanNumber {chars : List Char} {found : Nat × List Char}
    (h : scanNumber chars = some found) : Takes chars 0 found := by
  unfold scanNumber at h
  split at h
  · rename_i letter after
    split at h
    · obtain ⟨digits, hdigits, rfl⟩ := Option.map_eq_some_iff.mp h
      exact .cons '0' (.cons letter ((takes_spanDigits hdigits).trans (takes_spanSuffix _)))
    · exact takes_scanDecimal h
  · exact takes_scanDecimal h

/-! ### Strings, templates and regular expressions -/

/-- A string that was scanned ends with its quotation mark. -/
theorem scanString_eq {quote : Char} {quoted : Quoted} {passed count : Nat}
    {chars value rest : List Char} {taken : Nat}
    (h : scanString quote quoted passed count chars = some (value, taken, rest)) :
    ∃ inner, chars = inner ++ quote :: rest ∧ taken = count + inner.length + 1 := by
  induction chars generalizing quoted passed count with
  | nil => cases h
  | cons c others ih =>
    have hnext : ∀ {quoted : Quoted} {passed : Nat},
        scanString quote quoted passed (count + 1) others = some (value, taken, rest) →
        ∃ inner, c :: others = inner ++ quote :: rest ∧ taken = count + inner.length + 1 := by
      intro quoted passed hscan
      obtain ⟨inner, hothers, htaken⟩ := ih hscan
      refine ⟨c :: inner, by rw [hothers]; rfl, ?_⟩
      rw [htaken, List.length_cons]
      omega
    unfold scanString at h
    split at h
    · exact hnext h
    · split at h
      · split at h
        · exact hnext h
        · cases h
      · split at h
        · exact hnext h
        · cases h
    · split at h
      · rename_i hquote
        obtain ⟨-, rfl, rfl⟩ := by simpa only [Option.some.injEq, Prod.mk.injEq] using h
        exact ⟨[], by rw [beq_iff_eq.mp hquote]; rfl, rfl⟩
      · split at h
        · cases h
        · split at h
          · split at h
            · exact hnext h
            · exact hnext h
            · exact hnext h
            · exact hnext h
            · cases h
          · exact hnext h

theorem takes_scanString {quote : Char} {quoted : Quoted} {passed count : Nat}
    {chars value rest : List Char} {taken : Nat}
    (h : scanString quote quoted passed count chars = some (value, taken, rest)) :
    Takes chars count (taken, rest) := by
  obtain ⟨inner, hchars, htaken⟩ := scanString_eq h
  refine ⟨inner ++ [quote], by rw [hchars]; simp, ?_⟩
  rw [htaken, List.length_append, List.length_singleton, Nat.add_assoc]

theorem takes_scanTemplate {valid : Bool} {count : Nat} {chars : List Char}
    {piece : TemplatePiece} (h : scanTemplate valid count chars = some piece) :
    Takes chars count (piece.count, piece.rest) := by
  fun_induction scanTemplate valid count chars with
  | case1 => cases h
  | case2 valid count rest =>
    rw [← Option.some.inj h]
    exact .cons _ (.cons _ (.none _ _))
  | case3 valid count e rest ih => exact .cons _ (.cons _ (ih h))
  | case4 valid count c rest _ _ hquote =>
    rw [← Option.some.inj h]
    exact .cons _ (.none _ _)
  | case5 valid count c rest _ _ _ ih => exact .cons _ (ih h)

theorem takes_scanPattern {inClass : Bool} {count : Nat} {chars : List Char}
    {found : Nat × List Char} (h : scanPattern inClass count chars = some found) :
    Takes chars count found := by
  fun_induction scanPattern inClass count chars with
  | case1 => cases h
  | case2 => cases h
  | case3 => cases h
  | case4 => cases h
  | case5 inClass count c _ _ e after _ ih => exact .cons _ (.cons _ (ih h))
  | case6 inClass count c rest _ _ _ ih => exact .cons _ (ih h)
  | case7 inClass count c rest _ _ _ _ ih => exact .cons _ (ih h)
  | case8 inClass count c rest =>
    rw [← Option.some.inj h]
    exact .cons _ (.none _ _)
  | case9 inClass count c rest _ _ _ _ _ ih => exact .cons _ (ih h)

/-! ### Marks -/

theorem startsWith_mark {chars : List Char} {mark : String} (h : mark? chars = some mark) :
    mark.toList <+: chars := by
  unfold mark? at h
  split at h
  · cases h
  · split at h
    · rename_i digit others heq
      split at h
      · rw [← Option.some.inj h, heq]
        exact List.prefix_append ['?'] _
      · rw [← Option.some.inj h, heq]
        exact List.prefix_append ['?', '.'] _
    · have hfound := List.find?_some h
      exact List.isPrefixOf_iff_prefix.mp hfound

theorem takes_mark {chars : List Char} {mark : String} (h : mark? chars = some mark) :
    Takes chars 0 (mark.length, chars.drop mark.length) := by
  obtain ⟨rest, hrest⟩ := startsWith_mark h
  refine ⟨mark.toList, ?_, ?_⟩
  · rw [← hrest, ← String.length_toList, List.drop_left]
  · rw [Nat.zero_add, String.length_toList]

/-! ### Words -/

/-- Whether a word was read from the head of characters: the last of those that
were taken is no blank, and a word that took none has the characters it
started with. -/
def Word.Takes (chars known : List Char) (count : Nat) (word : Word) : Prop :=
  ∃ taken, chars = taken ++ word.rest ∧ word.count = count + taken.length ∧
    (∀ last, taken.getLast? = some last → isBlank last = false) ∧
    (taken = [] → word.name = known.reverse)

private theorem Word.Takes.none {chars known : List Char} {count : Nat} {word : Word}
    (hrest : word.rest = chars) (hcount : word.count = count)
    (hname : word.name = known.reverse) : word.Takes chars known count :=
  ⟨[], by rw [hrest]; rfl, by rw [hcount]; rfl, by simp, fun _ => hname⟩

/-- A word that takes more characters behind some others. -/
private theorem Word.Takes.append {rest known known' : List Char} {count : Nat} {word : Word}
    (before : List Char) (hbefore : before ≠ []) (last : Char) (hlast : before.getLast? = some last)
    (hink : isBlank last = false) (h : word.Takes rest known (count + before.length)) :
    word.Takes (before ++ rest) known' count := by
  obtain ⟨taken, hchars, hcount, hinks, -⟩ := h
  refine ⟨before ++ taken, ?_, ?_, ?_, ?_⟩
  · rw [hchars, List.append_assoc]
  · rw [hcount, List.length_append, Nat.add_assoc]
  · intro final hfinal
    rcases List.eq_nil_or_concat taken with rfl | ⟨init, other, rfl⟩
    · rw [List.append_nil, hlast] at hfinal
      rw [← Option.some.inj hfinal]
      exact hink
    · rw [List.concat_eq_append] at hfinal hinks
      rw [← List.append_assoc, List.getLast?_concat] at hfinal
      rw [← Option.some.inj hfinal]
      exact hinks other List.getLast?_concat
  · intro hempty
    exact absurd (List.append_eq_nil_iff.mp hempty).1 hbefore

/-- Whether a word that was read has the characters that were taken, unless one of them is
a backslash or the word started in an escape, and whether it ends where it can. -/
def Word.Keeps (chars known : List Char) (escaping : Bool) (word : Word) : Prop :=
  ∃ taken, chars = taken ++ word.rest ∧
    (word.name = known.reverse ++ taken ∨ escaping = true ∨ '\\' ∈ taken) ∧
    (word.valid = true → ∀ c, word.rest.head? = some c → NameChars.canContinue c = false)

theorem keeps_scanWord (braced : Option Nat) (known : List Char) (count : Nat) (escaped : Bool)
    (chars : List Char) :
    (scanWord braced known count escaped chars).Keeps chars known braced.isSome := by
  -- Behind a backslash it does not matter which characters follow.
  have hescape : ∀ {before rest known : List Char} {escaping : Bool} {word : Word},
      '\\' ∈ before → word.Keeps rest known escaping → ∀ {other : List Char},
      word.Keeps (before ++ rest) other false := by
    rintro before rest known escaping word hslash ⟨taken, hrest, -, hends⟩ other
    exact ⟨before ++ taken, by rw [hrest, List.append_assoc],
      Or.inr (Or.inr (List.mem_append_left _ hslash)), hends⟩
  have hbraced : ∀ {rest known : List Char} {escaping : Bool} {word : Word} (c : Char),
      word.Keeps rest known escaping → ∀ {other : List Char},
      word.Keeps (c :: rest) other true := by
    rintro rest known escaping word c ⟨taken, hrest, -, hends⟩ other
    exact ⟨c :: taken, by rw [hrest]; rfl, Or.inr (Or.inl rfl), hends⟩
  have hfailed : ∀ {chars known : List Char} {count : Nat} {escaped escaping : Bool},
      (⟨known.reverse, count, escaped, chars, false⟩ : Word).Keeps chars known escaping :=
    ⟨[], rfl, Or.inl (List.append_nil _).symm, nofun⟩
  fun_induction scanWord braced known count escaped chars with
  | case1 => exact ⟨[], rfl, Or.inl (List.append_nil _).symm, fun _ _ h => by cases h⟩
  | case2 known count escaped c rest value hclose ih => exact hbraced c ih
  | case3 known count escaped c rest value _ digit hdigit ih => exact hbraced c ih
  | case4 => exact hfailed
  | case5 known count escaped c hslash after ih =>
    rw [beq_iff_eq.mp hslash]
    exact @hescape ['\\', 'u', '\x7b'] after _ _ _ List.mem_cons_self ih _
  | case6 known count escaped c hslash p q r s after _ value hvalue ih =>
    rw [beq_iff_eq.mp hslash]
    exact @hescape ['\\', 'u', p, q, r, s] after _ _ _ List.mem_cons_self ih _
  | case7 => exact hfailed
  | case8 => exact hfailed
  | case9 known count escaped c rest _ hcontinue ih =>
    obtain ⟨taken, hrest, hname, hends⟩ := ih
    refine ⟨c :: taken, congrArg (c :: ·) hrest, ?_, hends⟩
    rcases hname with hname | hbad | hslash
    · exact Or.inl (by rw [hname, List.reverse_cons, List.append_assoc, List.singleton_append])
    · cases hbad
    · exact Or.inr (Or.inr (List.mem_cons_of_mem _ hslash))
  | case10 known count escaped c rest _ hstop =>
    refine ⟨[], rfl, Or.inl (List.append_nil _).symm, fun _ other hother => ?_⟩
    obtain rfl := Option.some.inj hother
    simpa using hstop

theorem takes_scanWord (braced : Option Nat) (known : List Char) (count : Nat) (escaped : Bool)
    (chars : List Char) : (scanWord braced known count escaped chars).Takes chars known count := by
  have hfour : ∀ {p q r s : Char} {value : Nat}, hexFour? p q r s = some value →
      isBlank s = false := by
    intro p q r s value h
    unfold hexFour? at h
    simp only [Option.bind_eq_bind, Option.bind_eq_some_iff] at h
    obtain ⟨_, _, _, _, _, _, _, hs, _⟩ := h
    exact not_blank_of_hexDigit hs
  fun_induction scanWord braced known count escaped chars with
  | case1 => exact .none rfl rfl rfl
  | case2 known count escaped c rest value hclose ih =>
    rw [beq_iff_eq.mp hclose]
    exact .append ['\x7d'] (by simp) '\x7d' rfl (by decide) ih
  | case3 known count escaped c rest value _ digit hdigit ih =>
    exact .append [c] (by simp) c rfl (not_blank_of_hexDigit hdigit) ih
  | case4 => exact .none rfl rfl rfl
  | case5 known count escaped c _ after ih =>
    exact .append [c, 'u', '\x7b'] (by simp) '\x7b' rfl (by decide) ih
  | case6 known count escaped c hslash p q r s after _ value hvalue ih =>
    exact .append [c, 'u', p, q, r, s] (by simp) s rfl (hfour hvalue) ih
  | case7 => exact .none rfl rfl rfl
  | case8 => exact .none rfl rfl rfl
  | case9 known count escaped c rest _ hcontinue ih =>
    exact .append [c] (by simp) c rfl (not_blank_of_canContinue hcontinue) ih
  | case10 => exact .none rfl rfl rfl

/-- The name of a word starts and goes on as a name can. -/
theorem Word.letters {word : Word} (h : word.isName = true) :
    word.valid = true ∧ (∀ c ∈ word.name, NameChars.canContinue c = true) ∧
      word.name.head? ≠ some '-' := by
  unfold Word.isName at h
  rw [Bool.and_eq_true] at h
  obtain ⟨hvalid, h⟩ := h
  cases hname : word.name with
  | nil =>
    rw [hname] at h
    cases h
  | cons first others =>
    rw [hname] at h
    simp only [Bool.and_eq_true] at h
    refine ⟨hvalid, ?_, ?_⟩
    · intro c hc
      rcases List.mem_cons.mp hc with rfl | hc
      · exact canContinue_of_canStart h.1
      · exact List.all_eq_true.mp h.2 c hc
    · intro hhyphen
      rw [Option.some.inj hhyphen, not_canStart_hyphen] at h
      exact Bool.false_ne_true h.1

/-- The name of a word has no dot. -/
theorem Word.dotFree {word : Word} (h : word.isName = true) :
    word.name ≠ [] ∧ DotFree (String.ofList word.name) := by
  constructor
  · intro hname
    simp [isName, hname] at h
  · unfold DotFree
    rw [String.toList_ofList]
    intro hdot
    have hcontinues := (Word.letters h).2.1 _ hdot
    rw [not_canContinue_dot] at hcontinues
    cases hcontinues

/-! ## Between two tokens -/

/-- Whether what lies between two tokens ends at its position in the text.  A
comment that the next token counts from was known before, or it starts on the
way like one in the style of markup.  No blank is left at the end. -/
structure Gap.Leads (text : Text) (position : Nat) (known : Option Nat) (gap : Gap) : Prop where
  le_position : position ≤ gap.position
  le_length : gap.position ≤ text.length
  rest_eq : gap.rest = text.drop gap.position
  comment : ∀ start, gap.markupComment = some start → known = some start ∨
    (position ≤ start ∧ start ≤ gap.position ∧ text.OpensMarkup start)
  unblank : text.Unblank gap.position

namespace Gap.Leads

variable {text : Text} {position : Nat} {known : Option Nat} {gap : Gap}

theorem next (h : gap.Leads text (position + 1) known) : gap.Leads text position known where
  le_position := Nat.le_trans (Nat.le_succ position) h.le_position
  le_length := h.le_length
  rest_eq := h.rest_eq
  comment := by
    intro start hstart
    refine (h.comment start hstart).imp_right fun ⟨hle, hrest⟩ => ⟨?_, hrest⟩
    omega
  unblank := h.unblank

/-- A comment that starts at the position. -/
theorem start (h : gap.Leads text (position + 1) (known <|> some position))
    (hopens : text.OpensMarkup position) : gap.Leads text position known where
  le_position := Nat.le_trans (Nat.le_succ position) h.le_position
  le_length := h.le_length
  rest_eq := h.rest_eq
  comment := by
    intro start hstart
    have hle := h.le_position
    rcases h.comment start hstart with hknown | ⟨hpos, hrest⟩
    · cases known with
      | none =>
        have hposition : some position = some start := hknown
        obtain rfl := Option.some.inj hposition
        exact Or.inr ⟨Nat.le_refl _, by omega, hopens⟩
      | some other => exact Or.inl hknown
    · exact Or.inr ⟨by omega, hrest⟩
  unblank := h.unblank

end Gap.Leads

theorem skipGap_leads {text : Text} (mode : GapMode) (passed : Nat) (newline : Bool)
    (known : Option Nat) (chars : List Char) :
    ∀ position, position ≤ text.length → chars = text.drop position →
      (skipGap mode passed position newline known chars).Leads text position known := by
  induction chars generalizing mode passed newline known with
  | nil =>
    intro position hposition hchars
    refine ⟨Nat.le_refl _, hposition, hchars, fun _ h => Or.inl h, fun c hc => ?_⟩
    have hend := List.drop_eq_nil_iff.mp hchars.symm
    have hnone := List.getElem?_eq_none hend
    exact absurd (hnone.symm.trans hc) (by simp)
  | cons c rest ih =>
    intro position hposition hchars
    have hlt : position + 1 ≤ text.length := Text.lt_length_of_drop hchars.symm
    have hsplit : text.drop position = [c] ++ rest := hchars.symm
    have hrest : rest = text.drop (position + 1) := (Text.drop_of_append hsplit).symm
    have hstep : ∀ (mode : GapMode) (passed : Nat) (newline : Bool),
        (skipGap mode passed (position + 1) newline known rest).Leads text position known :=
      fun mode passed newline => (ih mode passed newline known _ hlt hrest).next
    unfold skipGap
    cases passed with
    | succ passed => exact hstep _ _ _
    | zero =>
      cases mode with
      | lineComment =>
        simp only
        split
        · exact hstep _ _ _
        · exact hstep _ _ _
      | blockComment =>
        simp only
        split
        · exact hstep _ _ _
        · exact hstep _ _ _
      | blank =>
        simp only
        split
        · exact hstep _ _ _
        · split
          · exact hstep _ _ _
          · split
            · exact hstep _ _ _
            · split
              · exact hstep _ _ _
              · rename_i hseparator _ _
                have hink : text.HasInk position := by
                  refine ⟨c, Text.getElem?_of_drop hchars.symm, ?_⟩
                  unfold isSeparator at hseparator
                  rw [Bool.or_eq_true, not_or] at hseparator
                  simpa using hseparator.1
                split
                · rename_i hcomment
                  refine (ih .lineComment 0 newline _ _ hlt hrest).start ?_
                  have hfirst : c = '<' ∨ c = '-' := by
                    simp only [List.isPrefixOf, Bool.or_eq_true, Bool.and_eq_true,
                      beq_iff_eq] at hcomment
                    exact hcomment.imp (fun h => h.1.symm) fun h => h.2.1.symm
                  unfold Text.OpensMarkup
                  rw [Text.getElem?_of_drop hchars.symm]
                  exact hfirst.imp (congrArg some) (congrArg some)
                · exact ⟨Nat.le_refl _, hposition, hchars, fun _ h => Or.inl h, hink.unblank⟩

/-! ## Tokens in their places -/

/-- What a token of a kind says of its characters, which are the first of the given
ones, when it is no word: they spell a mark, and those of a string end with its
quotation mark. -/
def Forms (chars : List Char) (count : Nat) : TokenKind → Prop
  | .word _ _ => False
  | .mark mark => mark.toList <+: chars ∧ count = mark.length
  | .string _ => ∃ quote inner rest, chars = quote :: inner ++ quote :: rest ∧
      count = inner.length + 2 ∧ isBlank quote = false
  | _ => True

/-- Whether a token lies in a text where it says, is a name in its place when it is a
word, and has the form of its kind otherwise.  It starts with its characters or with a
comment that it counts from. -/
structure At (text : Text) (token : Token) : Prop where
  start_le : token.start ≤ token.origin
  origin_le : token.origin ≤ token.stop
  stop_le : token.stop ≤ text.length
  here_eq : token.here = text.drop token.origin
  rest_eq : token.rest = text.drop token.stop
  word : ∀ name escaped, token.kind = .word name escaped →
    (⟨name, Span.between token.start token.stop⟩ : Identifier).Placed text
  mark : ∀ mark, token.kind = .mark mark → mark.toList <+: token.here ∧
    token.stop = token.origin + mark.length
  quoted : ∀ value, token.kind = .string value → ∃ quote inner rest,
    token.here = quote :: inner ++ quote :: rest ∧
      token.stop = token.origin + inner.length + 2 ∧ isBlank quote = false
  lead : token.start = token.origin ∨ text.OpensMarkup token.start
  initial : ∀ name escaped, token.kind = .word name escaped → token.here.head? ≠ some '-'

namespace At

variable {text : Text} {token : Token}

theorem start_le_stop (h : token.At text) : token.start ≤ token.stop :=
  Nat.le_trans h.start_le h.origin_le

/-- A token with what another kind of token reads from the same place, when that
is no word. -/
theorem of_takes (h : token.At text) (kind : TokenKind) {count : Nat} {rest : List Char}
    (htakes : Takes token.here 0 (count, rest)) (hforms : Forms token.here count kind) :
    (⟨kind, token.start, token.origin + count, token.newlineBefore, token.origin, token.here,
      rest⟩ : Token).At text := by
  have horigin : token.origin ≤ text.length := Nat.le_trans h.origin_le h.stop_le
  rw [h.here_eq] at htakes
  obtain ⟨hrest, hstop⟩ := htakes.drop horigin
  refine ⟨h.start_le, Nat.le_add_right _ _, hstop, h.here_eq, hrest, ?_, ?_, ?_, h.lead, ?_⟩
  · rintro name escaped rfl
    exact hforms.elim
  · rintro mark rfl
    exact ⟨hforms.1, congrArg (token.origin + ·) hforms.2⟩
  · rintro value rfl
    obtain ⟨quote, inner, rest, hhere, hcount, hquote⟩ := hforms
    exact ⟨quote, inner, rest, hhere, congrArg (token.origin + ·) hcount, hquote⟩
  · rintro name escaped rfl
    exact hforms.elim

/-- A token that turns out to be none. -/
theorem invalid (h : token.At text) : ({ token with kind := .invalid } : Token).At text :=
  ⟨h.start_le, h.origin_le, h.stop_le, h.here_eq, h.rest_eq, nofun, nofun, nofun, h.lead, nofun⟩

end At

/-! ### Reading a token -/

section Read

variable {text : Text} {position start : Nat} {newline : Bool} {chars : List Char}

/-- A token that is no word lies where its characters do. -/
private theorem at_of_takes (hposition : position ≤ text.length)
    (hchars : chars = text.drop position) (hstart : start ≤ position)
    (hlead : start = position ∨ text.OpensMarkup start) {kind : TokenKind}
    {count : Nat} {rest : List Char} (h : Takes chars 0 (count, rest))
    (hforms : Forms chars count kind) :
    (⟨kind, start, position + count, newline, position, chars, rest⟩ : Token).At text := by
  have hdrop := h
  rw [hchars] at hdrop
  obtain ⟨hrest, hstop⟩ := hdrop.drop hposition
  refine ⟨hstart, Nat.le_add_right _ _, hstop, hchars, hrest, ?_, ?_, ?_, hlead, ?_⟩
  · rintro name escaped rfl
    exact hforms.elim
  · rintro mark rfl
    exact ⟨hforms.1, congrArg (position + ·) hforms.2⟩
  · rintro value rfl
    obtain ⟨quote, inner, rest, hhere, hcount, hquote⟩ := hforms
    exact ⟨quote, inner, rest, hhere, congrArg (position + ·) hcount, hquote⟩
  · rintro name escaped rfl
    exact hforms.elim

/-- A name is spelled in its place when the characters that were taken for it are its own or
are escaped, and those behind them do not go on with it. -/
private theorem spelled_of_append {name taken rest : List Char}
    (htaken : text.drop position = taken ++ rest) (hstart : start ≤ position)
    (hlead : start = position ∨ text.OpensMarkup start)
    (hchars : ∀ c ∈ name, NameChars.canContinue c = true ∨ c = '-')
    (hinitial : name.head? ≠ some '-') (hwritten : taken = name ∨ '\\' ∈ taken)
    (hends : ∀ c, rest.head? = some c → NameChars.canContinue c = false) :
    (⟨String.ofList name, Span.between start (position + taken.length)⟩ :
      Identifier).Spelled text := by
  have hstop : (Span.between start (position + taken.length)).stop = position + taken.length :=
    Nat.max_eq_right (Nat.le_trans hstart (Nat.le_add_right _ _))
  refine ⟨?_, ?_, ?_, ?_⟩
  · rwa [String.toList_ofList]
  · rwa [String.toList_ofList]
  · rw [String.toList_ofList]
    rcases hlead with rfl | hopens
    · rw [Text.slice_of_append htaken]
      exact hwritten.imp_right Or.inl
    · exact Or.inr (Or.inr hopens)
  · show ∀ c, text[(Span.between start (position + taken.length)).stop]? = some c → _
    rw [hstop, Text.getElem?_of_append htaken]
    exact hends

/-- A word that was read is a name in its place. -/
private theorem at_of_word (hposition : position ≤ text.length)
    (hchars : chars = text.drop position) (hstart : start ≤ position)
    (hlead : start = position ∨ text.OpensMarkup start)
    (hink : text.HasInk start) (hhead : chars.head? ≠ some '-') {word : Word}
    (h : word.Takes chars [] 0) (hkeeps : word.Keeps chars [] false)
    (hname : word.isName = true) {escaped : Bool} :
    (⟨.word (String.ofList word.name) escaped, start, position + word.count, newline, position,
      chars, word.rest⟩ : Token).At text := by
  obtain ⟨taken, htaken, hcount, hlast, hempty⟩ := h
  obtain ⟨kept, hkept, hwritten, hends⟩ := hkeeps
  obtain rfl : kept = taken := List.append_cancel_right (hkept.symm.trans htaken)
  obtain ⟨hvalid, hcontinue, hinitial⟩ := Word.letters hname
  obtain ⟨hname, hdots⟩ := Word.dotFree hname
  have hsome : kept ≠ [] := fun h => hname (hempty h)
  have hpositive : 0 < kept.length := List.length_pos_iff.mpr hsome
  rw [hchars] at htaken
  rw [Nat.zero_add] at hcount
  have hrest := Text.drop_of_append htaken
  have hstop := Text.length_le_of_append hposition htaken
  have hspan : (Span.between start (position + word.count)).stop = position + word.count :=
    Nat.max_eq_right (Nat.le_trans hstart (Nat.le_add_right _ _))
  refine ⟨hstart, Nat.le_add_right _ _, by rw [hcount]; exact hstop, hchars,
    by rw [hcount]; exact hrest.symm, ?_, nofun, nofun, hlead, fun _ _ _ => hhead⟩
  intro name escaped heq
  obtain ⟨rfl, -⟩ := TokenKind.word.inj heq
  refine ⟨?_, hink, ?_, hdots, ?_⟩
  · show start < (Span.between start (position + word.count)).stop
    rw [hspan]
    omega
  · show text.HasInk ((Span.between start (position + word.count)).stop - 1)
    rw [hspan, hcount]
    obtain ⟨last, hgetLast⟩ := Option.ne_none_iff_exists'.mp
      (mt List.getLast?_eq_none_iff.mp hsome)
    exact Text.hasInk_last htaken hgetLast (hlast last hgetLast)
  · rw [hcount]
    refine spelled_of_append htaken hstart hlead (fun c hc => Or.inl (hcontinue c hc)) hinitial
      ?_ (hends hvalid)
    rcases hwritten with hsame | hbad | hslash
    · exact Or.inl hsame.symm
    · cases hbad
    · exact Or.inr hslash

/-- A quotation mark is no blank. -/
theorem not_blank_of_quote {quote : Char} (h : (quote == '"' || quote == '\'') = true) :
    isBlank quote = false := by
  simp only [Bool.or_eq_true, beq_iff_eq] at h
  rcases h with rfl | rfl <;> decide

private theorem forms_string {quote : Char} (hquote : (quote == '"' || quote == '\'') = true)
    {value rest after : List Char} {count : Nat}
    (h : scanString quote {} 0 1 rest = some (value, count, after)) :
    Forms (quote :: rest) count (.string (String.ofList value)) := by
  obtain ⟨inner, hrest, hcount⟩ := scanString_eq h
  exact ⟨quote, inner, after, by rw [hrest]; rfl, by omega, not_blank_of_quote hquote⟩

/-- The token that is read at a position lies there. -/
theorem read_at (hposition : position ≤ text.length) (hchars : chars = text.drop position)
    (hstart : start ≤ position) (hlead : start = position ∨ text.OpensMarkup start) :
    (read start newline position chars).At text := by
  have hat : ∀ {kind : TokenKind} {count : Nat} {rest : List Char},
      Takes chars 0 (count, rest) → Forms chars count kind →
      (⟨kind, start, position + count, newline, position, chars, rest⟩ : Token).At text :=
    fun h hforms => at_of_takes hposition hchars hstart hlead h hforms
  cases hcases : chars with
  | nil =>
    subst hcases
    exact hat (.none [] 0) trivial
  | cons c rest =>
    rw [hcases] at hat
    have hinvalid : (⟨.invalid, start, position + 1, newline, position, c :: rest, rest⟩ :
        Token).At text := hat (.cons c (.none rest 1)) trivial
    unfold read
    simp only
    split
    · rename_i hword
      split
      · rename_i hname
        have hinkStart : text.HasInk start := by
          rcases hlead with rfl | hopens
          · refine ⟨c, Text.getElem?_of_drop (hchars.symm.trans hcases), ?_⟩
            rcases Bool.or_eq_true_iff.mp hword with hstarts | hslash
            · exact not_blank_of_canContinue (canContinue_of_canStart hstarts)
            · rw [beq_iff_eq.mp hslash]
              decide
          · exact hopens.hasInk
        have hhead : (c :: rest).head? ≠ some '-' := by
          intro hhyphen
          obtain rfl := Option.some.inj hhyphen
          rcases Bool.or_eq_true_iff.mp hword with hstarts | hslash
          · rw [not_canStart_hyphen] at hstarts
            cases hstarts
          · cases beq_iff_eq.mp hslash
        exact at_of_word hposition (hcases ▸ hchars) hstart hlead hinkStart hhead
          (takes_scanWord none [] 0 false (c :: rest))
          (keeps_scanWord none [] 0 false (c :: rest)) hname
      · exact hinvalid
    · split
      · split
        · rename_i count after hnumber
          split
          · exact hinvalid
          · exact hat (takes_scanNumber hnumber) trivial
        · exact hinvalid
      · split
        · rename_i hquote
          split
          · rename_i value count after hstring
            exact hat (.cons c (takes_scanString hstring)) (forms_string hquote hstring)
          · exact hinvalid
        · split
          · split
            · rename_i piece hpiece
              exact hat (.cons c (takes_scanTemplate hpiece)) trivial
            · exact hinvalid
          · split
            · split
              · obtain ⟨taken, htaken, hcount, -⟩ := takes_scanWord none [] 1 false rest
                exact hat (.cons c ⟨taken, htaken, hcount⟩) trivial
              · exact hinvalid
            · split
              · rename_i mark hmark
                exact hat (takes_mark hmark) ⟨startsWith_mark hmark, rfl⟩
              · exact hinvalid

theorem read_start (start : Nat) (newline : Bool) (position : Nat) (chars : List Char) :
    (read start newline position chars).start = start := by
  unfold read
  split
  · rfl
  · simp only
    repeat' split
    all_goals rfl

/-- The token that is scanned from a position lies behind it and starts with no
blank. -/
theorem scan_at (hposition : position ≤ text.length) :
    (scan position (text.drop position)).At text ∧
      position ≤ (scan position (text.drop position)).start ∧
      text.Unblank (scan position (text.drop position)).start := by
  have hgap := skipGap_leads .blank 0 (position == 0) none (text.drop position) position
    hposition rfl
  unfold scan
  simp only
  generalize skipGap .blank 0 position (position == 0) none (text.drop position) = gap at hgap
  have hstart : position ≤ gap.markupComment.getD gap.position ∧
      gap.markupComment.getD gap.position ≤ gap.position ∧
      (gap.markupComment.getD gap.position = gap.position ∨
        text.OpensMarkup (gap.markupComment.getD gap.position)) := by
    cases hcomment : gap.markupComment with
    | none => exact ⟨hgap.le_position, Nat.le_refl _, Or.inl rfl⟩
    | some start =>
      rcases hgap.comment start hcomment with h | ⟨hle, hge, hopens⟩
      · cases h
      · exact ⟨hle, hge, Or.inr hopens⟩
  obtain ⟨hle, hge, hlead⟩ := hstart
  have hunblank : text.Unblank (gap.markupComment.getD gap.position) :=
    hlead.elim (fun hsame => hsame.symm ▸ hgap.unblank) fun h => h.hasInk.unblank
  have hread : (read (gap.markupComment.getD gap.position) gap.newline gap.position
      gap.rest).At text := read_at hgap.le_length hgap.rest_eq hge hlead
  split
  · refine ⟨hread, ?_⟩
    rw [read_start]
    exact ⟨hle, hunblank⟩
  · exact ⟨⟨hge, Nat.le_refl _, hgap.le_length, hgap.rest_eq, hgap.rest_eq,
      nofun, nofun, nofun, hlead, nofun⟩, hle, hunblank⟩

end Read

/-! ### Reading a token again -/

section Rescan

variable {text : Text} {token : Token}

theorem rescanPattern_at (h : token.At text) :
    token.rescanPattern.At text ∧ token.rescanPattern.start = token.start := by
  unfold rescanPattern
  split
  · rename_i c rest hhere
    split
    · rename_i count after hpattern
      refine ⟨h.of_takes _ ?_ trivial, rfl⟩
      rw [hhere]
      exact .cons c ((takes_scanPattern hpattern).trans (takes_spanCount _ _ _))
    · exact ⟨h.invalid, rfl⟩
  · exact ⟨h.invalid, rfl⟩

theorem rescanTemplate_at (h : token.At text) :
    token.rescanTemplate.At text ∧ token.rescanTemplate.start = token.start := by
  unfold rescanTemplate
  split
  · rename_i piece hpiece
    refine ⟨h.of_takes _ ?_ trivial, rfl⟩
    cases hhere : token.here with
    | nil =>
      rw [hhere] at hpiece
      cases hpiece
    | cons c rest =>
      rw [hhere] at hpiece
      exact .cons c (takes_scanTemplate hpiece)
  · exact ⟨h.invalid, rfl⟩

theorem firstOfMark_at (h : token.At text) :
    token.firstOfMark.At text ∧ token.firstOfMark.start = token.start := by
  unfold firstOfMark
  split
  · rename_i c rest hhere
    refine ⟨h.of_takes _ ?_ ?_, rfl⟩
    · rw [hhere]
      exact .cons c (.none rest 1)
    · rw [hhere]
      exact ⟨by simp, by simp⟩
  · exact ⟨h, rfl⟩

private theorem not_dot_of_markupNameChar : isMarkupNameChar '.' = false := by decide +kernel

private theorem not_blank_of_markupNameChar {c : Char} (h : isMarkupNameChar c = true) :
    isBlank c = false := by
  rcases Bool.or_eq_true_iff.mp h with hname | hhyphen
  · exact not_blank_of_canContinue hname
  · rw [beq_iff_eq.mp hhyphen]
    decide

/-- The characters that are counted satisfy what is asked of them. -/
private theorem spanCount_all (good : Char → Bool) (count : Nat) (chars : List Char) :
    ∃ taken, chars = taken ++ (spanCount good count chars).2 ∧
      (spanCount good count chars).1 = count + taken.length ∧ ∀ c ∈ taken, good c = true := by
  induction chars generalizing count with
  | nil => exact ⟨[], rfl, rfl, by simp⟩
  | cons c rest ih =>
    unfold spanCount
    split
    · rename_i hgood
      obtain ⟨taken, hchars, hcount, hall⟩ := ih (count + 1)
      refine ⟨c :: taken, ?_, ?_, ?_⟩
      · rw [List.cons_append, ← hchars]
      · rw [hcount, List.length_cons]
        omega
      · intro d hd
        rcases List.mem_cons.mp hd with rfl | hd
        · exact hgood
        · exact hall d hd
    · exact ⟨[], rfl, rfl, by simp⟩

theorem rescanMarkupName_at (h : token.At text) :
    token.rescanMarkupName.At text ∧ token.rescanMarkupName.start = token.start := by
  unfold rescanMarkupName
  split
  · rename_i name escaped hkind
    obtain ⟨taken, hchars, hcount, hall⟩ := spanCount_all isMarkupNameChar 0 token.here
    have hstops : ∀ c, (spanCount isMarkupNameChar 0 token.here).2.head? = some c →
        isMarkupNameChar c = false := by
      intro c hc
      obtain ⟨rest, hrest⟩ := List.head?_eq_some_iff.mp hc
      exact spanCount_stops hrest
    generalize spanCount isMarkupNameChar 0 token.here = found at hchars hcount hstops
    obtain ⟨count, after⟩ := found
    simp only at hchars hcount hstops ⊢
    split
    · exact ⟨h, rfl⟩
    · rename_i hsome
      rw [beq_iff_eq] at hsome
      have htakes : Takes token.here 0 (count, after) := ⟨taken, hchars, hcount⟩
      have hplain := h.of_takes .number htakes trivial
      rw [Nat.zero_add] at hcount
      have hword := h.word name escaped hkind
      refine ⟨⟨hplain.start_le, hplain.origin_le, hplain.stop_le, hplain.here_eq, hplain.rest_eq,
        ?_, nofun, nofun, h.lead, fun _ _ _ => h.initial name escaped hkind⟩, rfl⟩
      intro other escaped' heq
      obtain ⟨rfl, -⟩ := TokenKind.word.inj heq
      have hstop : (Span.between token.start (token.origin + count)).stop =
          token.origin + count :=
        Nat.max_eq_right (Nat.le_trans h.start_le (Nat.le_add_right _ _))
      have hpositive : taken ≠ [] := by
        intro hempty
        rw [hempty] at hcount
        exact hsome hcount
      refine ⟨?_, hword.ink_start, ?_, ?_, ?_⟩
      · show token.start < (Span.between token.start (token.origin + count)).stop
        rw [hstop]
        have hstart := h.start_le
        omega
      · show text.HasInk ((Span.between token.start (token.origin + count)).stop - 1)
        rw [hstop, hcount]
        obtain ⟨last, hlast⟩ := Option.ne_none_iff_exists'.mp
          (mt List.getLast?_eq_none_iff.mp hpositive)
        rw [h.here_eq] at hchars
        exact Text.hasInk_last hchars hlast
          (not_blank_of_markupNameChar (hall last (List.mem_of_getLast? hlast)))
      · unfold DotFree
        rw [String.toList_ofList, hchars, hcount, List.take_left]
        intro hdot
        have hname := hall _ hdot
        rw [not_dot_of_markupNameChar] at hname
        cases hname
      · have hinitial := h.initial name escaped hkind
        rw [h.here_eq] at hchars hinitial ⊢
        rw [hchars, List.head?_append_of_ne_nil _ hpositive] at hinitial
        rw [hchars, hcount, List.take_left]
        refine spelled_of_append hchars h.start_le h.lead (fun c hc => ?_) hinitial (Or.inl rfl)
          fun c hc => ?_
        · exact (Bool.or_eq_true_iff.mp (hall c hc)).imp_right beq_iff_eq.mp
        · exact (Bool.or_eq_false_iff.mp (hstops c hc)).1
  · exact ⟨h, rfl⟩

end Rescan

/-! ### Markup -/

section Markup

variable {text : Text} {position : Nat}

theorem scanMarkup_at (hposition : position ≤ text.length) :
    (scanMarkup position (text.drop position)).At text ∧
      position ≤ (scanMarkup position (text.drop position)).start := by
  have hat : ∀ {kind : TokenKind} {count : Nat} {rest : List Char},
      Takes (text.drop position) 0 (count, rest) → Forms (text.drop position) count kind →
      (⟨kind, position, position + count, false, position, text.drop position, rest⟩ :
        Token).At text :=
    fun h hforms => at_of_takes hposition rfl (Nat.le_refl _) (Or.inl rfl) h hforms
  cases hcases : text.drop position with
  | nil =>
    rw [hcases] at hat
    exact ⟨hat (.none [] 0) trivial, Nat.le_refl _⟩
  | cons c rest =>
    rw [hcases] at hat
    unfold scanMarkup
    simp only
    split
    · exact ⟨hat (.cons c (.none rest 1)) ⟨by simp, by simp⟩, Nat.le_refl _⟩
    · exact ⟨hat (takes_spanCount _ _ _) trivial, Nat.le_refl _⟩

theorem scanMarkupValue_at (hposition : position ≤ text.length) :
    (scanMarkupValue position (text.drop position)).At text ∧
      position ≤ (scanMarkupValue position (text.drop position)).start := by
  obtain ⟨hat, hle, -⟩ := scan_at hposition
  unfold scanMarkupValue
  simp only
  generalize scan position (text.drop position) = token at hat hle
  split
  · rename_i quote rest hhere
    split
    · rename_i hquote
      have hcounted := takes_spanCount (· != quote) 1 rest
      have hstops := @spanCount_stops (· != quote) 1 rest
      generalize spanCount (· != quote) 1 rest = found at hcounted hstops
      obtain ⟨count, after⟩ := found
      simp only
      split
      · rename_i after d further
        refine ⟨?_, hle⟩
        have hsame : d = quote := by simpa using hstops rfl
        have htakes : Takes token.here 0 (count + 1, further) := by
          rw [hhere]
          exact .cons quote (hcounted.trans (.cons d (.none further _)))
        refine hat.of_takes _ htakes ?_
        obtain ⟨inner, hrest, hcount⟩ := hcounted
        rw [hhere]
        refine ⟨quote, inner, further, ?_, ?_, not_blank_of_quote hquote⟩
        · rw [hrest, hsame]
          rfl
        · simp only at hcount
          omega
      · exact ⟨hat.invalid, hle⟩
    · exact ⟨hat, hle⟩
  · exact ⟨hat, hle⟩

end Markup

end Token

end SdkMigration
