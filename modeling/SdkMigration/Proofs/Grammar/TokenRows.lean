import SdkMigration.Import.Declarations
import SdkMigration.Proofs.Grammar.Gaps
import SdkMigration.Proofs.Grammar.Scanning

/-!
# Rows of tokens

A text that is put together from words, quoted names and marks is read back as
those tokens, wherever it stands.  `Lexes` says so of a text and the kinds of its
tokens.  It is built up from the end of the text, one rule for every way to write
a token, and a word needs something behind it that does not go on with it.
-/

namespace SdkMigration

namespace Token

/-- Reads the next token, a line end being known before it or not. -/
def scanFrom (newline : Bool) (position : Nat) (chars : List Char) : Token :=
  let gap := skipGap .blank 0 position newline none chars
  let start := gap.markupComment.getD gap.position
  if gap.closed then read start gap.newline gap.position gap.rest
  else ⟨.invalid, start, gap.position, gap.newline, gap.position, gap.rest, gap.rest⟩

theorem scan_eq (position : Nat) (chars : List Char) :
    scan position chars = scanFrom (position == 0) position chars := rfl

/-- Whether a token and those behind it are of the given kinds, up to the end of
the text. -/
def Heads : List TokenKind → Token → Prop
  | [], token => token.kind = .endOfText
  | kind :: others, token =>
    token.kind = kind ∧
      ∀ newline position, Heads others (scanFrom newline position token.rest)

theorem Heads.kind_eq {kinds : List TokenKind} {token : Token} (h : token.Heads kinds) :
    token.kind = kinds.headD .endOfText := by
  cases kinds with
  | nil => exact h
  | cons kind others => exact h.1

end Token

/-- Whether some characters are read as tokens of the given kinds, wherever they
stand. -/
structure Lexes (chars : List Char) (kinds : List TokenKind) : Prop where
  heads : ∀ newline position, (Token.scanFrom newline position chars).Heads kinds
  /-- No token is empty. -/
  length_le : kinds.length ≤ chars.length

/-- Whether a word that stands before some characters ends there. -/
def Apart (chars : List Char) : Prop :=
  ∀ c ∈ chars.head?, NameChars.canContinue c = false ∧ c ≠ '\\'

/-- Whether a name is written as a word. -/
def isWord (name : String) : Bool :=
  match name.toList with
  | [] => false
  | first :: rest => NameChars.canStart first && rest.all NameChars.canContinue

theorem isWord_of_isPlainName {name : String} (h : isPlainName name = true) :
    isWord name = true := by
  unfold isPlainName at h
  unfold isWord
  split at h
  · cases h
  · simp_all

/-- Whether a text has no line break, so that it can be written in quotes. -/
def IsOneLine (text : String) : Prop := '\n' ∉ text.toList ∧ '\r' ∉ text.toList

instance (text : String) : Decidable (IsOneLine text) := inferInstanceAs (Decidable (_ ∧ _))

namespace Lexes

open Token

variable {chars rest : List Char} {kind : TokenKind} {kinds : List TokenKind}

theorem nil : Lexes [] [] := ⟨fun _ _ => rfl, Nat.le_refl _⟩

/-! ## Blanks -/

theorem blank {c : Char} (hc : isSeparator c = true) (h : Lexes rest kinds) :
    Lexes (c :: rest) kinds := by
  refine ⟨fun newline position => ?_, Nat.le_succ_of_le h.length_le⟩
  obtain ⟨other, hskip⟩ := skipGap_blank hc rest position newline
  unfold scanFrom
  rw [hskip]
  exact h.heads other (position + 1)

private theorem of_read {c : Char} (hc : Starts c)
    (hread : ∀ start newline position, (read start newline position (c :: chars)).kind = kind ∧
      (read start newline position (c :: chars)).rest = rest)
    (hlength : rest.length ≤ chars.length) (h : Lexes rest kinds) :
    Lexes (c :: chars) (kind :: kinds) := by
  have hle : kinds.length ≤ chars.length := Nat.le_trans h.length_le hlength
  refine ⟨fun newline position => ?_, Nat.succ_le_succ hle⟩
  unfold scanFrom
  rw [skipGap_starts hc]
  obtain ⟨hkind, hrest⟩ := hread position newline position
  refine ⟨hkind, fun newline position => ?_⟩
  simp only [Option.getD_none, if_true]
  rw [hrest]
  exact h.heads newline position

/-! ## Words -/

private theorem starts_of_canStart {c : Char} (h : NameChars.canStart c = true) : Starts c := by
  have hcontinue := canContinue_of_canStart h
  have hblank := not_blank_of_canContinue hcontinue
  have hother : ∀ d, NameChars.canContinue d = false → c ≠ d := by
    rintro d hd rfl
    rw [hcontinue] at hd
    cases hd
  refine ⟨?_, ?_, hother _ (by decide +kernel), hother _ (by decide +kernel),
    hother _ (by decide +kernel)⟩
  · unfold isLineEnd
    unfold isBlank at hblank
    simp only [Bool.or_eq_false_iff, decide_eq_false_iff_not] at hblank
    simp only [Bool.or_eq_false_iff, beq_eq_false_iff_ne]
    refine ⟨⟨⟨hother _ (by decide +kernel), hother _ (by decide +kernel)⟩, ?_⟩, ?_⟩ <;> tauto
  · unfold isSeparator
    rw [hblank, Bool.false_or, beq_eq_false_iff_ne]
    intro hmark
    refine hother (Char.ofNat 0xFEFF) (by decide +kernel) ?_
    rw [← hmark, Char.ofNat_toNat]

private theorem scanWord_append {name : List Char}
    (hname : ∀ c ∈ name, NameChars.canContinue c = true) (hrest : Apart rest)
    (known : List Char) (count : Nat) (escaped : Bool) :
    scanWord none known count escaped (name ++ rest) =
      ⟨known.reverse ++ name, count + name.length, escaped, rest, true⟩ := by
  induction name generalizing known count with
  | nil =>
    cases rest with
    | nil => simp [scanWord]
    | cons c others =>
      obtain ⟨hcontinue, hslash⟩ := hrest c rfl
      rw [List.nil_append]
      unfold scanWord
      simp [hslash, hcontinue]
  | cons c others ih =>
    have hcontinue := hname c List.mem_cons_self
    have hslash : c ≠ '\\' := by
      rintro rfl
      exact absurd hcontinue (by decide +kernel)
    rw [List.cons_append]
    unfold scanWord
    simp only [beq_iff_eq, hslash, if_false, hcontinue, if_true]
    rw [ih fun d hd => hname d (List.mem_cons_of_mem _ hd)]
    simp [Nat.add_assoc, Nat.add_comm 1]

/-- A word is read up to what stands apart from it. -/
theorem read_word {name : String} (hname : isWord name = true) (hrest : Apart rest) (start : Nat)
    (newline : Bool) (position : Nat) :
    (read start newline position (name.toList ++ rest)).kind = .word name false ∧
      (read start newline position (name.toList ++ rest)).rest = rest := by
  unfold isWord at hname
  cases hlist : name.toList with
  | nil =>
    rw [hlist] at hname
    cases hname
  | cons first others =>
    rw [hlist, Bool.and_eq_true] at hname
    obtain ⟨hfirst, hothers⟩ := hname
    have hall : ∀ c ∈ first :: others, NameChars.canContinue c = true := by
      intro c hc
      rcases List.mem_cons.mp hc with rfl | hc
      · exact canContinue_of_canStart hfirst
      · exact List.all_eq_true.mp hothers c hc
    have hscan := scanWord_append hall hrest [] 0 false
    rw [List.cons_append] at hscan ⊢
    have hisName : (⟨[].reverse ++ first :: others, 0 + (first :: others).length, false, rest,
        true⟩ : Word).isName = true := by
      simp only [Word.isName, List.reverse_nil, List.nil_append, hfirst, hothers, Bool.and_self]
    unfold Token.read
    simp only [hfirst, Bool.true_or, if_true, hscan, hisName]
    refine ⟨?_, trivial⟩
    rw [List.reverse_nil, List.nil_append, ← hlist, String.ofList_toList]

/-- A word starts with a character that a token can start with. -/
theorem starts_of_isWord {name : String} (hname : isWord name = true) :
    ∃ first others, name.toList = first :: others ∧ Starts first := by
  unfold isWord at hname
  cases hlist : name.toList with
  | nil =>
    rw [hlist] at hname
    cases hname
  | cons first others =>
    rw [hlist, Bool.and_eq_true] at hname
    exact ⟨first, others, rfl, starts_of_canStart hname.1⟩

theorem word {name : String} (hname : isWord name = true) (hrest : Apart rest)
    (h : Lexes rest kinds) : Lexes (name.toList ++ rest) (.word name false :: kinds) := by
  obtain ⟨first, others, hlist, hstarts⟩ := starts_of_isWord hname
  have hread := @read_word rest name hname hrest
  rw [hlist, List.cons_append] at hread ⊢
  exact of_read hstarts hread (by simp) h

/-! ## Quoted texts -/

private theorem read_escaped {c : Char} (hc : c = '\\' ∨ c = '"') :
    Escape.read (c :: rest) = .char c 1 := by
  rcases hc with rfl | rfl
  · rfl
  · rfl

private theorem scanString_escape {value : List Char} (hvalue : '\n' ∉ value ∧ '\r' ∉ value)
    (rest known : List Char) (count : Nat) :
    ∃ stop, scanString '"' ⟨known, none, none⟩ 0 count
      (Declarations.escape value ++ '"' :: rest) = some (known.reverse ++ value, stop, rest) := by
  induction value generalizing known count with
  | nil => exact ⟨count + 1, by simp [Declarations.escape, scanString, Quoted.settle]⟩
  | cons c others ih =>
    have hnewline : c ≠ '\n' := fun hc => hvalue.1 (hc ▸ List.mem_cons_self)
    have hreturn : c ≠ '\r' := fun hc => hvalue.2 (hc ▸ List.mem_cons_self)
    have hothers : '\n' ∉ others ∧ '\r' ∉ others :=
      ⟨fun h => hvalue.1 (List.mem_cons_of_mem _ h), fun h => hvalue.2 (List.mem_cons_of_mem _ h)⟩
    unfold Declarations.escape
    split
    · rename_i hspecial
      obtain ⟨stop, hstop⟩ := ih hothers (c :: known) (count + 1 + 1)
      refine ⟨stop, ?_⟩
      rw [List.cons_append, List.cons_append]
      simp only [scanString, read_escaped hspecial, Quoted.push, Quoted.settle]
      simpa using hstop
    · rename_i hplain
      rw [not_or] at hplain
      obtain ⟨stop, hstop⟩ := ih hothers (c :: known) (count + 1)
      refine ⟨stop, ?_⟩
      rw [List.cons_append]
      simp only [scanString, Quoted.push, Quoted.settle]
      simpa [hplain.1, hplain.2, hnewline, hreturn] using hstop

theorem quoted {value : String} (hvalue : IsOneLine value)
    (h : Lexes rest kinds) :
    Lexes ((Declarations.quoted value).toList ++ rest) (.string value :: kinds) := by
  have hlist : (Declarations.quoted value).toList ++ rest =
      '"' :: (Declarations.escape value.toList ++ '"' :: rest) := by
    unfold Declarations.quoted
    simp
  rw [hlist]
  have hstarts : Starts '"' := ⟨by decide, by decide, by decide, by decide, by decide⟩
  refine of_read hstarts (fun start newline position => ?_) ?_ h
  · obtain ⟨stop, hstop⟩ := scanString_escape hvalue rest [] 1
    have hnoStart : NameChars.canStart '"' = false := by decide +kernel
    have hnoDigit : NameChars.isAsciiDigit '"' = false := by decide
    unfold Token.read
    simp [hnoStart, hnoDigit, hstop]
  · rw [List.length_append, List.length_cons]
    omega

/-! ## Marks -/

/-- The marks that a row is made of. -/
def rowMarks : List Char := ['\x7b', '\x7d', ',', ';', '(', ')', '*', '=']

private theorem rowMark_facts {c : Char} (hc : c ∈ rowMarks) :
    (NameChars.canStart c = false ∧ NameChars.isAsciiDigit c = false ∧ c ≠ '\\' ∧ c ≠ '.' ∧
      c ≠ '"' ∧ c ≠ '\'' ∧ c ≠ backquote ∧ c ≠ '#') ∧
    isLineEnd c = false ∧ isSeparator c = false ∧ c ≠ '/' ∧ c ≠ '<' ∧ c ≠ '-' := by
  have hfacts : rowMarks.all (fun d => decide ((NameChars.canStart d = false ∧
      NameChars.isAsciiDigit d = false ∧ d ≠ '\\' ∧ d ≠ '.' ∧ d ≠ '"' ∧ d ≠ '\'' ∧
      d ≠ backquote ∧ d ≠ '#') ∧ isLineEnd d = false ∧ isSeparator d = false ∧ d ≠ '/' ∧
      d ≠ '<' ∧ d ≠ '-')) = true := by
    decide +kernel
  exact of_decide_eq_true (List.all_eq_true.mp hfacts c hc)

theorem starts_of_rowMark {c : Char} (hc : c ∈ rowMarks) : Starts c := by
  obtain ⟨-, hline, hseparator, hdivide, hangle, hhyphen⟩ := rowMark_facts hc
  exact ⟨hline, hseparator, hdivide, hangle, hhyphen⟩

/-- A mark of one character is read as that. -/
theorem read_mark {c : Char} (hc : c ∈ rowMarks)
    (hmark : mark? (c :: rest) = some (String.singleton c)) (start : Nat) (newline : Bool)
    (position : Nat) :
    (read start newline position (c :: rest)).kind = .mark (String.singleton c) ∧
      (read start newline position (c :: rest)).rest = rest := by
  obtain ⟨⟨hstart, hdigit, hslash, hdot, hquote, hsingle, hback, hhash⟩, -⟩ := rowMark_facts hc
  unfold Token.read
  simp [hstart, hdigit, hslash, hdot, hquote, hsingle, hback, hhash, hmark]

private theorem of_mark {c : Char} (hc : c ∈ rowMarks)
    (hmark : mark? (c :: rest) = some (String.singleton c)) (h : Lexes rest kinds) :
    Lexes (c :: rest) (.mark (String.singleton c) :: kinds) :=
  of_read (starts_of_rowMark hc) (read_mark hc hmark) (Nat.le_refl _) h

/-- A mark that no other mark starts with. -/
theorem mark {c : Char} {text : String} (hc : c ∈ ['\x7b', '\x7d', ',', ';', '(', ')'])
    (htext : String.singleton c = text) (h : Lexes rest kinds) :
    Lexes (c :: rest) (.mark text :: kinds) := by
  rw [← htext]
  simp only [List.mem_cons, List.not_mem_nil, or_false] at hc
  rcases hc with rfl | rfl | rfl | rfl | rfl | rfl <;>
    exact of_mark (by decide) (by simp [mark?, marksFrom]) h

/-- A mark that other marks start with, before a blank. -/
theorem markBlank {c : Char} {text : String} (hc : c ∈ ['*', '='])
    (htext : String.singleton c = text) (h : Lexes rest kinds) :
    Lexes (c :: ' ' :: rest) (.mark text :: kinds) := by
  rw [← htext]
  have hblank : Lexes (' ' :: rest) kinds := h.blank (by decide)
  simp only [List.mem_cons, List.not_mem_nil, or_false] at hc
  rcases hc with rfl | rfl <;>
    exact of_mark (by decide) (by simp [mark?, marksFrom]) hblank

end Lexes

end SdkMigration
