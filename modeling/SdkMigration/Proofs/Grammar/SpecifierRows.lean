import SdkMigration.Import.Declarations
import SdkMigration.Proofs.Grammar.RowReaders
import SdkMigration.Proofs.ModuleImports

/-!
# Specifiers as rows of tokens

The specifier of a single import is one name, or two with the word `as` between them,
and a mark for types only may stand before it.  The words of a specifier are names
too: an export may be called `type` or `as`, and it is told from the words by what
comes behind it.  A name in quotes has no such reading, which is why a mark before
it is not read at all.
-/

namespace SdkMigration

/-! ## The tokens of a specifier -/

/-- Whether a single import can stand in a file: its name is plain, it is renamed
only to another name, and the name of the export has no line break. -/
structure NamedImport.Spellable (named : NamedImport) : Prop where
  local_plain : isPlainName named.localName = true
  renamed_ne : named.renamed ≠ some named.exported
  oneLine : IsOneLine named.exported

instance (named : NamedImport) : Decidable named.Spellable :=
  decidable_of_iff (isPlainName named.localName = true ∧ named.renamed ≠ some named.exported ∧
    IsOneLine named.exported)
    ⟨fun ⟨hlocal, hrenamed, honeLine⟩ => ⟨hlocal, hrenamed, honeLine⟩,
      fun h => ⟨h.local_plain, h.renamed_ne, h.oneLine⟩⟩

namespace Declarations

/-- The token that the name of an export is written as. -/
def exportedKind (name : String) : TokenKind :=
  if isPlainName name then .word name false else .string name

/-- The tokens that bind an export to another name. -/
def renamedKinds : Option String → List TokenKind
  | some name => [.word "as" false, .word name false]
  | none => []

/-- The tokens of the specifier for a single import, which is `marked` when the word
`type` stands before it. -/
def specifierKinds (marked : Bool) (named : NamedImport) : List TokenKind :=
  (if marked then [.word "type" false] else []) ++
    exportedKind named.exported :: renamedKinds named.renamed

end Declarations

theorem not_reserved_of_isPlainName {name : String} (h : isPlainName name = true) :
    reservedWords.contains name = false := by
  have hsubset : ∀ word ∈ reservedWords, word ∈ unusableNames := by decide
  rw [← Bool.not_eq_true]
  intro hreserved
  have hunusable := hsubset name (List.contains_iff_mem.mp hreserved)
  unfold isPlainName at h
  split at h
  · cases h
  · simp [hunusable] at h

/-- What a single import binds, as it is bound in a file. -/
def NamedImport.bound (named : NamedImport) (isTypeOnly : Bool) : NamedImport :=
  { exported := named.exported, renamed := named.renamed, isTypeOnly }

namespace NamedImport.Spellable

variable {named : NamedImport}

theorem exported_plain (h : named.Spellable) (hrenamed : named.renamed = none) :
    isPlainName named.exported = true := by
  have hlocal := h.local_plain
  unfold localName at hlocal
  rwa [hrenamed] at hlocal

theorem renamed_free (h : named.Spellable) :
    ∀ name ∈ named.renamed, reservedWords.contains name = false := by
  intro name hname
  have hlocal := h.local_plain
  unfold localName at hlocal
  rw [Option.mem_def.mp hname] at hlocal
  exact not_reserved_of_isPlainName hlocal

end NamedImport.Spellable

/-- Whether a specifier of a declaration binds what a single import binds. -/
structure ImportSpecifier.Binds (isTypeOnly : Bool) (named : NamedImport)
    (found : ImportSpecifier) : Prop where
  named_eq : ∀ declared, found.named? declared = some (named.bound (declared || isTypeOnly))
  whole_eq : found.whole? = none

namespace Grammar

open Declarations Reader

variable {after kinds : List TokenKind} {named : NamedImport}

/-! ## Reading a specifier -/

/-- Whether an exported name that was read is the given one. -/
inductive ExportedName.Spells (name : String) : ExportedName → Prop where
  | word {id : Identifier} (same : id.name = name) : Spells name (.word id)
  | quoted (quoted : isPlainName name = false) : Spells name (.quoted name)

theorem ExportedName.Spells.text_eq {name : String} {found : ExportedName}
    (h : found.Spells name) : found.text = name := by
  cases h with
  | word same => exact same
  | quoted => rfl

theorem takes_exportedName_word {name : String} {escaped : Bool} :
    Takes exportedName (.word name escaped :: kinds) kinds (·.Spells name) := by
  refine takes_peek.bind fun token hkind => ?_
  rw [frontKind_cons] at hkind
  simp only [hkind]
  exact takes_anyName.bind fun id hid => .pure (.word hid)

theorem takes_exportedName {name : String} :
    Takes exportedName (exportedKind name :: kinds) kinds (·.Spells name) := by
  unfold exportedKind
  split
  · exact takes_exportedName_word
  · rename_i hplain
    refine takes_peek.bind fun token hkind => ?_
    rw [frontKind_cons] at hkind
    simp only [hkind]
    exact takes_take.bind fun _ _ => .pure (.quoted (Bool.not_eq_true _ ▸ hplain))

/-- Whether a specifier that was read is the one for a single import. -/
structure Specifier.Binds (isTypeOnly : Bool) (named : NamedImport)
    (found : Specifier Identifier) : Prop where
  isTypeOnly : found.isTypeOnly = isTypeOnly
  name : found.name.Spells named.exported
  renamed : found.renamed.map (·.name) = named.renamed

/-- What no word is, is no keyword. -/
theorem isKeyword_of_not_isWord {kind : TokenKind} (h : kind.isWord = false) (name : String) :
    kind.isKeyword name = false := by
  cases kind with
  | word => cases h
  | _ => rfl

/-- The name behind `as`, and none where the specifier ends. -/
theorem takes_renamed (isTypeOnly : Bool) {name : ExportedName}
    (hname : name.Spells named.exported)
    (hrenamed : ∀ other ∈ named.renamed, reservedWords.contains other = false)
    (hafter : (frontKind after).isWord = false) :
    Takes (do
      if ← acceptWord "as" then return ⟨isTypeOnly, name, some (← variableName)⟩
      else return ⟨isTypeOnly, name, none⟩)
      (renamedKinds named.renamed ++ after) after (Specifier.Binds isTypeOnly named) := by
  cases hlocal : named.renamed with
  | none =>
    refine (takes_acceptWord_other ?_).bind fun found hfound => ?_
    · exact isKeyword_of_not_isWord hafter "as"
    · rw [hfound, if_neg Bool.false_ne_true]
      exact .pure ⟨rfl, hname, hlocal.symm⟩
  | some other =>
    refine (takes_acceptWord rfl).bind fun found hfound => ?_
    rw [hfound, if_pos rfl]
    exact (takes_variableName (hrenamed other hlocal)).bind fun id hid =>
      .pure ⟨rfl, hname, by rw [hlocal, Option.map_some, hid]⟩

/-- A specifier without a mark.  Where the export itself is called `type`, the word is
taken for a mark at first. -/
theorem takes_specifier_unmarked
    (hrenamed : ∀ other ∈ named.renamed, reservedWords.contains other = false)
    (hafter : (frontKind after).isWord = false) :
    Takes (specifier variableName) (specifierKinds false named ++ after) after
      (Specifier.Binds false named) := by
  unfold specifier
  simp only [specifierKinds, Bool.false_eq_true, if_false, List.nil_append, List.cons_append]
  refine takes_hasTypes.bind fun types htypes => (takes_atWord "type").bind fun type htype => ?_
  refine takes_exportedName.bind fun first hfirst => takes_peek.bind fun next hnext => ?_
  split
  · -- The export is called `type`, and what comes next could be the marked name.
    rename_i hmark
    rw [Bool.and_eq_true] at hmark
    cases hlocal : named.renamed with
    | none =>
      rw [hnext, hlocal] at hmark
      exact absurd hmark.2 (by simp [renamedKinds, hafter])
    | some other =>
      rw [hlocal] at hnext
      simp only [renamedKinds, List.cons_append, List.nil_append]
      refine takes_exportedName_word.bind fun second hsecond => ?_
      refine takes_peek.bind fun third hthird => ?_
      rw [hnext, hthird, if_pos (by rfl)]
      refine (takes_variableName (hrenamed other hlocal)).bind fun id hid => ?_
      refine takes_peek.bind fun last hlast => ?_
      -- It was `type as name`: no further name comes behind.
      rw [hlast, hafter, Bool.and_false, if_neg Bool.false_ne_true]
      exact .pure ⟨rfl, hfirst, by rw [hlocal, Option.map_some, hid]⟩
  · exact takes_renamed _ hfirst hrenamed hafter

/-- A specifier with a mark.  The export may be called `as`. -/
theorem takes_specifier_marked (hplain : isPlainName named.exported = true)
    (hrenamed : ∀ other ∈ named.renamed, reservedWords.contains other = false)
    (hafter : (frontKind after).isWord = false) :
    Takes (specifier variableName) (specifierKinds true named ++ after) after
      (Specifier.Binds true named) := by
  have hkind : exportedKind named.exported = .word named.exported false := by
    unfold exportedKind
    rw [if_pos hplain]
  unfold specifier
  simp only [specifierKinds, if_true, List.cons_append, List.nil_append]
  refine takes_hasTypes.bind fun types htypes => (takes_atWord "type").bind fun type htype => ?_
  refine takes_exportedName_word.bind fun first hfirst => takes_peek.bind fun next hnext => ?_
  rw [frontKind_cons, hkind] at hnext
  rw [htypes, htype, hnext, if_pos (by rfl)]
  refine takes_exportedName.bind fun second hsecond => takes_peek.bind fun third hthird => ?_
  cases hlocal : named.renamed with
  | none =>
    rw [hthird, hlocal]
    rw [if_neg (by simp [renamedKinds, hafter])]
    have hrest := takes_renamed true hsecond hrenamed hafter
    rwa [hlocal] at hrest
  | some other =>
    split
    · -- The export is called `as`: the first `as` is taken for the word, until another
      -- one comes behind the second.
      rw [hlocal] at hthird
      simp only [renamedKinds, List.cons_append, List.nil_append]
      refine (takes_variableName (by decide)).bind fun id _ => takes_peek.bind fun last hlast => ?_
      rw [hthird, hlast, if_pos (by rfl)]
      exact (takes_variableName (hrenamed other hlocal)).bind fun id hid =>
        .pure ⟨rfl, hsecond, by rw [hlocal, Option.map_some, hid]⟩
    · have hrest := takes_renamed true hsecond hrenamed hafter
      rwa [hlocal] at hrest

theorem takes_importSpecifier {marked : Bool} (hnamed : named.Spellable)
    (hmarked : marked = true → isPlainName named.exported = true)
    (hafter : (frontKind after).isWord = false) :
    Takes importSpecifier (specifierKinds marked named ++ after) after
      (ImportSpecifier.Binds marked named) := by
  have hspecifier : Takes (specifier variableName) (specifierKinds marked named ++ after) after
      (Specifier.Binds marked named) := by
    cases marked with
    | false => exact takes_specifier_unmarked hnamed.renamed_free hafter
    | true => exact takes_specifier_marked (hmarked rfl) hnamed.renamed_free hafter
  refine hspecifier.bind fun found hfound => ?_
  obtain ⟨isTypeOnly, name, renamed⟩ := found
  obtain ⟨rfl, hname, hrenamed⟩ := hfound
  cases renamed with
  | some id =>
    refine .pure ⟨fun declared => ?_, rfl⟩
    have hid : named.renamed = some id.name := hrenamed.symm
    have hother : id.name ≠ named.exported := fun h => hnamed.renamed_ne (h ▸ hid)
    simp [ImportSpecifier.named?, NamedImport.bound, hname.text_eq, hother, hid]
  | none =>
    have hplain := hnamed.exported_plain hrenamed.symm
    cases hname with
    | quoted hquoted => simp [hplain] at hquoted
    | @word id hid =>
      refine (takes_require ?_).bind fun _ _ => .pure ⟨fun declared => ?_, rfl⟩
      · rw [hid, not_reserved_of_isPlainName hplain]
        rfl
      · have hnone : named.renamed = none := hrenamed.symm
        simp [ImportSpecifier.named?, NamedImport.bound, hid, hnone]

/-- A mark before a name in quotes is taken for the name itself, and the quotes are
left. -/
theorem refuses_quoted {β : Type} {rest : ImportSpecifier → Reader β}
    (hplain : isPlainName named.exported = false)
    (hrest : ∀ found others, Refuses (rest found) (.string named.exported :: others)) :
    Refuses (importSpecifier >>= rest) (specifierKinds true named ++ after) := by
  have hkind : exportedKind named.exported = .string named.exported := by
    unfold exportedKind
    simp [hplain]
  have hspecifier : Takes (specifier variableName) (specifierKinds true named ++ after)
      (.string named.exported :: (renamedKinds named.renamed ++ after))
      fun found => found.renamed = none := by
    unfold specifier
    simp only [specifierKinds, if_true, List.cons_append, List.nil_append, hkind]
    refine takes_hasTypes.bind fun types htypes => (takes_atWord "type").bind fun type htype => ?_
    refine takes_exportedName_word.bind fun first hfirst => takes_peek.bind fun next hnext => ?_
    rw [hnext, if_neg (by simp [TokenKind.isWord])]
    refine (takes_acceptWord_other rfl).bind fun found hfound => ?_
    rw [hfound, if_neg Bool.false_ne_true]
    exact .pure rfl
  unfold importSpecifier
  rw [bind_assoc]
  refine .bind hspecifier fun found hfound => ?_
  obtain ⟨isTypeOnly, name, renamed⟩ := found
  obtain rfl : renamed = none := hfound
  cases name with
  | quoted value => exact .bind_left refuses_failure
  | word id =>
    by_cases hreserved : reservedWords.contains id.name = true
    · exact .bind_left (.bind_left (refuses_require (by simp [List.contains_iff_mem.mp hreserved])))
    · rw [bind_assoc]
      refine .bind (takes_require (by simpa using hreserved)) fun _ _ => ?_
      exact hrest _ _

/-! ## Reading the specifiers between braces -/

/-- The tokens of specifiers behind their opening brace, `marked` telling which of
them have the word `type` before them. -/
def bracedKinds (marked : NamedImport → Bool) (after : List TokenKind) :
    List NamedImport → List TokenKind
  | [] => .mark "\x7d" :: after
  | named :: rest =>
    specifierKinds (marked named) named ++
      ((if rest.isEmpty then [] else [.mark ","]) ++ bracedKinds marked after rest)

variable {marked : NamedImport → Bool} {list rest : List NamedImport}

/-- A comma stands behind a specifier, or the closing brace does. -/
theorem takes_separator : Takes (separator "\x7d")
    ((if rest.isEmpty then [] else [.mark ","]) ++ bracedKinds marked after rest)
    (bracedKinds marked after rest) fun _ => True := by
  refine (takes_atMark _).bind fun found hfound => ?_
  rw [hfound]
  cases rest with
  | nil => exact .pure trivial
  | cons => exact takes_expect rfl

theorem isWord_behind_specifier : (frontKind
    ((if rest.isEmpty then [] else [.mark ","]) ++ bracedKinds marked after rest)).isWord =
      false := by
  cases rest with
  | nil => rfl
  | cons => rfl

theorem isMark_specifierKinds (flag : Bool) (text : String) :
    (frontKind (specifierKinds flag named ++ after)).isMark text = false := by
  unfold specifierKinds exportedKind
  cases flag with
  | true => rfl
  | false => cases isPlainName named.exported <;> rfl

/-- Specifiers are read when none is marked before a name in quotes. -/
theorem takes_bracedItems (hlist : ∀ named ∈ list, named.Spellable)
    (hmarked : ∀ named ∈ list, marked named = true → isPlainName named.exported = true)
    {fuel : Nat} (hfuel : list.length < fuel) :
    Takes (bracedItems importSpecifier fuel) (bracedKinds marked after list) after
      fun found => List.Forall₂ (fun named => ImportSpecifier.Binds (marked named) named)
        list found := by
  induction list generalizing fuel with
  | nil =>
    obtain ⟨fuel, rfl⟩ := Nat.exists_eq_succ_of_ne_zero (Nat.ne_of_gt hfuel)
    refine (takes_accept rfl).bind fun found hfound => ?_
    rw [hfound, if_pos rfl]
    exact .pure .nil
  | cons named others ih =>
    obtain ⟨fuel, rfl⟩ := Nat.exists_eq_succ_of_ne_zero (Nat.ne_of_gt (Nat.zero_lt_of_lt hfuel))
    refine (takes_accept_other (isMark_specifierKinds _ _)).bind fun found hfound => ?_
    rw [hfound, if_neg Bool.false_ne_true]
    refine (takes_importSpecifier (hlist named List.mem_cons_self)
      (hmarked named List.mem_cons_self) isWord_behind_specifier).bind fun first hfirst => ?_
    refine takes_separator.bind fun _ _ => ?_
    refine (ih (fun other hother => hlist other (List.mem_cons_of_mem _ hother))
      (fun other hother => hmarked other (List.mem_cons_of_mem _ hother))
      (Nat.lt_of_succ_lt_succ hfuel)).bind fun found hfound => ?_
    exact .pure (.cons hfirst hfound)

/-- Specifiers are not read when one is marked before a name in quotes. -/
theorem refuses_bracedItems (hlist : ∀ named ∈ list, named.Spellable)
    (hbad : ∃ named ∈ list, marked named = true ∧ isPlainName named.exported = false)
    (fuel : Nat) : Refuses (bracedItems importSpecifier fuel) (bracedKinds marked after list) := by
  induction list generalizing fuel with
  | nil =>
    obtain ⟨_, hnone, _⟩ := hbad
    cases hnone
  | cons named others ih =>
    cases fuel with
    | zero => exact refuses_failure
    | succ fuel =>
      refine .bind (takes_accept_other (isMark_specifierKinds _ _)) fun found hfound => ?_
      rw [hfound, if_neg Bool.false_ne_true]
      -- The reader fails at the first bad specifier, so the others before it are taken.
      by_cases hfirst : marked named = true ∧ isPlainName named.exported = false
      · unfold bracedKinds
        rw [hfirst.1]
        refine refuses_quoted hfirst.2 fun _ others => .bind_left ?_
        refine .bind (takes_atMark _) fun found hfound => ?_
        rw [hfound]
        exact refuses_expect rfl
      · have hmarked : marked named = true → isPlainName named.exported = true := by
          intro h
          simpa [h] using hfirst
        obtain ⟨bad, hmem, hbad⟩ := hbad
        have hothers : bad ∈ others := by
          rcases List.mem_cons.mp hmem with rfl | hmem
          · exact absurd hbad hfirst
          · exact hmem
        refine .bind (takes_importSpecifier (hlist named List.mem_cons_self) hmarked
          isWord_behind_specifier) fun _ _ => .bind takes_separator fun _ _ => .bind_left ?_
        exact ih (fun other hother => hlist other (List.mem_cons_of_mem _ hother))
          ⟨bad, hothers, hbad⟩ fuel

end Grammar

end SdkMigration
