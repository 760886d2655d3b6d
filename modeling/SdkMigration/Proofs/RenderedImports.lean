import SdkMigration.Mapping.BuiltIn
import SdkMigration.Proofs.Grammar.ImportRows
import SdkMigration.Proofs.RepeatedImports

/-!
# Declarations that are read back

The declarations that bindings call for, read as a program, bind what the bindings
bind, repeated imports being merged.  The one exception is an export for types only
whose name has to be quoted, among exports that are not all for types: the word
`type` stands before the quotes then, and the grammar has no such specifier.

The declarations are taken as lines (`declarations_eq_lines`), the lines are written as
tokens (`lexes_lines`), the tokens are read as the items of a program
(`exists_read_block`, `read_block_eq_none`), and the items bind what the lines bind
(`lines_bind`).  `Bindings.reads_back_iff` puts these together.
-/

namespace SdkMigration

open Declarations

/-! ## The lines of the declarations -/

/-- A declaration as it is written. -/
def ImportLine.text (module : String) : ImportLine → String
  | named list =>
    namedDeclaration module (list.map fun named => ⟨sameBinding named, named.isTypeOnly⟩)
  | whole name style => wholeDeclaration module { name, style }
  | sideEffect => "import " ++ quoted module ++ ";"

/-- The declarations that bindings call for. -/
def Bindings.lines (bindings : Bindings) (sideEffect : Bool) : List ImportLine :=
  let named := bindings.merged.named
  match (if named.isEmpty then [] else [ImportLine.named named]) ++
    bindings.merged.whole.map fun whole => .whole whole.name whole.style with
  | [] => if sideEffect then [.sideEffect] else []
  | lines => lines

theorem Bindings.declarations_eq_lines {bindings : Bindings}
    (htarget : ∀ named ∈ bindings.named, named.target = none) (module : String)
    (sideEffect : Bool) :
    bindings.declarations module sideEffect =
      (bindings.lines sideEffect).map (ImportLine.text module) := by
  have hwhole : (distinctAliases [] bindings.whole).map (wholeDeclaration module) =
      (bindings.merged.whole.map fun whole => ImportLine.whole whole.name whole.style).map
        (ImportLine.text module) := by
    rw [← distinctAliases_eq_merged]
    simp only [List.map_map]
    rfl
  unfold declarations lines
  simp only
  rw [specifiers_eq_merged htarget, hwhole]
  cases bindings.merged.named with
  | nil =>
    cases bindings.merged.whole with
    | nil => cases sideEffect <;> rfl
    | cons => rfl
  | cons => rfl

/-! ## The tokens of the declarations -/

section Lexing

variable {rest : List Char} {kinds : List TokenKind} {module : String}

private theorem apart_cons {c : Char} (hc : c ∈ [' ', ',', ';', '(', '"']) :
    Apart (c :: rest) := by
  have hall : [' ', ',', ';', '(', '"'].all (fun d =>
      decide (NameChars.canContinue d = false ∧ d ≠ '\\')) = true := by
    decide +kernel
  intro d hd
  obtain rfl : c = d := by simpa using hd
  exact of_decide_eq_true (List.all_eq_true.mp hall c hc)

/-- A word with the blank behind it. -/
private theorem lexes_word {name : String} (hname : isWord name = true) (h : Lexes rest kinds) :
    Lexes (name.toList ++ ' ' :: rest) (.word name false :: kinds) :=
  .word hname (apart_cons (by decide)) (h.blank (by decide))

/-- The words of declarations that name nothing. -/
private def importWords : List String := ["import", "type", "as", "from", "require"]

private theorem isWord_importWord {word : String} (hword : word ∈ importWords) :
    isWord word = true := by
  have hall : importWords.all isWord = true := by decide +kernel
  exact List.all_eq_true.mp hall word hword

private theorem lexes_importWord {word : String} (hword : word ∈ importWords)
    (h : Lexes rest kinds) : Lexes (word.toList ++ ' ' :: rest) (.word word false :: kinds) :=
  lexes_word (isWord_importWord hword) h

private theorem lexes_source (hmodule : IsOneLine module) (h : Lexes rest kinds) :
    Lexes ("from".toList ++ ' ' :: ((quoted module).toList ++ ';' :: rest))
      (ImportLine.sourceKinds module kinds) :=
  lexes_importWord (by simp [importWords]) (.quoted hmodule (.mark (by decide) (by decide) h))

private theorem lexes_exportedName {name : String} (hname : IsOneLine name) (hrest : Apart rest)
    (h : Lexes rest kinds) :
    Lexes ((exportedName name).toList ++ rest) (exportedKind name :: kinds) := by
  unfold exportedName exportedKind
  split
  · rename_i hplain
    exact .word (isWord_of_isPlainName hplain) hrest h
  · exact .quoted hname h

private theorem lexes_sameBinding {named : NamedImport} (hnamed : named.Spellable)
    (hrest : Apart rest) (h : Lexes rest kinds) :
    Lexes ((sameBinding named).toList ++ rest) (specifierKinds false named ++ kinds) := by
  have hlocal := hnamed.local_plain
  unfold sameBinding specifierKinds
  unfold NamedImport.localName at hlocal
  cases hrenamed : named.renamed with
  | none => exact lexes_exportedName hnamed.oneLine hrest h
  | some name =>
    rw [hrenamed] at hlocal
    have hlist : (exportedName named.exported ++ " as " ++ name).toList ++ rest =
        (exportedName named.exported).toList ++ ' ' ::
          ("as".toList ++ ' ' :: (name.toList ++ rest)) := by simp
    simp only [hlist]
    exact lexes_exportedName hnamed.oneLine (apart_cons (by decide))
      ((lexes_importWord (by simp [importWords])
        (.word (isWord_of_isPlainName hlocal) hrest h)).blank (by decide))

/-- A specifier as it is written in a declaration. -/
private def specifierText (marked : Bool) (named : NamedImport) : String :=
  if marked then "type " ++ sameBinding named else sameBinding named

private theorem lexes_specifier {named : NamedImport} (marked : Bool) (hnamed : named.Spellable)
    (hrest : Apart rest) (h : Lexes rest kinds) :
    Lexes ((specifierText marked named).toList ++ rest) (specifierKinds marked named ++ kinds) := by
  have hsame := lexes_sameBinding hnamed hrest h
  cases marked with
  | false => exact hsame
  | true =>
    have hlist : (specifierText true named).toList ++ rest =
        "type".toList ++ ' ' :: ((sameBinding named).toList ++ rest) := by
      simp [specifierText]
    rw [hlist]
    exact lexes_importWord (by simp [importWords]) hsame

private theorem lexes_braced {marked : NamedImport → Bool} {list : List NamedImport}
    (hlist : ∀ named ∈ list, named.Spellable) (h : Lexes rest kinds) :
    Lexes ((", ".intercalate (list.map fun named => specifierText (marked named) named)).toList ++
      ' ' :: '\x7d' :: rest) (Grammar.bracedKinds marked kinds list) := by
  have hclose : Lexes ('\x7d' :: rest) (.mark "\x7d" :: kinds) :=
    .mark (by decide) (by decide) h
  rw [String.toList_intercalate]
  induction list with
  | nil => exact hclose.blank (by decide)
  | cons named others ih =>
    have hnamed := hlist named List.mem_cons_self
    have hothers := ih fun other hother => hlist other (List.mem_cons_of_mem _ hother)
    cases others with
    | nil =>
      simp only [List.map_cons, List.map_nil, List.intercalate_singleton]
      exact lexes_specifier _ hnamed (apart_cons (by decide)) (hclose.blank (by decide))
    | cons second more =>
      simp only [List.map_cons, List.intercalate_cons_cons, List.append_assoc] at hothers ⊢
      exact lexes_specifier _ hnamed (apart_cons (by decide))
        (.mark (by decide) (by decide) (hothers.blank (by decide)))

/-- The declaration of single imports is read as its tokens. -/
private theorem lexes_named {list : List NamedImport} (hlist : ∀ named ∈ list, named.Spellable)
    (hmodule : IsOneLine module) (h : Lexes rest kinds) :
    Lexes (((ImportLine.named list).text module).toList ++ rest)
      (.word "import" false :: (ImportLine.named list).kinds module kinds) := by
  have hbraced : Lexes ('\x7b' :: ' ' :: ((", ".intercalate (list.map fun named =>
        specifierText (ImportLine.marks list named) named)).toList ++ ' ' :: '\x7d' :: ' ' ::
          ("from".toList ++ ' ' :: ((quoted module).toList ++ ';' :: rest))))
      (.mark "\x7b" :: Grammar.bracedKinds (ImportLine.marks list)
        (ImportLine.sourceKinds module kinds) list) :=
    .mark (by decide) (by decide)
      ((lexes_braced hlist ((lexes_source hmodule h).blank (by decide))).blank (by decide))
  have htext : ((ImportLine.named list).text module).toList ++ rest =
      "import".toList ++ ' ' :: ((if ImportLine.allTypeOnly list then "type " else "").toList ++
        '\x7b' :: ' ' :: ((", ".intercalate (list.map fun named =>
          specifierText (ImportLine.marks list named) named)).toList ++ ' ' :: '\x7d' :: ' ' ::
            ("from".toList ++ ' ' :: ((quoted module).toList ++ ';' :: rest)))) := by
    have hone : (list.map fun named => (⟨sameBinding named, named.isTypeOnly⟩ : Specifier)).all
        (·.isTypeOnly) = ImportLine.allTypeOnly list := by
      rw [List.all_map]
      rfl
    unfold ImportLine.text namedDeclaration
    simp only [hone, List.map_map]
    simp [Function.comp_def, specifierText, ImportLine.marks]
  rw [htext]
  refine lexes_importWord (by simp [importWords]) ?_
  rw [ImportLine.kinds]
  cases ImportLine.allTypeOnly list with
  | false => simpa using hbraced
  | true =>
    have hword : "type" ∈ importWords := by simp [importWords]
    simpa using lexes_importWord hword hbraced

/-- A declaration is read as its tokens. -/
theorem ImportLine.Spellable.lexes {line : ImportLine} (hline : line.Spellable)
    (hmodule : IsOneLine module) (h : Lexes rest kinds) :
    Lexes ((line.text module).toList ++ rest)
      (.word "import" false :: line.kinds module kinds) := by
  cases line with
  | named list => exact lexes_named hline hmodule h
  | whole name style =>
    have hname := isWord_of_isPlainName hline
    have hsource := lexes_source hmodule h
    cases style with
    | «default» =>
      have htext : ((ImportLine.whole name .default).text module).toList ++ rest =
          "import".toList ++ ' ' :: (name.toList ++ ' ' ::
            ("from".toList ++ ' ' :: ((quoted module).toList ++ ';' :: rest))) := by
        simp [ImportLine.text, wholeDeclaration]
      rw [htext]
      exact lexes_importWord (by simp [importWords]) (lexes_word hname hsource)
    | «namespace» =>
      have htext : ((ImportLine.whole name .namespace).text module).toList ++ rest =
          "import".toList ++ ' ' :: '*' :: ' ' :: ("as".toList ++ ' ' :: (name.toList ++ ' ' ::
            ("from".toList ++ ' ' :: ((quoted module).toList ++ ';' :: rest)))) := by
        simp [ImportLine.text, wholeDeclaration]
      rw [htext]
      exact lexes_importWord (by simp [importWords]) (.markBlank (by decide) (by decide)
        (lexes_importWord (by simp [importWords]) (lexes_word hname hsource)))
    | requireEquals =>
      have htext : ((ImportLine.whole name .requireEquals).text module).toList ++ rest =
          "import".toList ++ ' ' :: (name.toList ++ ' ' :: '=' :: ' ' ::
            ("require".toList ++ '(' :: ((quoted module).toList ++ ')' :: ';' :: rest))) := by
        simp [ImportLine.text, wholeDeclaration]
      rw [htext]
      refine lexes_importWord (by simp [importWords])
        (lexes_word hname (.markBlank (by decide) (by decide) ?_))
      refine .word (isWord_importWord (by simp [importWords])) (apart_cons (by decide)) ?_
      exact .mark (by decide) (by decide) (.quoted hmodule
        (.mark (by decide) (by decide) (.mark (by decide) (by decide) h)))
  | sideEffect =>
    have htext : (ImportLine.sideEffect.text module).toList ++ rest =
        "import".toList ++ ' ' :: ((quoted module).toList ++ ';' :: rest) := by
      simp [ImportLine.text]
    rw [htext]
    exact lexes_importWord (by simp [importWords])
      (.quoted hmodule (.mark (by decide) (by decide) h))

/-- Declarations, one a line, are read as their tokens. -/
theorem lexes_lines {lines : List ImportLine} (hlines : ∀ line ∈ lines, line.Spellable)
    (hmodule : IsOneLine module) :
    Lexes ("\n".intercalate (lines.map (ImportLine.text module))).toList
      (ImportLine.allKinds module lines) := by
  rw [String.toList_intercalate]
  induction lines with
  | nil => exact .nil
  | cons line others ih =>
    have hline := hlines line List.mem_cons_self
    have hothers := ih fun other hother => hlines other (List.mem_cons_of_mem _ hother)
    cases others with
    | nil => simpa [ImportLine.allKinds] using hline.lexes hmodule .nil
    | cons second more =>
      simp only [List.map_cons, List.intercalate_cons_cons, List.append_assoc] at hothers ⊢
      exact hline.lexes hmodule (hothers.blank (by decide))

end Lexing

/-! ## Reading the declarations -/

namespace ImportLine

variable {module : String} {lines : List ImportLine}

/-- Declarations, one a line. -/
def block (module : String) (lines : List ImportLine) : Text :=
  ("\n".intercalate (lines.map (text module))).toList

theorem toList_text (line : ImportLine) (module : String) :
    ∃ rest, (line.text module).toList = 'i' :: rest := by
  cases line with
  | named list =>
    unfold text namedDeclaration
    simp only [String.append_assoc, String.toList_append]
    exact ⟨_, rfl⟩
  | whole name style =>
    unfold text wholeDeclaration
    simp only [String.append_assoc, String.toList_append]
    exact ⟨_, rfl⟩
  | sideEffect =>
    unfold text
    simp only [String.append_assoc, String.toList_append]
    exact ⟨_, rfl⟩

theorem afterInterpreterLine_block : Program.afterInterpreterLine (block module lines) = 0 := by
  unfold block
  rw [String.toList_intercalate]
  cases lines with
  | nil => rfl
  | cons line rest =>
    obtain ⟨behind, htext⟩ := line.toList_text module
    cases rest with
    | nil => simp [htext, Program.afterInterpreterLine]
    | cons => simp [htext, Program.afterInterpreterLine, List.intercalate_cons_cons]

variable {dialect : Dialect}

private theorem faces_block (hlines : ∀ line ∈ lines, line.Spellable) (hmodule : IsOneLine module)
    (htypes : dialect.types = true) (hmodules : dialect.modules = true) (start : Nat) :
    (⟨Token.scan start (block module lines), 0, dialect, {}⟩ : ReaderState).Faces
      (allKinds module lines) :=
  ⟨htypes, hmodules, (lexes_lines hlines hmodule).heads _ _⟩

private theorem read_block_eq : Program.read? dialect (block module lines) =
    (Program.readItems (Grammar.reader (Grammar.fuelFor (block module lines).length) .moduleItem)
      (Grammar.fuelFor (block module lines).length)
      ⟨Token.scan 0 (block module lines), 0, dialect, {}⟩).map fun found => ⟨found.1⟩ := by
  unfold Program.read?
  rw [afterInterpreterLine_block]
  exact Option.map_eq_bind.symm

/-- Declarations are read as the items of a program. -/
theorem exists_read_block (hlines : ∀ line ∈ lines, line.Spellable)
    (hlegible : ∀ line ∈ lines, line.Legible) (hmodule : IsOneLine module)
    (htypes : dialect.types = true) (hmodules : dialect.modules = true) :
    ∃ program, Program.read? dialect (block module lines) = some program ∧
      List.Forall₂ (Grammar.ItemReads module) lines program.items := by
  have hroom := (lexes_lines hlines hmodule).length_le
  obtain ⟨hlength, hsize⟩ := length_allKinds module lines
  generalize hfuel : Grammar.fuelFor (block module lines).length = fuel
  unfold Grammar.fuelFor at hfuel
  have hlines_lt : lines.length < fuel := by
    unfold block at hfuel
    omega
  obtain ⟨less, rfl⟩ := Nat.exists_eq_succ_of_ne_zero (Nat.ne_of_gt (Nat.zero_lt_of_lt hlines_lt))
  -- The bound grows with the text, which has more tokens than a declaration specifiers.
  have hitem : ∀ line ∈ lines, ∀ after, Reader.Takes (Grammar.reader (less + 1) .moduleItem)
      (.word "import" false :: line.kinds module after) after (Grammar.ItemReads module line) := by
    intro line hline after
    have hline_lt : line.size < less := by
      have := hsize line hline
      unfold block at hfuel
      omega
    exact Grammar.takes_moduleItem (hlines line hline) (hlegible line hline) hline_lt
  obtain ⟨items, next, hrun, -, hitems⟩ := Program.takes_readItems hitem hlines_lt _
    (faces_block hlines hmodule htypes hmodules 0)
  refine ⟨⟨items⟩, ?_, hitems⟩
  rw [read_block_eq, Grammar.fuelFor, hfuel, hrun]
  rfl

/-- Declarations are not read when the first one has a mark before a name in quotes. -/
theorem read_block_eq_none {list : List NamedImport}
    (hlines : ∀ line ∈ ImportLine.named list :: lines, line.Spellable)
    (hillegible : ¬(ImportLine.named list).Legible) (hmodule : IsOneLine module)
    (htypes : dialect.types = true) (hmodules : dialect.modules = true) :
    Program.read? dialect (block module (.named list :: lines)) = none := by
  generalize hfuel : Grammar.fuelFor (block module (.named list :: lines)).length = fuel
  have hpositive : fuel ≠ 0 := by
    unfold Grammar.fuelFor at hfuel
    omega
  obtain ⟨less, rfl⟩ := Nat.exists_eq_succ_of_ne_zero hpositive
  have hitem : Reader.Refuses (Grammar.reader (less + 1) .moduleItem)
      (.word "import" false :: (ImportLine.named list).kinds module (allKinds module lines)) :=
    Grammar.refuses_moduleItem (hlines _ List.mem_cons_self) hillegible
  have hrun := Program.refuses_readItems hitem (less + 1) _
    (faces_block hlines hmodule htypes hmodules 0)
  rw [read_block_eq, hfuel, hrun]
  rfl

/-! ## What the declarations bind -/

/-- The single imports that a declaration binds. -/
def namedImports : ImportLine → List NamedImport
  | named list => list.map fun named => named.bound named.isTypeOnly
  | _ => []

/-- The aliases that a declaration binds. -/
def wholeImports : ImportLine → List WholeImport
  | whole name style => [{ name, style }]
  | _ => []

end ImportLine

namespace Grammar

open ImportLine

variable {module : String}

private theorem filterMap_named {list : List NamedImport} {marked : NamedImport → Bool}
    {found : List ImportSpecifier}
    (h : List.Forall₂ (fun named => ImportSpecifier.Binds (marked named) named) list found)
    (declared : Bool) :
    found.filterMap (·.named? declared) =
        list.map (fun named => named.bound (declared || marked named)) ∧
      found.filterMap (·.whole?) = [] := by
  induction h with
  | nil => exact ⟨rfl, rfl⟩
  | cons hfirst _ ih =>
    rw [List.filterMap_cons, List.filterMap_cons, hfirst.named_eq, hfirst.whole_eq, ih.1, ih.2]
    exact ⟨rfl, rfl⟩

/-- A specifier is for types only when it is marked, or all of them together are. -/
private theorem isTypeOnly_eq {list : List NamedImport} {named : NamedImport}
    (h : named ∈ list) : (allTypeOnly list || marks list named) = named.isTypeOnly := by
  unfold marks
  cases hall : allTypeOnly list with
  | false => simp
  | true => simpa using (List.all_eq_true.mp hall named h).symm

theorem ItemReads.moduleImport {line : ImportLine} {item : Tree} (h : ItemReads module line item) :
    ∃ found, item.moduleImport? module = some found ∧ found.named = line.namedImports ∧
      found.whole = line.wholeImports := by
  obtain ⟨start, tree, rfl, hreads⟩ := h
  cases hreads with
  | @named list found source isTypeOnly specifiers =>
    obtain ⟨hnamed, hwhole⟩ := filterMap_named specifiers found.isTypeOnly
    refine ⟨_, if_pos source, ?_, hwhole⟩
    refine hnamed.trans (List.map_congr_left fun named hmem => ?_)
    rw [isTypeOnly, isTypeOnly_eq hmem]
  | «default» => exact ⟨_, if_pos rfl, rfl, rfl⟩
  | «namespace» => exact ⟨_, if_pos rfl, rfl, rfl⟩
  | requireEquals => exact ⟨_, if_pos ⟨rfl, rfl⟩, rfl, rfl⟩
  | sideEffect => exact ⟨_, if_pos rfl, rfl, rfl⟩

private theorem flatMap_of_itemReads {lines : List ImportLine} {items : List Tree}
    (h : List.Forall₂ (ItemReads module) lines items) :
    (items.filterMap (·.moduleImport? module)).flatMap (·.named) = lines.flatMap namedImports ∧
      (items.filterMap (·.moduleImport? module)).flatMap (·.whole) =
        lines.flatMap wholeImports := by
  induction h with
  | nil => exact ⟨rfl, rfl⟩
  | cons hfirst _ ih =>
    obtain ⟨found, hsome, hnamed, hwhole⟩ := hfirst.moduleImport
    rw [List.filterMap_cons, hsome]
    simp only [List.flatMap_cons]
    rw [hnamed, hwhole, ih.1, ih.2]
    exact ⟨rfl, rfl⟩

/-- The items that declarations are read as bind what the declarations bind. -/
theorem bindings_of_itemReads {lines : List ImportLine} {program : Program}
    (h : List.Forall₂ (ItemReads module) lines program.items) (body : Text)
    (globalName : String) :
    (program.importSites body module globalName).bindings =
      ⟨lines.flatMap namedImports, lines.flatMap wholeImports⟩ := by
  obtain ⟨hnamed, hwhole⟩ := flatMap_of_itemReads h
  exact congrArg₂ Bindings.mk (Program.named_eq.trans hnamed) (Program.whole_eq.trans hwhole)

end Grammar

namespace Bindings

variable {bindings : Bindings} {sideEffect : Bool}

theorem mem_lines {line : ImportLine} (h : line ∈ bindings.lines sideEffect) :
    line = .named bindings.merged.named ∨
      (∃ whole ∈ bindings.merged.whole, line = .whole whole.name whole.style) ∨
      line = .sideEffect := by
  unfold lines at h
  simp only at h
  split at h
  · split at h
    · exact Or.inr (Or.inr (List.mem_singleton.mp h))
    · cases h
  · rcases List.mem_append.mp h with h | h
    · split at h
      · cases h
      · exact Or.inl (List.mem_singleton.mp h)
    · obtain ⟨whole, hwhole, rfl⟩ := List.mem_map.mp h
      exact Or.inr (Or.inl ⟨whole, hwhole, rfl⟩)

private theorem flatMap_lines (contribution : ImportLine → List α)
    (hnone : contribution .sideEffect = []) :
    (bindings.lines sideEffect).flatMap contribution =
      (if bindings.merged.named.isEmpty then [] else contribution (.named bindings.merged.named)) ++
        bindings.merged.whole.flatMap fun whole =>
          contribution (.whole whole.name whole.style) := by
  unfold lines
  simp only
  cases bindings.merged.named with
  | nil =>
    cases bindings.merged.whole with
    | nil => cases sideEffect <;> simp [hnone]
    | cons => simp [List.flatMap_map]
  | cons => simp [List.flatMap_map]

private theorem named_lines :
    (bindings.lines sideEffect).flatMap ImportLine.namedImports = bindings.merged.named := by
  have hbound : bindings.merged.named.map (fun named => named.bound named.isTypeOnly) =
      bindings.merged.named := by
    refine (List.map_congr_left fun named hnamed => ?_).trans (List.map_id _)
    obtain ⟨first, -, rfl⟩ := mem_merged_named.mp hnamed
    rfl
  have hnone : (bindings.merged.whole.flatMap fun whole =>
      ImportLine.namedImports (.whole whole.name whole.style)) = [] := by
    simp [ImportLine.namedImports]
  rw [flatMap_lines _ rfl, hnone, List.append_nil]
  split
  · rename_i hempty
    rw [List.isEmpty_iff.mp hempty]
  · exact hbound

private theorem whole_lines :
    (bindings.lines sideEffect).flatMap ImportLine.wholeImports = bindings.merged.whole := by
  have hplain : bindings.merged.whole.map (fun whole =>
      ({ name := whole.name, style := whole.style } : WholeImport)) = bindings.merged.whole := by
    refine (List.map_congr_left fun whole hwhole => ?_).trans (List.map_id _)
    obtain ⟨first, -, rfl⟩ := mem_merged_whole hwhole
    rfl
  rw [flatMap_lines _ rfl]
  simp only [ImportLine.wholeImports, ite_self, List.nil_append]
  rw [← List.map_eq_flatMap, hplain]

/-- The declarations bind the merged imports. -/
theorem lines_bind : (⟨(bindings.lines sideEffect).flatMap ImportLine.namedImports,
    (bindings.lines sideEffect).flatMap ImportLine.wholeImports⟩ : Bindings) = bindings.merged :=
  congrArg₂ Bindings.mk named_lines whole_lines

/-! ## Reading back -/

/-- Whether no export for types only has to be quoted, unless all single imports are for
types only. -/
def Legible (bindings : Bindings) : Prop :=
  (∀ named ∈ bindings.merged.named, named.isTypeOnly = true) ∨
    ∀ named ∈ bindings.merged.named, named.isTypeOnly = true →
      isPlainName named.exported = true

theorem legible_iff : bindings.Legible ↔ (ImportLine.named bindings.merged.named).Legible := by
  change _ ↔ ∀ named ∈ bindings.merged.named,
    (named.isTypeOnly && !bindings.merged.named.all (·.isTypeOnly)) = true →
      isPlainName named.exported = true
  unfold Legible
  rw [← List.all_eq_true]
  generalize hall : bindings.merged.named.all (·.isTypeOnly) = all
  cases all with
  | true => simp
  | false => simp

/-- Single imports that are not legible are declared first. -/
theorem lines_of_not_legible (h : ¬(ImportLine.named bindings.merged.named).Legible)
    (sideEffect : Bool) :
    ∃ rest, bindings.lines sideEffect = .named bindings.merged.named :: rest := by
  unfold lines
  simp only
  cases hnamed : bindings.merged.named with
  | nil =>
    rw [hnamed] at h
    exact absurd (fun _ hmem => absurd hmem List.not_mem_nil) h
  | cons first rest => exact ⟨_, rfl⟩

theorem spellable_lines (hnamed : ∀ named ∈ bindings.named, named.Spellable)
    (hwhole : ∀ whole ∈ bindings.whole, isPlainName whole.name = true) (sideEffect : Bool) :
    ∀ line ∈ bindings.lines sideEffect, line.Spellable := by
  intro line hline
  rcases mem_lines hline with rfl | ⟨whole, hmem, rfl⟩ | rfl
  · intro named hmem
    obtain ⟨first, hfirst, rfl⟩ := mem_merged_named.mp hmem
    obtain ⟨hlocal, hrenamed, honeLine⟩ := hnamed first hfirst
    exact ⟨hlocal, hrenamed, honeLine⟩
  · obtain ⟨first, hfirst, rfl⟩ := mem_merged_whole hmem
    exact hwhole first hfirst
  · trivial

section Reading

variable {module : String} {dialect : Dialect}

theorem block_eq_lines (htarget : ∀ named ∈ bindings.named, named.target = none) :
    ("\n".intercalate (bindings.declarations module sideEffect)).toList =
      ImportLine.block module (bindings.lines sideEffect) := by
  unfold ImportLine.block
  rw [declarations_eq_lines htarget]

/-- The declarations of legible bindings are read line by line. -/
theorem exists_read_lines (hnamed : ∀ named ∈ bindings.named, named.Spellable)
    (hwhole : ∀ whole ∈ bindings.whole, isPlainName whole.name = true)
    (hmodule : IsOneLine module) (htypes : dialect.types = true)
    (hmodules : dialect.modules = true) (hlegible : bindings.Legible) (sideEffect : Bool) :
    ∃ program, Program.read? dialect (ImportLine.block module (bindings.lines sideEffect)) =
        some program ∧
      List.Forall₂ (Grammar.ItemReads module) (bindings.lines sideEffect) program.items := by
  refine ImportLine.exists_read_block (spellable_lines hnamed hwhole _) (fun line hline => ?_)
    hmodule htypes hmodules
  rcases mem_lines hline with rfl | ⟨whole, -, rfl⟩ | rfl
  · exact legible_iff.mp hlegible
  · trivial
  · trivial

/-- The declarations of bindings that are not legible are no program. -/
theorem legible_of_read_lines (hnamed : ∀ named ∈ bindings.named, named.Spellable)
    (hwhole : ∀ whole ∈ bindings.whole, isPlainName whole.name = true)
    (hmodule : IsOneLine module) (htypes : dialect.types = true)
    (hmodules : dialect.modules = true) {program : Program}
    (hread : Program.read? dialect (ImportLine.block module (bindings.lines sideEffect)) =
      some program) : bindings.Legible := by
  by_contra hillegible
  rw [legible_iff] at hillegible
  have hspellable := spellable_lines hnamed hwhole sideEffect
  obtain ⟨rest, hlines⟩ := lines_of_not_legible hillegible sideEffect
  rw [hlines] at hread hspellable
  rw [ImportLine.read_block_eq_none hspellable hillegible hmodule htypes hmodules] at hread
  cases hread

/-- The declarations for imports that were not moved are a program, and this program
binds the same imports, repeated ones being merged, exactly when the bindings are
legible. -/
theorem reads_back_iff {globalName : String}
    (htarget : ∀ named ∈ bindings.named, named.target = none)
    (hnamed : ∀ named ∈ bindings.named, named.Spellable)
    (hwhole : ∀ whole ∈ bindings.whole, isPlainName whole.name = true)
    (hmodule : IsOneLine module) (htypes : dialect.types = true)
    (hmodules : dialect.modules = true) :
    let block := ("\n".intercalate (bindings.declarations module sideEffect)).toList
    (∃ program, Program.read? dialect block = some program ∧
      (program.importSites block module globalName).bindings = bindings.merged) ↔
        bindings.Legible := by
  intro block
  have hblock : block = ImportLine.block module (bindings.lines sideEffect) :=
    block_eq_lines htarget
  rw [hblock]
  constructor
  · rintro ⟨program, hread, -⟩
    exact legible_of_read_lines hnamed hwhole hmodule htypes hmodules hread
  · intro hlegible
    obtain ⟨program, hread, hitems⟩ :=
      exists_read_lines hnamed hwhole hmodule htypes hmodules hlegible sideEffect
    exact ⟨program, hread, (Grammar.bindings_of_itemReads hitems _ _).trans lines_bind⟩

end Reading

end Bindings

/-- Bindings with repeated imports, a name that is quoted, and the words that
specifiers are written with for names. -/
private def mixedBindings : Bindings where
  named := [{ exported := "A", isTypeOnly := true }, { exported := "b", renamed := some "c" },
    { exported := "odd \"name\"", renamed := some "d" }, { exported := "A" },
    { exported := "type", renamed := some "as", isTypeOnly := true }]
  whole := [{ name := "from", style := .requireEquals }, { name := "e", style := .namespace },
    { name := "from", style := .default }]

private theorem mixedBindings_facts :
    (∀ named ∈ mixedBindings.named, named.target = none ∧ named.Spellable) ∧
      (∀ whole ∈ mixedBindings.whole, isPlainName whole.name = true) ∧
      mixedBindings.declarations "legacy" false =
        ["import \x7b A, b as c, \"odd \\\"name\\\"\" as d, type type as as \x7d from \"legacy\";",
          "import from = require(\"legacy\");", "import * as e from \"legacy\";"] ∧
      mixedBindings.merged.named.map (·.isTypeOnly) = [false, false, false, true] ∧
      IsOneLine "legacy" ∧
      ∀ named ∈ mixedBindings.merged.named, named.isTypeOnly = true →
        isPlainName named.exported = true := by
  decide +kernel

/-- The declarations for these bindings are read back. -/
theorem mixedBindings_read_back :
    (∀ named ∈ mixedBindings.named, named.target = none ∧ named.Spellable) ∧
      ∃ program, Program.read? ⟨true, false, true⟩
          ("\n".intercalate (mixedBindings.declarations "legacy" false)).toList = some program ∧
        (program.importSites ("\n".intercalate (mixedBindings.declarations "legacy" false)).toList
          "legacy" defaultAlias).bindings = mixedBindings.merged := by
  obtain ⟨hnamed, hwhole, -, -, hmodule, hlegible⟩ := mixedBindings_facts
  exact ⟨hnamed, (Bindings.reads_back_iff (fun named h => (hnamed named h).1)
    (fun named h => (hnamed named h).2) hwhole hmodule rfl rfl).mpr (Or.inr hlegible)⟩

/-- A file that imports the default export for types only, and another export. -/
private def quotedTypeFile : Text :=
  "import type \x7b default as Teams \x7d from \"legacy\";\nimport \x7b zzz \x7d from \"legacy\";\n".toList

/-- What the file imports is written as one declaration. -/
private def quotedTypeLine : String :=
  "import \x7b type \"default\" as Teams, zzz \x7d from \"legacy\";"

private theorem quotedTypeFile_facts :
    (Program.read? ⟨true, false, true⟩ quotedTypeFile).isSome = true ∧
    (∀ program ∈ Program.read? ⟨true, false, true⟩ quotedTypeFile,
      let bindings := (program.importSites quotedTypeFile "legacy" defaultAlias).bindings
      (∀ named ∈ bindings.named, named.target = none ∧ named.Spellable) ∧ bindings.whole = [] ∧
        bindings.declarations "legacy" false = [quotedTypeLine]) ∧
    (Program.read? ⟨true, false, true⟩ quotedTypeLine.toList).isNone = true := by
  decide +kernel

/-- The declaration for what the file imports is no program. -/
theorem quotedTypeFile_not_read_back :
    ∃ program, Program.read? ⟨true, false, true⟩ quotedTypeFile = some program ∧
      let bindings := (program.importSites quotedTypeFile "legacy" defaultAlias).bindings
      (∀ named ∈ bindings.named, named.target = none ∧ named.Spellable) ∧ bindings.whole = [] ∧
        bindings.declarations "legacy" false = [quotedTypeLine] ∧
        Program.read? ⟨true, false, true⟩ quotedTypeLine.toList = none := by
  obtain ⟨hreads, hfacts, hnone⟩ := quotedTypeFile_facts
  obtain ⟨program, hread⟩ := Option.isSome_iff_exists.mp hreads
  obtain ⟨hnamed, hwhole, hlines⟩ := hfacts program hread
  exact ⟨program, hread, hnamed, hwhole, hlines, Option.isNone_iff_eq_none.mp hnone⟩

end SdkMigration
