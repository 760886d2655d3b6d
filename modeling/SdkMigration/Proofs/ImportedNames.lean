import SdkMigration.Proofs.RenderedImports

/-!
# Names that a program imports

A declaration binds each name that it imports to an export or to the module as a
whole, and it may import the name for types only.  The bindings record all of this but
one thing: that the module as a whole is imported for types only.

There are three steps.

* What is recorded.  `Program.mem_imported` says that the bindings of a program are what
  `ImportedName.recorded` leaves of the names that it imports.
* What is merged.  `Bindings.imported_merged_iff` says that merging changes nothing
  exactly when no name is bound in two ways.
* What is read back.  `Program.reproducible_iff` puts both together with the reading of
  the declarations: they import the same names exactly when the program is
  `Program.Reproducible`.
-/

namespace SdkMigration

open Declarations

/-! ## Imported names -/

/-- What an imported name is bound to. -/
inductive ImportedMember where
  | exported (name : String)
  | module (style : WholeStyle)
deriving DecidableEq

/-- The export, unless it is the module as a whole. -/
def ImportedMember.export? : ImportedMember → Option String
  | exported name => some name
  | module _ => none

/-- A name that a declaration imports. -/
structure ImportedName where
  name : String
  member : ImportedMember
  /-- Whether the declaration or the specifier says `type`. -/
  isTypeOnly : Bool
deriving DecidableEq

/-- The name that a specifier imports, `declared` telling whether its declaration says
`type`. -/
def ImportSpecifier.imported (declared : Bool) : ImportSpecifier → ImportedName
  | .named imported id isTypeOnly =>
    ⟨id.name, .exported (imported.getD id.name), declared || isTypeOnly⟩
  | .default id => ⟨id.name, .module .default, declared⟩
  | .whole id => ⟨id.name, .module .namespace, declared⟩

/-- The names that an item imports from the module. -/
def Tree.importedNames (module : String) (item : Tree) : List ImportedName :=
  match item.core with
  | .importDeclaration found =>
    if found.source = module then found.specifiers.map (·.imported found.isTypeOnly) else []
  | .importEquals header (.text source _) =>
    if source = module ∧ !header.isExport then
      [⟨header.name.name, .module .requireEquals, header.isTypeOnly⟩]
    else []
  | _ => []

/-- The names that a program imports from the module. -/
def Program.importedNames (program : Program) (module : String) : List ImportedName :=
  program.items.flatMap (·.importedNames module)

namespace ImportedName

/-- What bindings record of an imported name. -/
def recorded (found : ImportedName) : ImportedName :=
  match found.member with
  | .exported _ => found
  | .module _ => { found with isTypeOnly := false }

/-- Whether two imported names are merged to one. -/
def Repeats (a b : ImportedName) : Prop :=
  a.name = b.name ∧ a.member.export? = b.member.export?

theorem name_recorded (found : ImportedName) : found.recorded.name = found.name := by
  unfold recorded
  split <;> rfl

theorem member_recorded (found : ImportedName) : found.recorded.member = found.member := by
  unfold recorded
  split <;> rfl

/-- A name for the module as a whole loses the word `type`. -/
theorem recorded_eq_self {found : ImportedName} :
    found.recorded = found ↔ (found.member.export? = none → found.isTypeOnly = false) := by
  obtain ⟨name, member, isTypeOnly⟩ := found
  cases member <;> simp [recorded, ImportedMember.export?, eq_comm]

end ImportedName

/-! ## What the bindings record -/

/-- The name that a single import binds. -/
def NamedImport.imported (named : NamedImport) : ImportedName :=
  ⟨named.localName, .exported named.exported, named.isTypeOnly⟩

/-- The name that an alias binds. -/
def WholeImport.imported (whole : WholeImport) : ImportedName :=
  ⟨whole.name, .module whole.style, false⟩

/-- The names that bindings bind. -/
def Bindings.imported (bindings : Bindings) : List ImportedName :=
  bindings.named.map NamedImport.imported ++ bindings.whole.map WholeImport.imported

namespace Bindings

variable {bindings : Bindings} {found : ImportedName}

theorem mem_imported : found ∈ bindings.imported ↔
    (∃ named ∈ bindings.named, named.imported = found) ∨
      ∃ whole ∈ bindings.whole, whole.imported = found := by
  simp [imported]

theorem recorded_of_mem_imported (h : found ∈ bindings.imported) : found.recorded = found := by
  rcases mem_imported.mp h with ⟨named, -, rfl⟩ | ⟨whole, -, rfl⟩
  · rfl
  · rfl

end Bindings

/-- A specifier adds to the bindings what is recorded of the name that it imports. -/
private theorem recorded_specifier {specifier : ImportSpecifier} {declared : Bool}
    {found : ImportedName} :
    (specifier.imported declared).recorded = found ↔
      (∃ named, specifier.named? declared = some named ∧ named.imported = found) ∨
        ∃ whole, specifier.whole? = some whole ∧ whole.imported = found := by
  cases specifier with
  | named imported id isTypeOnly =>
    have hlocal := @ImportSites.localName_of_named? (.named imported id isTypeOnly) declared _ rfl
    simp only [ImportSpecifier.named?, ImportSpecifier.whole?, Option.some.injEq, exists_eq_left',
      reduceCtorEq, false_and, exists_false, or_false, NamedImport.imported]
    rw [hlocal]
    rfl
  | «default» id => simp [ImportSpecifier.named?, ImportSpecifier.whole?]; rfl
  | whole id => simp [ImportSpecifier.named?, ImportSpecifier.whole?]; rfl

private theorem recorded_specifiers {specifiers : List ImportSpecifier} {declared : Bool}
    {found : ImportedName} :
    found ∈ (⟨specifiers.filterMap (·.named? declared), specifiers.filterMap (·.whole?)⟩ :
        Bindings).imported ↔
      ∃ name ∈ specifiers.map (·.imported declared), name.recorded = found := by
  simp only [Bindings.mem_imported, List.mem_filterMap, List.mem_map, exists_exists_and_eq_and,
    recorded_specifier, and_or_left, exists_or]
  constructor
  · rintro (⟨named, ⟨specifier, hmem, hsome⟩, rfl⟩ | ⟨whole, ⟨specifier, hmem, hsome⟩, rfl⟩)
    · exact Or.inl ⟨specifier, hmem, named, hsome, rfl⟩
    · exact Or.inr ⟨specifier, hmem, whole, hsome, rfl⟩
  · rintro (⟨specifier, hmem, named, hsome, rfl⟩ | ⟨specifier, hmem, whole, hsome, rfl⟩)
    · exact Or.inl ⟨named, ⟨specifier, hmem, hsome⟩, rfl⟩
    · exact Or.inr ⟨whole, ⟨specifier, hmem, hsome⟩, rfl⟩

/-- An item contributes what is recorded of the names that it imports. -/
private theorem mem_importedNames_item {module : String} {item : Tree} {found : ImportedName} :
    (∃ name ∈ item.importedNames module, name.recorded = found) ↔
      ∃ added, item.moduleImport? module = some added ∧
        found ∈ (⟨added.named, added.whole⟩ : Bindings).imported := by
  unfold Tree.importedNames Tree.moduleImport?
  cases item.core with
  | importDeclaration declaration =>
    simp only
    split
    · simp only [Option.some.injEq, exists_eq_left']
      exact recorded_specifiers.symm
    · simp
  | importEquals header source =>
    cases source with
    | text source span =>
      simp only
      split
      · simp only [Option.some.injEq, exists_eq_left', List.mem_singleton, exists_eq_left,
          Bindings.mem_imported, List.not_mem_nil, false_and, exists_false, false_or]
        rfl
      · simp
    | _ => simp
  | _ => simp

/-- The bindings of a program are what is recorded of the names that it imports. -/
theorem Program.mem_imported {program : Program} {body : Text} {module globalName : String}
    {found : ImportedName} :
    found ∈ (program.importSites body module globalName).bindings.imported ↔
      ∃ name ∈ program.importedNames module, name.recorded = found := by
  have hitems : (∃ name ∈ program.importedNames module, name.recorded = found) ↔
      ∃ item ∈ program.items, ∃ name ∈ item.importedNames module, name.recorded = found := by
    simp only [importedNames, List.mem_flatMap]
    constructor
    · rintro ⟨name, ⟨item, hitem, hname⟩, hrecorded⟩
      exact ⟨item, hitem, name, hname, hrecorded⟩
    · rintro ⟨item, hitem, name, hname, hrecorded⟩
      exact ⟨name, ⟨item, hitem, hname⟩, hrecorded⟩
  rw [hitems, Bindings.mem_imported, named_eq, whole_eq]
  simp only [mem_importedNames_item, moduleImports, List.mem_flatMap, List.mem_filterMap,
    Bindings.mem_imported]
  constructor
  · rintro (⟨named, ⟨added, ⟨item, hitem, hadded⟩, hmem⟩, hfound⟩ |
      ⟨whole, ⟨added, ⟨item, hitem, hadded⟩, hmem⟩, hfound⟩)
    · exact ⟨item, hitem, added, hadded, Or.inl ⟨named, hmem, hfound⟩⟩
    · exact ⟨item, hitem, added, hadded, Or.inr ⟨whole, hmem, hfound⟩⟩
  · rintro ⟨item, hitem, added, hadded, ⟨named, hmem, hfound⟩ | ⟨whole, hmem, hfound⟩⟩
    · exact Or.inl ⟨named, ⟨added, ⟨item, hitem, hadded⟩, hmem⟩, hfound⟩
    · exact Or.inr ⟨whole, ⟨added, ⟨item, hitem, hadded⟩, hmem⟩, hfound⟩

private theorem recorded_of_binds {marked : NamedImport → Bool} {list : List NamedImport}
    {specifiers : List ImportSpecifier}
    (h : List.Forall₂ (fun named => ImportSpecifier.Binds (marked named) named) list specifiers)
    (declared : Bool) {found : ImportedName}
    (hfound : found ∈ specifiers.map (·.imported declared)) : found.recorded = found := by
  induction h with
  | nil => cases hfound
  | @cons _ specifier _ _ hfirst _ ih =>
    rcases List.mem_cons.mp hfound with rfl | hfound
    · cases specifier with
      | named => rfl
      | «default» => cases hfirst.whole_eq
      | whole => cases hfirst.whole_eq
    · exact ih hfound

/-- Declarations that are rendered from bindings do not import the module as a whole for
types only. -/
theorem Grammar.ItemReads.recorded {module : String} {line : ImportLine} {item : Tree}
    (h : ItemReads module line item) {found : ImportedName}
    (hfound : found ∈ item.importedNames module) : found.recorded = found := by
  obtain ⟨start, tree, rfl, hreads⟩ := h
  unfold Tree.importedNames at hfound
  cases hreads with
  | named source isTypeOnly specifiers =>
    simp only [Tree.core, source, if_true] at hfound
    exact recorded_of_binds specifiers _ hfound
  | «default» =>
    simp only [Tree.core, if_true, List.map_cons, List.map_nil, List.mem_singleton] at hfound
    rw [hfound]
    rfl
  | «namespace» =>
    simp only [Tree.core, if_true, List.map_cons, List.map_nil, List.mem_singleton] at hfound
    rw [hfound]
    rfl
  | requireEquals =>
    simp [Tree.core] at hfound
    rw [hfound]
    rfl
  | sideEffect => simp [Tree.core] at hfound

private theorem recorded_of_itemReads {module : String} {lines : List ImportLine}
    {items : List Tree} (h : List.Forall₂ (Grammar.ItemReads module) lines items) {item : Tree}
    (hitem : item ∈ items) {found : ImportedName} (hfound : found ∈ item.importedNames module) :
    found.recorded = found := by
  induction h with
  | nil => cases hitem
  | cons hfirst _ ih =>
    rcases List.mem_cons.mp hitem with rfl | hitem
    · exact hfirst.recorded hfound
    · exact ih hitem

/-! ## Names that are imported once -/

/-- Imports that were read from a file repeat each other when they bind the same export
to the same name. -/
theorem NamedImport.Fresh.repeats_iff {a b : NamedImport} (ha : a.Fresh) (hb : b.Fresh) :
    a.repeats b = true ↔ a.imported.Repeats b.imported := by
  have himported : a.imported.Repeats b.imported ↔
      a.localName = b.localName ∧ a.exported = b.exported := by
    simp [ImportedName.Repeats, imported, ImportedMember.export?]
  have hrenamedA := ha.renamed
  have hrenamedB := hb.renamed
  rw [NamedImport.repeats_iff, himported]
  unfold localName
  constructor
  · rintro ⟨hexported, hrenamed⟩
    exact ⟨by rw [hexported, hrenamed], hexported⟩
  · rintro ⟨hlocal, hexported⟩
    refine ⟨hexported, ?_⟩
    cases hfirst : a.renamed with
    | none =>
      cases hsecond : b.renamed with
      | none => rfl
      | some name =>
        rw [hfirst, hsecond, hexported] at hlocal
        exact absurd (hsecond.trans (congrArg some hlocal.symm)) hrenamedB
    | some name =>
      cases hsecond : b.renamed with
      | none =>
        rw [hfirst, hsecond, ← hexported] at hlocal
        exact absurd (hfirst.trans (congrArg some hlocal)) hrenamedA
      | some other =>
        rw [hfirst, hsecond] at hlocal
        exact congrArg some hlocal

namespace Bindings

variable {bindings : Bindings}

/-- Merged bindings bind each name once to an export and once to the module as a whole. -/
theorem imported_merged_unique (hfresh : ∀ named ∈ bindings.named, named.Fresh)
    {a b : ImportedName} (ha : a ∈ bindings.merged.imported) (hb : b ∈ bindings.merged.imported)
    (h : a.Repeats b) : a = b := by
  rcases mem_imported.mp ha with ⟨named, hnamed, rfl⟩ | ⟨whole, hwhole, rfl⟩
  · rcases mem_imported.mp hb with ⟨other, hother, rfl⟩ | ⟨other, hother, rfl⟩
    · obtain ⟨first, hfirst, rfl⟩ := mem_merged_named.mp hnamed
      obtain ⟨second, hsecond, rfl⟩ := mem_merged_named.mp hother
      have hrepeats : first.repeats second = true :=
        ((hfresh first hfirst).repeats_iff (hfresh second hsecond)).mpr h
      rw [merged_of_repeats hrepeats]
    · cases h.2
  · rcases mem_imported.mp hb with ⟨other, hother, rfl⟩ | ⟨other, hother, rfl⟩
    · cases h.2
    · rw [merged_whole_unique hwhole hother h.1]

/-- When no name is bound in two ways, merging leaves a single import as it is. -/
private theorem all_isTypeOnly (hfresh : ∀ named ∈ bindings.named, named.Fresh)
    (honce : ∀ a ∈ bindings.imported, ∀ b ∈ bindings.imported, a.Repeats b → a = b)
    {first : NamedImport} (hfirst : first ∈ bindings.named) :
    (bindings.named.filter (·.repeats first)).all (·.isTypeOnly) = first.isTypeOnly := by
  have hsame : ∀ named ∈ bindings.named.filter (·.repeats first),
      named.isTypeOnly = first.isTypeOnly := by
    intro named hmem
    obtain ⟨hnamed, hrepeats⟩ := List.mem_filter.mp hmem
    have hkey := ((hfresh named hnamed).repeats_iff (hfresh first hfirst)).mp hrepeats
    exact congrArg ImportedName.isTypeOnly (honce _ (mem_imported.mpr (Or.inl ⟨named, hnamed, rfl⟩))
      _ (mem_imported.mpr (Or.inl ⟨first, hfirst, rfl⟩)) hkey)
  have hself : first ∈ bindings.named.filter (·.repeats first) :=
    List.mem_filter.mpr ⟨hfirst, NamedImport.repeats_iff.mpr ⟨rfl, rfl⟩⟩
  cases hflag : first.isTypeOnly with
  | true => exact List.all_eq_true.mpr fun named hmem => (hsame named hmem).trans hflag
  | false => exact List.all_eq_false.mpr ⟨first, hself, by simp [hflag]⟩

/-- Merging changes nothing exactly when no name is bound in two ways. -/
theorem imported_merged_iff (hfresh : ∀ named ∈ bindings.named, named.Fresh) :
    (∀ found, found ∈ bindings.merged.imported ↔ found ∈ bindings.imported) ↔
      ∀ a ∈ bindings.imported, ∀ b ∈ bindings.imported, a.Repeats b → a = b := by
  constructor
  · intro h a ha b hb
    exact imported_merged_unique hfresh ((h a).mpr ha) ((h b).mpr hb)
  · intro honce found
    constructor
    · intro hfound
      rcases mem_imported.mp hfound with ⟨named, hnamed, rfl⟩ | ⟨whole, hwhole, rfl⟩
      · obtain ⟨first, hfirst, rfl⟩ := mem_merged_named.mp hnamed
        rw [all_isTypeOnly hfresh honce hfirst]
        exact mem_imported.mpr (Or.inl ⟨first, hfirst, rfl⟩)
      · obtain ⟨first, hfirst, rfl⟩ := mem_merged_whole hwhole
        exact mem_imported.mpr (Or.inr ⟨first, hfirst, rfl⟩)
    · intro hfound
      rcases mem_imported.mp hfound with ⟨named, hnamed, rfl⟩ | ⟨whole, hwhole, rfl⟩
      · refine mem_imported.mpr (Or.inl ⟨_, mem_merged_named.mpr ⟨named, hnamed, rfl⟩, ?_⟩)
        rw [all_isTypeOnly hfresh honce hnamed]
        rfl
      · obtain ⟨left, hleft, hname⟩ := exists_merged_whole hwhole
        obtain ⟨first, hfirst, rfl⟩ := mem_merged_whole hleft
        have hsame : first.imported = whole.imported :=
          honce _ (mem_imported.mpr (Or.inr ⟨first, hfirst, rfl⟩)) _ hfound ⟨hname, rfl⟩
        exact mem_imported.mpr (Or.inr ⟨_, hleft, hsame⟩)

end Bindings

/-! ## Imports that can be written anew -/

/-- Whether no export for types only has to be quoted, unless all exports are for types
only. -/
def LegibleNames (names : List ImportedName) : Prop :=
  (∀ found ∈ names, found.member.export? ≠ none → found.isTypeOnly = true) ∨
    ∀ found ∈ names, found.isTypeOnly = true →
      ∀ name ∈ found.member.export?, isPlainName name = true

theorem LegibleNames.congr {a b : List ImportedName} (h : ∀ found, found ∈ a ↔ found ∈ b) :
    LegibleNames a ↔ LegibleNames b := by
  simp only [LegibleNames, h]

theorem Bindings.legibleNames_iff {bindings : Bindings} :
    LegibleNames bindings.merged.imported ↔ bindings.Legible := by
  unfold LegibleNames Legible
  constructor
  · rintro (h | h)
    · refine Or.inl fun named hnamed => ?_
      exact h named.imported (mem_imported.mpr (Or.inl ⟨named, hnamed, rfl⟩)) nofun
    · refine Or.inr fun named hnamed htype => ?_
      exact h named.imported (mem_imported.mpr (Or.inl ⟨named, hnamed, rfl⟩)) htype _ rfl
  · rintro (h | h)
    · refine Or.inl fun found hfound hexport => ?_
      rcases mem_imported.mp hfound with ⟨named, hnamed, rfl⟩ | ⟨whole, hwhole, rfl⟩
      · exact h named hnamed
      · exact absurd rfl hexport
    · refine Or.inr fun found hfound htype name hname => ?_
      rcases mem_imported.mp hfound with ⟨named, hnamed, rfl⟩ | ⟨whole, hwhole, rfl⟩
      · obtain rfl := Option.some.inj hname
        exact h named hnamed htype
      · cases htype

/-- Whether the names that a program imports can be imported anew from what the bindings
record. -/
structure Program.Reproducible (program : Program) (module : String) : Prop where
  /-- The module as a whole is not imported for types only. -/
  aliases : ∀ found ∈ program.importedNames module, found.member.export? = none →
    found.isTypeOnly = false
  /-- Nothing is imported in two ways under one name. -/
  once : ∀ a ∈ program.importedNames module, ∀ b ∈ program.importedNames module,
    a.Repeats b → a = b
  legible : LegibleNames (program.importedNames module)

/-- Whether an imported name, and the export that it is bound to, can stand in a file. -/
structure ImportedName.Spellable (found : ImportedName) : Prop where
  name_plain : isPlainName found.name = true
  oneLine : ∀ name ∈ found.member.export?, IsOneLine name

instance (a b : ImportedName) : Decidable (a.Repeats b) := inferInstanceAs (Decidable (_ ∧ _))

instance (names : List ImportedName) : Decidable (LegibleNames names) :=
  inferInstanceAs (Decidable (_ ∨ _))

instance (program : Program) (module : String) : Decidable (program.Reproducible module) :=
  decidable_of_iff
    ((∀ found ∈ program.importedNames module, found.member.export? = none →
        found.isTypeOnly = false) ∧
      (∀ a ∈ program.importedNames module, ∀ b ∈ program.importedNames module,
        a.Repeats b → a = b) ∧ LegibleNames (program.importedNames module))
    ⟨fun ⟨haliases, honce, hlegible⟩ => ⟨haliases, honce, hlegible⟩,
      fun h => ⟨h.aliases, h.once, h.legible⟩⟩

instance (found : ImportedName) : Decidable found.Spellable :=
  decidable_of_iff
    (isPlainName found.name = true ∧ ∀ name ∈ found.member.export?, IsOneLine name)
    ⟨fun ⟨hplain, honeLine⟩ => ⟨hplain, honeLine⟩, fun h => ⟨h.name_plain, h.oneLine⟩⟩

namespace Program

variable {program : Program} {body : Text} {module globalName : String}

private theorem spellable_sites
    (h : ∀ found ∈ program.importedNames module, found.Spellable) (body : Text)
    (globalName : String) :
    let bindings := (program.importSites body module globalName).bindings
    (∀ named ∈ bindings.named, named.Spellable) ∧
      ∀ whole ∈ bindings.whole, isPlainName whole.name = true := by
  intro bindings
  have himported : ∀ found ∈ bindings.imported, found.Spellable := by
    intro found hfound
    obtain ⟨name, hname, rfl⟩ := mem_imported.mp hfound
    obtain ⟨hplain, honeLine⟩ := h name hname
    exact ⟨name.name_recorded ▸ hplain, name.member_recorded ▸ honeLine⟩
  constructor
  · intro named hnamed
    have hspellable := himported _ (Bindings.mem_imported.mpr (Or.inl ⟨named, hnamed, rfl⟩))
    exact ⟨hspellable.name_plain, (fresh_importSites hnamed).renamed, hspellable.oneLine _ rfl⟩
  · intro whole hwhole
    exact (himported _ (Bindings.mem_imported.mpr (Or.inr ⟨whole, hwhole, rfl⟩))).name_plain

/-- The items that declarations are read as import what the merged bindings bind. -/
theorem mem_importedNames_of_itemReads {bindings : Bindings} {sideEffect : Bool}
    (h : List.Forall₂ (Grammar.ItemReads module) (bindings.lines sideEffect) program.items)
    {found : ImportedName} :
    found ∈ program.importedNames module ↔ found ∈ bindings.merged.imported := by
  have hrecorded : ∀ name ∈ program.importedNames module, name.recorded = name := by
    intro name hname
    obtain ⟨item, hitem, hname⟩ := List.mem_flatMap.mp hname
    exact recorded_of_itemReads h hitem hname
  have hbindings : (program.importSites [] module "").bindings = bindings.merged :=
    (Grammar.bindings_of_itemReads h _ _).trans Bindings.lines_bind
  rw [← hbindings, mem_imported]
  constructor
  · exact fun hfound => ⟨found, hfound, hrecorded found hfound⟩
  · rintro ⟨name, hname, rfl⟩
    rwa [hrecorded name hname]

/-- The declarations for what a program imports import the same names exactly when they
can be imported anew. -/
theorem reproducible_iff {sideEffect : Bool} {dialect : Dialect}
    (hspellable : ∀ found ∈ program.importedNames module, found.Spellable)
    (hmodule : IsOneLine module) (htypes : dialect.types = true)
    (hmodules : dialect.modules = true) :
    let bindings := (program.importSites body module globalName).bindings
    (∃ output, Program.read? dialect (ImportLine.block module (bindings.lines sideEffect)) =
        some output ∧
      ∀ found, found ∈ output.importedNames module ↔ found ∈ program.importedNames module) ↔
      program.Reproducible module := by
  intro bindings
  obtain ⟨hnamed, hwhole⟩ := spellable_sites hspellable body globalName
  have hfresh : ∀ named ∈ bindings.named, named.Fresh := fun named => fresh_importSites
  -- Where all is recorded, the bindings bind the names that are imported.
  have hbind (hrecorded : ∀ name ∈ program.importedNames module, name.recorded = name)
      (found : ImportedName) :
      found ∈ bindings.imported ↔ found ∈ program.importedNames module := by
    rw [mem_imported]
    constructor
    · rintro ⟨name, hname, rfl⟩
      rwa [hrecorded name hname]
    · exact fun hfound => ⟨found, hfound, hrecorded found hfound⟩
  constructor
  · rintro ⟨output, hread, hsame⟩
    have hlegible := Bindings.legible_of_read_lines hnamed hwhole hmodule htypes hmodules hread
    obtain ⟨other, hother, hitems⟩ := Bindings.exists_read_lines hnamed hwhole hmodule htypes
      hmodules hlegible sideEffect
    obtain rfl : output = other := Option.some.inj (hread.symm.trans hother)
    -- What was read back is recorded, so what was imported is.
    have hmerged : ∀ found, found ∈ bindings.merged.imported ↔
        found ∈ program.importedNames module :=
      fun found => (mem_importedNames_of_itemReads hitems).symm.trans (hsame found)
    have hrecorded : ∀ name ∈ program.importedNames module, name.recorded = name :=
      fun name hname => Bindings.recorded_of_mem_imported ((hmerged name).mpr hname)
    have honce := (Bindings.imported_merged_iff hfresh).mp fun found =>
      (hmerged found).trans (hbind hrecorded found).symm
    simp only [hbind hrecorded] at honce
    exact ⟨fun name hname => ImportedName.recorded_eq_self.mp (hrecorded name hname), honce,
      (LegibleNames.congr hmerged).mp (Bindings.legibleNames_iff.mpr hlegible)⟩
  · rintro ⟨haliases, honce, hlegible⟩
    have hrecorded : ∀ name ∈ program.importedNames module, name.recorded = name :=
      fun name hname => ImportedName.recorded_eq_self.mpr (haliases name hname)
    simp only [← hbind hrecorded] at honce
    have hmerged : ∀ found, found ∈ bindings.merged.imported ↔
        found ∈ program.importedNames module := fun found =>
      ((Bindings.imported_merged_iff hfresh).mpr honce found).trans (hbind hrecorded found)
    obtain ⟨output, hread, hitems⟩ := Bindings.exists_read_lines hnamed hwhole hmodule htypes
      hmodules (Bindings.legibleNames_iff.mp ((LegibleNames.congr hmerged).mpr hlegible)) sideEffect
    exact ⟨output, hread, fun found =>
      (mem_importedNames_of_itemReads hitems).trans (hmerged found)⟩

end Program

end SdkMigration
