import SdkMigration.Proofs.KeptImports
import Mathlib.Data.List.Nodup

/-!
# Names that are declared twice

The new declarations bring names into a file: the namespaces that references
were moved to, and the global name of the module where it stands for the
module.  Whether the file has such a name already is asked for the global name
only, and there not of namespaces and of what is exported by default.  A
namespace is imported under its own name whatever the file calls so, and two
specifiers count as one when they are written alike, not when they bind the
same name.

So a file that declares no name twice may be left with one that is declared
twice.  `Bindings.FreshNames` tells when exactly that does not happen.
-/

namespace SdkMigration

/-! ## Names that a file declares -/

/-- Whether a branch is part of a pattern. -/
def BranchKind.isPattern : BranchKind → Bool
  | .arrayPattern | .objectPattern | .objectEntry | .rest | .defaulted => true
  | _ => false

mutual

/-- The names that a pattern binds.  An expression binds none. -/
def Tree.patternNames : Tree → List String
  | .binding id _ => [id.name]
  | .branch kind _ parts => if kind.isPattern then allPatternNames parts else []
  | _ => []

/-- The names that patterns bind. -/
def allPatternNames : List Tree → List String
  | [] => []
  | tree :: rest => tree.patternNames ++ allPatternNames rest

end

/-- The name in front of the parts of a function, a class or a namespace. -/
def leadingName : List Tree → List String
  | .identifier .functionName id :: _ => [id.name]
  | .identifier .className id :: _ => [id.name]
  | .identifier .namespaceName id :: _ => [id.name]
  | _ => []

mutual

/-- The names that an item declares where it stands: those of imports, of
variables, and of functions, classes, enumerations and namespaces. -/
def Tree.declaredNames : Tree → List String
  | .importDeclaration found => found.specifiers.map (·.localName.name)
  | .importEquals header _ => [header.name.name]
  | .declaration _ id _ => [id.name]
  | .anchored _ _ inner => inner.declaredNames
  | .branch .variableDeclaration _ declarators => allDeclaredNames declarators
  | .branch .declarator _ (pattern :: _) => pattern.patternNames
  | .branch .exportDeclaration _ parts => allDeclaredNames parts
  | .branch .exportDefault _ parts => allDeclaredNames parts
  | .branch .functionExpression _ parts => leadingName parts
  | .branch .classExpression _ parts => leadingName parts
  | .branch .namespace _ parts => leadingName parts
  | _ => []

/-- The names that items declare. -/
def allDeclaredNames : List Tree → List String
  | [] => []
  | item :: rest => item.declaredNames ++ allDeclaredNames rest

end

/-- Whether an item imports the module and makes way for the new declarations. -/
def Tree.isImportOf (module : String) (item : Tree) : Bool :=
  match item.core with
  | .importDeclaration found => found.source == module
  | .importEquals header (.text source _) => source == module && !header.isExport
  | _ => false

/-- The names that a program declares. -/
def Program.declaredNames (program : Program) : List String := allDeclaredNames program.items

/-- The names that the items of a program declare which do not import the
module. -/
def Program.otherNames (program : Program) (module : String) : List String :=
  allDeclaredNames (program.items.filter fun item => !item.isImportOf module)

/-! ## Names that are bound and names that are declared -/

theorem Tree.declaredNames_core (item : Tree) : item.core.declaredNames = item.declaredNames := by
  cases item <;> rfl

namespace ImportSites

open List

variable {module : String}

/-- A specifier binds one name, to a single export or to the module. -/
theorem perm_specifiers (declared : Bool) (specifiers : List ImportSpecifier) :
    (specifiers.filterMap (·.named? declared)).map NamedImport.localName ++
      (specifiers.filterMap (·.whole?)).map WholeImport.name ~
        specifiers.map (·.localName.name) := by
  induction specifiers with
  | nil => exact .refl _
  | cons first rest ih =>
    cases first with
    | named imported id isTypeOnly =>
      have hnamed : (ImportSpecifier.named imported id isTypeOnly).named? declared = some _ := rfl
      have hlocal := localName_of_named? hnamed
      simp only [filterMap_cons, hnamed, ImportSpecifier.whole?, map_cons, hlocal, cons_append]
      exact ih.cons _
    | «default» id => exact perm_middle.trans (ih.cons id.name)
    | whole id => exact perm_middle.trans (ih.cons id.name)

theorem perm_addDeclaration (bindings : Bindings) (found : ImportDeclaration) :
    (bindings.addDeclaration found).localNames ~
      bindings.localNames ++ found.specifiers.map (·.localName.name) := by
  have hspecifiers := perm_specifiers found.isTypeOnly found.specifiers
  rw [perm_iff_count] at hspecifiers ⊢
  intro name
  have hcount := hspecifiers name
  simp only [Bindings.localNames, Bindings.addDeclaration, map_append, count_append] at hcount ⊢
  omega

/-- What an item declares is bound when it imports the module. -/
theorem perm_addItem (sites : ImportSites) (item : Tree) :
    (addItem module sites item).bindings.localNames ++
      (if item.isImportOf module then [] else item.declaredNames) ~
        sites.bindings.localNames ++ item.declaredNames := by
  rw [← item.declaredNames_core]
  unfold addItem Tree.isImportOf
  cases item.core with
  | importDeclaration found =>
    by_cases hsource : found.source = module
    · simpa [hsource, Tree.declaredNames] using perm_addDeclaration sites.bindings found
    · simp [hsource]
  | importEquals header source =>
    cases source with
    | text value span =>
      by_cases hsource : value = module ∧ header.isExport = false
      · simp [hsource, Bindings.localNames, Bindings.addWhole, Tree.declaredNames]
      · have hother : (value == module && !header.isExport) = false := by
          simpa using hsource
        simp [hsource, hother]
    | _ => exact .refl _
  | _ => exact .refl _

theorem perm_foldl (items : List Tree) (sites : ImportSites) :
    (items.foldl (addItem module) sites).bindings.localNames ++
      allDeclaredNames (items.filter fun item => !item.isImportOf module) ~
        sites.bindings.localNames ++ allDeclaredNames items := by
  induction items generalizing sites with
  | nil => exact .refl _
  | cons item rest ih =>
    have hitem := @perm_addItem module sites item
    have hrest := ih (addItem module sites item)
    rw [perm_iff_count] at hitem hrest ⊢
    intro name
    have hcount := hitem name
    have hcounts := hrest name
    rw [foldl_cons, filter_cons]
    cases himport : item.isImportOf module <;>
      simp only [himport, if_true, Bool.false_eq_true, if_false, Bool.not_true, Bool.not_false,
        allDeclaredNames, count_append, count_nil] at hcount hcounts ⊢ <;> omega

end ImportSites

/-- A program declares what it binds from the module and what its other items
declare. -/
theorem Program.perm_declaredNames (program : Program) (body : Text) (module globalName : String) :
    ((program.importSites body module globalName).bindings.localNames ++
      program.otherNames module).Perm program.declaredNames :=
  ImportSites.perm_foldl program.items _

/-! ## Names that are declared once -/

namespace Declarations

/-- Whether a specifier binds a name. -/
def Specifier.Binds (specifier : Specifier) (name : String) : Prop :=
  ∃ exported, SpecifierBinds specifier.text name exported

theorem nodup_addSpecifier {text : String} {isTypeOnly : Bool} {found : List Specifier}
    (h : (found.map Specifier.text).Nodup) :
    ((addSpecifier text isTypeOnly found).map Specifier.text).Nodup := by
  induction found with
  | nil => exact List.nodup_singleton _
  | cons first rest ih =>
    rw [List.map_cons, List.nodup_cons] at h
    unfold addSpecifier
    split
    · rename_i hsame
      rw [List.map_cons, List.nodup_cons, ← hsame]
      exact h
    · rename_i hother
      rw [List.map_cons, List.nodup_cons, mem_addSpecifier]
      exact ⟨fun hmem => hmem.elim hother h.1, ih h.2⟩

/-- No two specifiers are written alike. -/
theorem nodup_specifiers (named : List NamedImport) :
    ((specifiers named).map Specifier.text).Nodup := by
  let distinct (found : List Specifier) : Prop := (found.map Specifier.text).Nodup
  refine List.foldlRecOn (motive := distinct) named _ List.nodup_nil fun found h next _ => ?_
  exact List.foldlRecOn (motive := distinct) (specifiersOf next) _ h
    fun found h text _ => nodup_addSpecifier h

/-- The declared aliases are among the aliases, and none has a name that was met
before. -/
theorem mem_of_distinctAliases {whole : WholeImport} {list : List WholeImport}
    {seen : List String} (h : whole ∈ distinctAliases seen list) :
    whole ∈ list ∧ whole.name ∉ seen := by
  induction list generalizing seen with
  | nil => cases h
  | cons first rest ih =>
    unfold distinctAliases at h
    split at h
    · exact ⟨List.mem_cons_of_mem _ (ih h).1, (ih h).2⟩
    · rename_i hnew
      rcases List.mem_cons.mp h with rfl | h
      · exact ⟨List.mem_cons_self, by simpa using hnew⟩
      · obtain ⟨hmem, hnew⟩ := ih h
        exact ⟨List.mem_cons_of_mem _ hmem, fun hseen => hnew (List.mem_cons_of_mem _ hseen)⟩

/-- The declared aliases have the names of all aliases. -/
theorem mem_distinctAliases_names {name : String} {list : List WholeImport} :
    name ∈ (distinctAliases [] list).map WholeImport.name ↔
      name ∈ list.map WholeImport.name := by
  constructor
  · intro h
    obtain ⟨first, hfirst, rfl⟩ := List.mem_map.mp h
    exact List.mem_map_of_mem (mem_of_distinctAliases hfirst).1
  · intro h
    obtain ⟨whole, hwhole, rfl⟩ := List.mem_map.mp h
    obtain ⟨first, hfirst, hname⟩ := exists_distinctAliases hwhole List.not_mem_nil
    exact hname ▸ List.mem_map_of_mem hfirst

/-- No alias is declared twice. -/
theorem nodup_distinctAliases (list : List WholeImport) (seen : List String) :
    ((distinctAliases seen list).map WholeImport.name).Nodup := by
  induction list generalizing seen with
  | nil => exact List.nodup_nil
  | cons first rest ih =>
    unfold distinctAliases
    split
    · exact ih seen
    · rw [List.map_cons, List.nodup_cons]
      refine ⟨fun hmem => ?_, ih _⟩
      obtain ⟨other, hother, hname⟩ := List.mem_map.mp hmem
      exact (mem_of_distinctAliases hother).2 (hname ▸ List.mem_cons_self)

end Declarations

namespace Bindings

open Declarations

/-- What declares names in a file, each by the names that it declares: the
specifiers and the aliases of the new declarations, and the given names of
other items. -/
def declarators (bindings : Bindings) (others : List String) : List (String → Prop) :=
  (specifiers bindings.named).map Specifier.Binds ++
    ((distinctAliases [] bindings.whole).map (fun whole name => name = whole.name) ++
      others.map fun other name => name = other)

/-- Whether the new declarations and other items with the given names declare no
name twice. -/
def DeclaresOnce (bindings : Bindings) (others : List String) : Prop :=
  (bindings.declarators others).Pairwise fun a b => ∀ name, a name → ¬ b name

/-- Whether no name that comes into a file is declared there.  A namespace has
neither the name of another item, nor that of an alias, nor the name under which
another export is still imported, and an alias for the global name has not the
name of another item. -/
structure FreshNames (bindings : Bindings) (others : List String) (globalName : String) :
    Prop where
  target_others : ∀ named ∈ bindings.named, ∀ target, named.target = some target →
    target ∉ others
  target_whole : ∀ named ∈ bindings.named, ∀ target, named.target = some target →
    target ∉ bindings.whole.map WholeImport.name
  target_named : ∀ named ∈ bindings.named, ∀ target, named.target = some target →
    ∀ other ∈ bindings.named, other.localName = target →
      other.target = none ∨ other.keepsLocalBinding = true → other.exported = target
  globalName : globalName ∈ bindings.whole.map WholeImport.name → globalName ∉ others

/-- Whether bindings are those of a file whose other items declare the given
names, where no name was declared twice. -/
structure Distinct (bindings : Bindings) (others : List String) (globalName : String) :
    Prop where
  localNames : bindings.localNames.Nodup
  others_nodup : others.Nodup
  named : ∀ named ∈ bindings.named, named.localName ∉ others
  whole : ∀ whole ∈ bindings.whole, whole.name ≠ globalName → whole.name ∉ others
  renamed : ∀ named ∈ bindings.named, named.renamed ≠ some named.exported
  plain : ∀ named ∈ bindings.named, ∀ target, named.target = some target →
    isPlainName target = true

variable {bindings : Bindings} {others : List String} {globalName : String}

/-- The specifiers bind none of the names that are taken, when no local name is and
no namespace has one of them. -/
private theorem specifiers_avoid_iff (h : bindings.Distinct others globalName)
    {taken : String → Prop} (hlocal : ∀ named ∈ bindings.named, ¬ taken named.localName) :
    (∀ specifier ∈ specifiers bindings.named, ∀ name, specifier.Binds name → ¬ taken name) ↔
      ∀ named ∈ bindings.named, ∀ target, named.target = some target → ¬ taken target := by
  constructor
  · intro havoid named hnamed target htarget
    have htext := mem_specifiers.mpr ⟨named, hnamed, mem_specifiersOf.mpr (Or.inl htarget)⟩
    obtain ⟨specifier, hspecifier, rfl⟩ := List.mem_map.mp htext
    exact havoid specifier hspecifier _ ⟨_, .same (h.plain named hnamed _ htarget)⟩
  · rintro havoid specifier hspecifier name ⟨exported, hbinds⟩
    obtain ⟨named, hnamed, htext⟩ := mem_specifiers.mp (List.mem_map_of_mem hspecifier)
    rcases mem_specifiersOf.mp htext with htarget | ⟨hsame, -⟩
    · rw [((specifierBinds_plain (h.plain named hnamed _ htarget)).mp hbinds).1]
      exact havoid named hnamed _ htarget
    · rw [hsame] at hbinds
      rw [← (specifierBinds_sameBinding.mp hbinds).1]
      exact hlocal named hnamed

/-- An export that is bound under its own name is written plainly. -/
private theorem sameBinding_eq (h : bindings.Distinct others globalName) {named : NamedImport}
    (hnamed : named ∈ bindings.named) (hsame : named.localName = named.exported)
    (hplain : isPlainName named.exported = true) : sameBinding named = named.exported := by
  unfold sameBinding
  cases hrenamed : named.renamed with
  | none =>
    show exportedName named.exported = named.exported
    unfold exportedName
    rw [if_pos hplain]
  | some name =>
    unfold NamedImport.localName at hsame
    rw [hrenamed, Option.getD_some] at hsame
    exact absurd (hsame ▸ hrenamed) (h.renamed named hnamed)

/-- What is imported under the name of a namespace is written as the namespace is. -/
private theorem target_eq_sameBinding (h : bindings.Distinct others globalName)
    {other : NamedImport} (hother : other ∈ bindings.named)
    {target name exported exported' : String} (hplain : isPlainName target = true)
    (hfresh : other.localName = target → other.exported = target)
    (htarget : SpecifierBinds target name exported)
    (hsame : SpecifierBinds (sameBinding other) name exported') : target = sameBinding other := by
  obtain ⟨rfl, -⟩ := (specifierBinds_plain hplain).mp htarget
  have hname := (specifierBinds_sameBinding.mp hsame).1
  have hexported := hfresh hname
  rw [sameBinding_eq h hother (hname.trans hexported.symm) (hexported ▸ hplain), hexported]

/-- Where no two specifiers bind one name, the one that does is unique. -/
private theorem eq_of_binds {found : List Specifier}
    (h : found.Pairwise fun a b => ∀ name, a.Binds name → ¬ b.Binds name) {a b : Specifier}
    (ha : a ∈ found) (hb : b ∈ found) {name : String} (habinds : a.Binds name)
    (hbbinds : b.Binds name) : a = b := by
  by_contra hne
  have hsymm : Std.Symm fun a b : Specifier => ∀ name, a.Binds name → ¬ b.Binds name :=
    ⟨fun _ _ hab name hb ha => hab name ha hb⟩
  exact h.forall ha hb hne name habinds hbbinds

/-- No two specifiers bind one name exactly when no namespace has the name under
which another export is still imported. -/
private theorem pairwise_specifiers_iff (h : bindings.Distinct others globalName) :
    (specifiers bindings.named).Pairwise (fun a b => ∀ name, a.Binds name → ¬ b.Binds name) ↔
      ∀ named ∈ bindings.named, ∀ target, named.target = some target →
        ∀ other ∈ bindings.named, other.localName = target →
          other.target = none ∨ other.keepsLocalBinding = true → other.exported = target := by
  constructor
  · intro hpairwise named hnamed target htarget other hother hname hneeded
    by_contra hexported
    have hplain := h.plain named hnamed target htarget
    have hbinds : SpecifierBinds (sameBinding other) target other.exported := by
      refine specifierBinds_sameBinding.mpr ⟨hname, rfl, fun hrenamed => absurd ?_ hexported⟩
      unfold NamedImport.localName at hname
      rw [hrenamed, Option.getD_none] at hname
      exact hname
    have htext := mem_specifiers.mpr ⟨named, hnamed, mem_specifiersOf.mpr (Or.inl htarget)⟩
    have hotherText :=
      mem_specifiers.mpr ⟨other, hother, mem_specifiersOf.mpr (Or.inr ⟨rfl, hneeded⟩)⟩
    obtain ⟨a, ha, hatext⟩ := List.mem_map.mp htext
    obtain ⟨b, hb, hbtext⟩ := List.mem_map.mp hotherText
    have habinds : a.Binds target := ⟨target, by rw [hatext]; exact .same hplain⟩
    have hbbinds : b.Binds target := ⟨other.exported, by rw [hbtext]; exact hbinds⟩
    obtain rfl := eq_of_binds hpairwise ha hb habinds hbbinds
    rw [← hbtext, hatext] at hbinds
    exact hexported ((specifierBinds_plain hplain).mp hbinds).2
  · intro hfresh
    -- Two specifiers are written differently; two that bind one name are not.
    refine (List.pairwise_map.mp (nodup_specifiers bindings.named)).imp_of_mem ?_
    rintro a b ha hb hne name ⟨exported, habinds⟩ ⟨exported', hbbinds⟩
    obtain ⟨named, hnamed, hatext⟩ := mem_specifiers.mp (List.mem_map_of_mem ha)
    obtain ⟨other, hother, hbtext⟩ := mem_specifiers.mp (List.mem_map_of_mem hb)
    apply hne
    rcases mem_specifiersOf.mp hatext with htarget | ⟨hasame, haneeded⟩ <;>
      rcases mem_specifiersOf.mp hbtext with hotherTarget | ⟨hbsame, hbneeded⟩
    · have haname := (specifierBinds_plain (h.plain named hnamed _ htarget)).mp habinds
      have hbname := (specifierBinds_plain (h.plain other hother _ hotherTarget)).mp hbbinds
      exact haname.1.symm.trans hbname.1
    · rw [hbsame] at hbbinds ⊢
      exact target_eq_sameBinding h hother (h.plain named hnamed _ htarget)
        (fun hname => hfresh named hnamed _ htarget other hother hname hbneeded) habinds hbbinds
    · rw [hasame] at habinds ⊢
      exact (target_eq_sameBinding h hnamed (h.plain other hother _ hotherTarget)
        (fun hname => hfresh other hother _ hotherTarget named hnamed hname haneeded)
        hbbinds habinds).symm
    · rw [hasame] at habinds ⊢
      rw [hbsame] at hbbinds ⊢
      have haname := (specifierBinds_sameBinding.mp habinds).1
      have hbname := (specifierBinds_sameBinding.mp hbbinds).1
      rw [named_unique h.localNames hnamed hother (haname.trans hbname.symm)]

/-- Declarations declare no name twice when no two specifiers bind one name, no
specifier binds that of an alias or of another item, and no alias has the name of
another item. -/
private theorem declaresOnce_iff_avoid (hothers : others.Nodup) :
    bindings.DeclaresOnce others ↔
      (specifiers bindings.named).Pairwise (fun a b => ∀ name, a.Binds name → ¬ b.Binds name) ∧
      (∀ specifier ∈ specifiers bindings.named, ∀ name, specifier.Binds name →
        name ∉ bindings.whole.map WholeImport.name) ∧
      (∀ specifier ∈ specifiers bindings.named, ∀ name, specifier.Binds name → name ∉ others) ∧
      ∀ whole ∈ bindings.whole, whole.name ∉ others := by
  unfold DeclaresOnce declarators
  rw [List.pairwise_append, List.pairwise_append, List.pairwise_map, List.pairwise_map,
    List.pairwise_map]
  simp only [List.forall_mem_append, List.forall_mem_map]
  constructor
  · rintro ⟨hspecifiers, ⟨-, -, haliases⟩, havoid⟩
    refine ⟨hspecifiers, ?_, ?_, ?_⟩
    · intro specifier hspecifier name hbinds hname
      obtain ⟨first, hfirst, hsame⟩ := List.mem_map.mp (mem_distinctAliases_names.mpr hname)
      exact (havoid specifier hspecifier).1 first hfirst name hbinds hsame.symm
    · exact fun specifier hspecifier name hbinds hname =>
        (havoid specifier hspecifier).2 name hname name hbinds rfl
    · intro whole hwhole hname
      obtain ⟨first, hfirst, hsame⟩ :=
        List.mem_map.mp (mem_distinctAliases_names.mpr (List.mem_map_of_mem hwhole))
      exact haliases first hfirst whole.name hname whole.name hsame.symm rfl
  · rintro ⟨hspecifiers, hwholes, hitems, haliases⟩
    refine ⟨hspecifiers, ⟨?_, ?_, ?_⟩, fun specifier hspecifier => ⟨?_, ?_⟩⟩
    · refine (List.pairwise_map.mp (nodup_distinctAliases bindings.whole [])).imp ?_
      rintro a b hne name rfl
      exact hne
    · refine hothers.imp ?_
      rintro a b hne name rfl
      exact hne
    · rintro first hfirst other hother name rfl rfl
      exact haliases first (mem_of_distinctAliases hfirst).1 hother
    · rintro first hfirst name hbinds rfl
      exact hwholes specifier hspecifier _ hbinds
        (mem_distinctAliases_names.mp (List.mem_map_of_mem hfirst))
    · rintro other hother name hbinds rfl
      exact hitems specifier hspecifier _ hbinds hother

/-- Bindings of a file where no name was declared twice declare none twice exactly
when the names that come into the file are not declared there. -/
theorem Distinct.declaresOnce_iff_freshNames (h : bindings.Distinct others globalName) :
    bindings.DeclaresOnce others ↔ bindings.FreshNames others globalName := by
  have hwhole : ∀ named ∈ bindings.named,
      named.localName ∉ bindings.whole.map WholeImport.name := by
    intro named hnamed hmem
    obtain ⟨whole, hwhole, hname⟩ := List.mem_map.mp hmem
    exact named_ne_whole h.localNames hnamed hwhole hname.symm
  rw [declaresOnce_iff_avoid h.others_nodup, pairwise_specifiers_iff h,
    specifiers_avoid_iff h hwhole, specifiers_avoid_iff h h.named]
  constructor
  · rintro ⟨hnamed, hwholes, hitems, haliases⟩
    refine ⟨hitems, hwholes, hnamed, fun hglobal => ?_⟩
    obtain ⟨whole, hmem, rfl⟩ := List.mem_map.mp hglobal
    exact haliases whole hmem
  · intro hfresh
    refine ⟨hfresh.target_named, hfresh.target_whole, hfresh.target_others, fun whole hmem => ?_⟩
    by_cases hglobal : whole.name = globalName
    · rw [hglobal]
      exact hfresh.globalName (hglobal ▸ List.mem_map_of_mem hmem)
    · exact h.whole whole hmem hglobal

end Bindings

/-! ## Names in a migrated file -/

section Programs

variable {options : MigrationOptions} {dialect : Dialect} {body : Text} {program : Program}

/-- When no name is declared twice, the names that are bound and the names of the
other items are distinct. -/
private theorem nodup_found (hnodup : program.declaredNames.Nodup) :
    ((program.importSites body options.module options.globalName).bindings.localNames ++
      program.otherNames options.module).Nodup :=
  (program.perm_declaredNames body options.module options.globalName).nodup_iff.mpr hnodup

private theorem nodup_opened (hnodup : program.declaredNames.Nodup) :
    (opened options body program).bindings.localNames.Nodup := by
  have hfound := (List.nodup_append.mp (@nodup_found options body program hnodup)).1
  rcases @opened_bindings options body program with hsame | ⟨-, hnew, hadded⟩
  · rw [hsame]
    exact hfound
  · rw [hadded, localNames_addWhole]
    refine List.nodup_append.mpr ⟨hfound, List.nodup_singleton _, ?_⟩
    intro name hname other hother hsame
    rw [hsame, List.mem_singleton.mp hother] at hname
    exact hnew hname

/-- Only the global name can be an alias before any stage and declared by another
item. -/
private theorem whole_notMem_opened (hnodup : program.declaredNames.Nodup) {name : String}
    (hname : name ∈ (opened options body program).bindings.whole.map WholeImport.name)
    (hother : name ≠ options.globalName) : name ∉ program.otherNames options.module := by
  have hapart := (List.nodup_append.mp (@nodup_found options body program hnodup)).2.2
  intro hmem
  rcases @opened_bindings options body program with hsame | ⟨-, -, hadded⟩
  · rw [hsame] at hname
    exact hapart name (List.mem_append_right _ hname) name hmem rfl
  · rw [hadded, Bindings.addWhole, List.map_append, List.mem_append] at hname
    rcases hname with hname | hname
    · exact hapart name (List.mem_append_right _ hname) name hmem rfl
    · exact hother (List.mem_singleton.mp hname)

/-- The stage of leftovers changes what bindings have learned, not what they bind. -/
theorem learns_flagLeftovers :
    (referenceDraft options dialect body program).bindings.Learns .any
      (finalDraft options dialect body program).bindings := by
  have hleft : (referenceDraft options dialect body program).Continues (fun _ => True) .any
      ((referenceDraft options dialect body program).flagLeftovers body program) :=
    Draft.continues_flagLeftovers trivial fun _ _ _ => trivial
  rw [finalDraft_bindings]
  exact hleft.bindings

/-- There are no more aliases in the end than before. -/
private theorem finalDraft_whole (hplaced : program.Placed body)
    (hbuiltIn : options.mappings = .builtIn) :
    ((finalDraft options dialect body program).bindings.whole.map WholeImport.name).Sublist
      ((opened options body program).bindings.whole.map WholeImport.name) := by
  rw [learns_flagLeftovers.map_name,
    ← (@continues_rewritten options dialect _ _ hplaced hbuiltIn).bindings.map_name]
  simp only [referenceDraft]
  split
  · exact List.filter_sublist.map _
  · exact .refl _

private theorem finalDraft_named (hplaced : program.Placed body)
    (hbuiltIn : options.mappings = .builtIn) :
    (finalDraft options dialect body program).bindings.named.map NamedImport.localName =
      (opened options body program).bindings.named.map NamedImport.localName := by
  rw [learns_flagLeftovers.map_localName, referenceDraft_named,
    (@continues_rewritten options dialect _ _ hplaced hbuiltIn).bindings.map_localName]

/-- A single export has another name only where that is another one, and has
learned a name that can be written plainly. -/
private theorem written_finalDraft (hplaced : program.Placed body)
    (hbuiltIn : options.mappings = .builtIn) {named : NamedImport}
    (h : named ∈ (finalDraft options dialect body program).bindings.named) :
    named.renamed ≠ some named.exported ∧
      ∀ target, named.target = some target → isPlainName target = true := by
  have hlearns := (@continues_rewritten options dialect _ _ hplaced hbuiltIn).bindings
  rw [finalDraft_bindings] at h
  obtain ⟨index, hindex⟩ := List.mem_iff_getElem?.mp h
  rw [Draft.named_flagLeftovers] at hindex
  obtain ⟨learned, hlearned, rfl⟩ := Option.map_eq_some_iff.mp hindex
  refine ⟨?_, (learned_referenceDraft hlearns (List.mem_of_getElem? hlearned)).2⟩
  rw [referenceDraft_named] at hlearned
  obtain ⟨first, hfirst, hsame⟩ := hlearns.named_before hlearned
  show learned.renamed ≠ some learned.exported
  rw [hsame.renamed, hsame.exported]
  exact (fresh_opened (List.mem_of_getElem? hfirst)).renamed

private theorem finalDraft_distinct (hplaced : program.Placed body)
    (hbuiltIn : options.mappings = .builtIn) (hnodup : program.declaredNames.Nodup) :
    (finalDraft options dialect body program).bindings.Distinct
      (program.otherNames options.module) options.globalName := by
  have hfound := List.nodup_append.mp (@nodup_found options body program hnodup)
  have hopened := @nodup_opened options body program hnodup
  have hwhole := @finalDraft_whole options dialect _ _ hplaced hbuiltIn
  have hnamed := @finalDraft_named options dialect _ _ hplaced hbuiltIn
  refine ⟨hopened.sublist ?_, hfound.2.1, ?_, ?_,
    fun named hmem => (written_finalDraft hplaced hbuiltIn hmem).1,
    fun named hmem => (written_finalDraft hplaced hbuiltIn hmem).2⟩
  · unfold Bindings.localNames
    rw [hnamed]
    exact (List.Sublist.refl _).append hwhole
  · intro named hmem hother
    have hlocal : named.localName ∈ (opened options body program).bindings.named.map
        NamedImport.localName := by
      rw [← hnamed]
      exact List.mem_map_of_mem hmem
    rw [opened_named] at hlocal
    exact hfound.2.2 _ (List.mem_append_left _ hlocal) _ hother rfl
  · intro whole hmem hother
    exact whole_notMem_opened hnodup (hwhole.subset (List.mem_map_of_mem hmem)) hother

/-- A file that declares no name twice is left so exactly when no name that comes
into it is declared there. -/
theorem declaresOnce_iff (hread : Program.read? dialect body = some program)
    (hbuiltIn : options.mappings = .builtIn) (hnodup : program.declaredNames.Nodup) :
    (finalDraft options dialect body program).bindings.DeclaresOnce
        (program.otherNames options.module) ↔
      (finalDraft options dialect body program).bindings.FreshNames
        (program.otherNames options.module) options.globalName :=
  (finalDraft_distinct (Program.placed_of_read hread) hbuiltIn hnodup).declaresOnce_iff_freshNames

end Programs

/-- A file with a variable that has the name of a namespace, but not of the one
that its call is moved to. -/
private def mediaFile : Text :=
  ("import \x7b getContext, settings \x7d from \"@microsoft/teams-js\";\n" ++
    "const media = settings;\ngetContext();\n").toList

private theorem mediaFile_facts :
    ∀ program ∈ Program.read? ⟨true, false, true⟩ mediaFile,
      program.declaredNames.Nodup ∧ program.otherNames defaultModule = ["media"] ∧
      (finalDraft {} ⟨true, false, true⟩ mediaFile program).bindings =
        { named := [{ exported := "getContext", target := some "app" }, { exported := "settings" }]
          whole := [] } := by
  decide +kernel

/-- The file declares no name twice afterwards. -/
theorem mediaFile_declaresOnce :
    ∃ program, Program.read? ⟨true, false, true⟩ mediaFile = some program ∧
      (finalDraft {} ⟨true, false, true⟩ mediaFile program).bindings.DeclaresOnce
        (program.otherNames defaultModule) := by
  have hreads : (Program.read? ⟨true, false, true⟩ mediaFile).isSome = true := by decide +kernel
  obtain ⟨program, hread⟩ := Option.isSome_iff_exists.mp hreads
  obtain ⟨hnodup, hothers, hbindings⟩ := mediaFile_facts program hread
  refine ⟨program, hread, (@declaresOnce_iff {} _ _ _ hread rfl hnodup).mpr ?_⟩
  rw [hbindings, hothers]
  refine ⟨by simp, by simp, ?_, by simp⟩
  simp [NamedImport.localName]

/-- A file with a variable that has the name of the namespace that its call is
moved to. -/
private def appFile : Text :=
  ("import \x7b getContext \x7d from \"@microsoft/teams-js\";\n" ++
    "const app = 1;\ngetContext();\n").toList

/-- What the file is migrated to. -/
private def appFileAfter : Text :=
  ("import \x7b app \x7d from \"@microsoft/teams-js\";\n" ++
    "const app = 1;\napp.getContext();\n").toList

private theorem appFile_facts :
    (Program.read? ⟨true, false, true⟩ appFile).map Program.declaredNames =
      some ["getContext", "app"] ∧
    (Program.read? ⟨true, false, true⟩ appFileAfter).map Program.declaredNames =
      some ["app", "app"] ∧
    (transform {} "file:///mod.ts" .typeScript appFile).toOption.map (·.text) =
      some appFileAfter := by
  decide +kernel

/-- The file declares no name twice, and the file that it is migrated to does. -/
theorem appFile_declares_twice :
    ∃ program file migrated, Program.read? ⟨true, false, true⟩ appFile = some program ∧
      program.declaredNames.Nodup ∧
      transform {} "file:///mod.ts" .typeScript appFile = .ok file ∧
      Program.read? ⟨true, false, true⟩ file.text = some migrated ∧
      ¬ migrated.declaredNames.Nodup := by
  obtain ⟨hbefore, hafter, htext⟩ := appFile_facts
  obtain ⟨program, hread, hnames⟩ := Option.map_eq_some_iff.mp hbefore
  obtain ⟨migrated, hmigrated, hmigratedNames⟩ := Option.map_eq_some_iff.mp hafter
  cases hfile : transform {} "file:///mod.ts" .typeScript appFile with
  | error e =>
    rw [hfile] at htext
    cases htext
  | ok file =>
    rw [hfile] at htext
    refine ⟨program, file, migrated, hread, ?_, rfl, ?_, ?_⟩
    · rw [hnames]
      decide
    · rw [← hmigrated]
      exact congrArg _ (Option.some.inj htext)
    · rw [hmigratedNames]
      decide

end SdkMigration
