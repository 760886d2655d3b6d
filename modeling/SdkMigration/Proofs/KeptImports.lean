import SdkMigration.Proofs.Grammar.Programs
import SdkMigration.Proofs.References

/-!
# Imports that are kept

A name that is bound to a single export may be used where nothing replaces it.
Then the migrated file should go on importing it.

`imports_iff_keeps` tells exactly which names the new declarations bind to
which exports.  An import whose references were moved stays only when the walk
over the file stops at a use of it.  Two things stand between that and what a
reader of the file would ask for.  The walk passes over the module of an
`import name = module` declaration, and it is not made at all for an import
that was moved to a namespace of the same name.
-/

namespace SdkMigration

/-! ## Uses of a name -/

/-- Whether an identifier in a role uses a name that is declared elsewhere. -/
def Role.isUse : Role → Bool
  | .reference => true
  | .exportName => true
  | .functionName => false
  | .className => false
  | .enumName => false
  | .interfaceName => false
  | .aliasName => false
  | .namespaceName => false
  | .enumMember => false
  | .typeParameter => false
  | .label => false

mutual

/-- The identifiers that use a name, in expressions, in types, in exports, and
in the modules of `import name = module` declarations. -/
def Tree.uses : Tree → List Identifier
  | .leaf _ _ => []
  | .text _ _ => []
  | .identifier role id => if role.isUse then [id] else []
  | .binding _ type => usesAll type
  | .member _ object _ _ => object.uses
  | .call _ callee arguments typeArguments =>
    callee.uses ++ usesAll arguments ++ usesAll typeArguments
  | .qualified _ left _ => left.uses
  | .typeReference _ name arguments => name.uses ++ usesAll arguments
  | .heritage _ value arguments => value.uses ++ usesAll arguments
  | .declaration _ _ parts => usesAll parts
  | .importDeclaration _ => []
  | .importEquals _ module => module.uses
  | .anchored _ _ inner => inner.uses
  | .branch _ _ children => usesAll children

/-- The identifiers that use a name in trees. -/
def usesAll : List Tree → List Identifier
  | [] => []
  | tree :: rest => tree.uses ++ usesAll rest

end

mutual

/-- The uses of a name in the modules of `import name = module` declarations. -/
def Tree.moduleUses : Tree → List Identifier
  | .leaf _ _ => []
  | .text _ _ => []
  | .identifier _ _ => []
  | .binding _ type => moduleUsesAll type
  | .member _ object _ _ => object.moduleUses
  | .call _ callee arguments typeArguments =>
    callee.moduleUses ++ moduleUsesAll arguments ++ moduleUsesAll typeArguments
  | .qualified _ left _ => left.moduleUses
  | .typeReference _ name arguments => name.moduleUses ++ moduleUsesAll arguments
  | .heritage _ value arguments => value.moduleUses ++ moduleUsesAll arguments
  | .declaration _ _ parts => moduleUsesAll parts
  | .importDeclaration _ => []
  | .importEquals _ module => module.uses
  | .anchored _ _ inner => inner.moduleUses
  | .branch _ _ children => moduleUsesAll children

/-- The uses of a name in the modules of declarations among trees. -/
def moduleUsesAll : List Tree → List Identifier
  | [] => []
  | tree :: rest => tree.moduleUses ++ moduleUsesAll rest

end

mutual

/-- The walk stops at every use of a name that is not in the module of an
`import name = module` declaration. -/
theorem Tree.visit_of_use {id : Identifier} :
    ∀ (tree : Tree) (around : List Nat), id ∈ tree.uses → id ∉ tree.moduleUses →
      ∃ outer, Visit.identifier id outer ∈ tree.visits (fun _ => false) around
  | .leaf _ _, _, huse, _ => by cases huse
  | .text _ _, _, huse, _ => by cases huse
  | .identifier role found, around, huse, _ => by
    unfold Tree.uses at huse
    split at huse
    · obtain rfl := List.mem_singleton.mp huse
      exact ⟨around, List.mem_singleton_self _⟩
    · cases huse
  | .binding _ type, around, huse, hmodule => visit_of_useAll type around huse hmodule
  | .member _ object _ _, around, huse, hmodule => Tree.visit_of_use object around huse hmodule
  | .call _ callee arguments typeArguments, around, huse, hmodule => by
    simp only [Tree.uses, Tree.moduleUses, List.mem_append, not_or] at huse hmodule
    obtain ⟨⟨hcallee, harguments⟩, htypes⟩ := hmodule
    simp only [Tree.visits, Bool.false_eq_true, if_false, List.mem_cons, List.mem_append]
    rcases huse with (huse | huse) | huse
    · obtain ⟨outer, hvisit⟩ := Tree.visit_of_use callee around huse hcallee
      exact ⟨outer, Or.inr (Or.inl (Or.inl hvisit))⟩
    · obtain ⟨outer, hvisit⟩ := visit_of_useAll arguments around huse harguments
      exact ⟨outer, Or.inr (Or.inl (Or.inr hvisit))⟩
    · obtain ⟨outer, hvisit⟩ := visit_of_useAll typeArguments around huse htypes
      exact ⟨outer, Or.inr (Or.inr hvisit)⟩
  | .qualified _ left _, around, huse, hmodule => Tree.visit_of_use left around huse hmodule
  | .typeReference _ name arguments, around, huse, hmodule => by
    simp only [Tree.uses, Tree.moduleUses, List.mem_append, not_or] at huse hmodule
    simp only [Tree.visits, List.mem_append]
    rcases huse with huse | huse
    · exact (Tree.visit_of_use name around huse hmodule.1).imp fun _ => Or.inl
    · exact (visit_of_useAll arguments around huse hmodule.2).imp fun _ => Or.inr
  | .heritage _ value arguments, around, huse, hmodule => by
    simp only [Tree.uses, Tree.moduleUses, List.mem_append, not_or] at huse hmodule
    simp only [Tree.visits, List.mem_append]
    rcases huse with huse | huse
    · exact (Tree.visit_of_use value around huse hmodule.1).imp fun _ => Or.inl
    · exact (visit_of_useAll arguments around huse hmodule.2).imp fun _ => Or.inr
  | .declaration _ _ parts, around, huse, hmodule => by
    obtain ⟨outer, hvisit⟩ := visit_of_useAll parts around huse hmodule
    exact ⟨outer, List.mem_cons_of_mem _ hvisit⟩
  | .importDeclaration _, _, huse, _ => by cases huse
  | .importEquals _ module, _, huse, hmodule => absurd huse hmodule
  | .anchored _ start inner, around, huse, hmodule =>
    Tree.visit_of_use inner (start :: around) huse hmodule
  | .branch _ _ children, around, huse, hmodule => visit_of_useAll children around huse hmodule

/-- The walk stops at every use in trees that is not in a module. -/
theorem visit_of_useAll {id : Identifier} :
    ∀ (trees : List Tree) (around : List Nat), id ∈ usesAll trees → id ∉ moduleUsesAll trees →
      ∃ outer, Visit.identifier id outer ∈ visitsAll (fun _ => false) around trees
  | [], _, huse, _ => by cases huse
  | tree :: rest, around, huse, hmodule => by
    simp only [usesAll, moduleUsesAll, List.mem_append, not_or] at huse hmodule
    simp only [visitsAll, List.mem_append]
    rcases huse with huse | huse
    · exact (Tree.visit_of_use tree around huse hmodule.1).imp fun _ => Or.inl
    · exact (visit_of_useAll rest around huse hmodule.2).imp fun _ => Or.inr

end

/-- Whether the walk over a program stops at an identifier with a name that no
replacement covers. -/
def Program.leaves (program : Program) (edits : Edits) (name : String) : Prop :=
  ∃ id around, Visit.identifier id around ∈ program.visits (fun _ => false) ∧ id.name = name ∧
    edits.covers id.span.start = false

/-! ## What the new declarations bind -/

/-- Whether a draft, its references being dealt with, leads to declarations that
bind a name to an export.  Either references were moved to a namespace of that
name, or the name is imported as before: nothing was moved through it, or it
is dropped and the walk stops at a use of it. -/
def Draft.Keeps (draft : Draft) (program : Program) (name exported : String) : Prop :=
  (∃ named ∈ draft.bindings.named, named.target = some name ∧ exported = name) ∨
    ∃ index named, draft.bindings.named[index]? = some named ∧ named.localName = name ∧
      named.exported = exported ∧ (named.renamed = none → isPlainName exported = true) ∧
      (named.target = none ∨
        (droppedNames 0 draft.bindings.named).lookup name = some index ∧
          program.leaves draft.edits name)

namespace Bindings

theorem imports_named_iff {bindings : Bindings} {name exported : String} :
    bindings.Imports name [exported] ↔
      ∃ named ∈ bindings.named, ∃ text ∈ Declarations.specifiersOf named,
        Declarations.SpecifierBinds text name exported := by
  constructor
  · intro h
    cases h with
    | named mem binds =>
      obtain ⟨named, hnamed, htext⟩ := Declarations.mem_specifiers.mp (List.mem_map_of_mem mem)
      exact ⟨named, hnamed, _, htext, binds⟩
  · rintro ⟨named, hnamed, text, htext, hbinds⟩
    exact imports_of_specifier hnamed htext hbinds

end Bindings

/-- What the specifiers of a single export bind: a namespace it was moved to, and
what it bound before where nothing was moved or its old name is marked. -/
theorem specifiersOf_binds (named : NamedImport)
    (hplain : ∀ target, named.target = some target → isPlainName target = true)
    {name exported : String} :
    (∃ text ∈ Declarations.specifiersOf named, Declarations.SpecifierBinds text name exported) ↔
      (named.target = some name ∧ exported = name) ∨
        (named.localName = name ∧ named.exported = exported ∧
          (named.renamed = none → isPlainName exported = true) ∧
          (named.target = none ∨ named.keepsLocalBinding = true)) := by
  constructor
  · rintro ⟨text, htext, hbinds⟩
    rcases Declarations.mem_specifiersOf.mp htext with htarget | ⟨rfl, hneeded⟩
    · obtain ⟨rfl, rfl⟩ := (Declarations.specifierBinds_plain (hplain _ htarget)).mp hbinds
      exact Or.inl ⟨htarget, rfl⟩
    · obtain ⟨hname, hexported, hwritten⟩ := Declarations.specifierBinds_sameBinding.mp hbinds
      exact Or.inr ⟨hname, hexported, hwritten, hneeded⟩
  · rintro (⟨htarget, rfl⟩ | ⟨hname, hexported, hwritten, hneeded⟩)
    · exact ⟨_, Declarations.mem_specifiersOf.mpr (Or.inl htarget), .same (hplain _ htarget)⟩
    · exact ⟨_, Declarations.mem_specifiersOf.mpr (Or.inr ⟨rfl, hneeded⟩),
        Declarations.specifierBinds_sameBinding.mpr ⟨hname, hexported, hwritten⟩⟩

section Programs

variable {options : MigrationOptions} {dialect : Dialect} {body : Text} {program : Program}

/-- Whether the stage of leftovers marks an export is told by the walk. -/
private theorem asksFor_iff {draft : Draft} {named : NamedImport} {index : Nat}
    (hnamed : draft.bindings.named[index]? = some named) :
    ((program.visits fun _ => false).any
        (·.asksFor draft.edits (droppedNames 0 draft.bindings.named) index)) = true ↔
      (droppedNames 0 draft.bindings.named).lookup named.localName = some index ∧
        program.leaves draft.edits named.localName := by
  rw [List.any_eq_true]
  constructor
  · rintro ⟨visit, hvisit, hasks⟩
    cases visit with
    | call site around => cases hasks
    | identifier id around =>
      unfold Visit.asksFor at hasks
      rw [Bool.and_eq_true, beq_iff_eq, Bool.not_eq_true'] at hasks
      obtain ⟨hlookup, hcovers⟩ := hasks
      obtain ⟨offset, other, hindex, hother, _, hname⟩ :=
        mem_droppedNames.mp (mem_of_lookup hlookup)
      rw [Nat.zero_add] at hindex
      rw [← hindex, hnamed] at hother
      obtain rfl := Option.some.inj hother
      rw [hname]
      exact ⟨hlookup, id, around, hvisit, rfl, hcovers⟩
  · rintro ⟨hlookup, id, around, hvisit, hname, hcovers⟩
    refine ⟨_, hvisit, ?_⟩
    show ((droppedNames 0 draft.bindings.named).lookup id.name == some index &&
      !draft.edits.covers id.span.start) = true
    rw [hname, hlookup, hcovers]
    simp

/-- Which names the new declarations bind to which exports. -/
theorem imports_iff_keeps (hread : Program.read? dialect body = some program)
    (hbuiltIn : options.mappings = .builtIn) {name exported : String} :
    (finalDraft options dialect body program).bindings.Imports name [exported] ↔
      (referenceDraft options dialect body program).Keeps program name exported := by
  have hplaced := Program.placed_of_read hread
  have hlearned : ∀ named ∈ (referenceDraft options dialect body program).bindings.named, _ :=
    fun named => learned_referenceDraft (continues_rewritten hplaced hbuiltIn).bindings
  rw [finalDraft_bindings, Bindings.imports_named_iff]
  generalize referenceDraft options dialect body program = draft at hlearned ⊢
  constructor
  · rintro ⟨kept, hkept, hbinds⟩
    obtain ⟨index, hindex⟩ := List.mem_iff_getElem?.mp hkept
    rw [Draft.named_flagLeftovers] at hindex
    obtain ⟨named, hnamed, rfl⟩ := Option.map_eq_some_iff.mp hindex
    obtain ⟨hunmarked, hplain⟩ := hlearned named (List.mem_of_getElem? hnamed)
    rcases (specifiersOf_binds (named.keptIf _) hplain).mp hbinds with
      hmoved | ⟨hname, hexported, hquotes, hneeded⟩
    · exact Or.inl ⟨named, List.mem_of_getElem? hnamed, hmoved⟩
    · refine Or.inr ⟨index, named, hnamed, hname, hexported, hquotes, hneeded.imp_right ?_⟩
      intro hmarked
      have hasked : (_ || named.keepsLocalBinding) = true := hmarked
      rw [hunmarked, Bool.or_false, asksFor_iff hnamed] at hasked
      rw [← hname]
      exact hasked
  · intro hkeeps
    rcases hkeeps with ⟨named, hmem, hmoved⟩ | ⟨index, named, hnamed, hname, hexported, hquotes,
      hneeded⟩
    · obtain ⟨index, hnamed⟩ := List.mem_iff_getElem?.mp hmem
      have hflagged := draft.named_flagLeftovers body program index
      rw [hnamed] at hflagged
      exact ⟨_, List.mem_of_getElem? hflagged,
        (specifiersOf_binds (named.keptIf _) (hlearned named hmem).2).mpr (Or.inl hmoved)⟩
    · have hflagged := draft.named_flagLeftovers body program index
      rw [hnamed] at hflagged
      refine ⟨_, List.mem_of_getElem? hflagged,
        (specifiersOf_binds (named.keptIf _)
          (hlearned named (List.mem_of_getElem? hnamed)).2).mpr
            (Or.inr ⟨hname, hexported, hquotes, hneeded.imp_right ?_⟩)⟩
      intro hleft
      rw [← hname] at hleft
      show (_ || named.keepsLocalBinding) = true
      rw [(asksFor_iff hnamed).mpr hleft, Bool.true_or]

/-- Whether a migrated file goes on importing every single export whose name it
still uses: wherever no replacement covers a use of the name, the new
declarations bind the name to the same export. -/
def KeepsImports (options : MigrationOptions) (dialect : Dialect) (body : Text)
    (program : Program) : Prop :=
  ∀ named ∈ (opened options body program).bindings.named, ∀ use ∈ usesAll program.items,
    use.name = named.localName →
    (finalDraft options dialect body program).edits.covers use.span.start = false →
    (finalDraft options dialect body program).bindings.Imports named.localName [named.exported]

/-- The import of a single export is kept for every use that is left, when the walk
stops at all uses of the name and what the references through the import were
moved to does not take its name. -/
theorem keepsImports_of_visited (hread : Program.read? dialect body = some program)
    (hbuiltIn : options.mappings = .builtIn)
    (hdistinct : ((opened options body program).bindings.named.map NamedImport.localName).Nodup)
    (hplain : ∀ named ∈ (opened options body program).bindings.named,
      named.renamed = none → isPlainName named.exported = true)
    (htargets : ∀ named ∈ (referenceDraft options dialect body program).bindings.named,
      named.target = some named.localName → named.exported = named.localName)
    (hmodules : ∀ named ∈ (opened options body program).bindings.named,
      ∀ use ∈ moduleUsesAll program.items, use.name ≠ named.localName) :
    KeepsImports options dialect body program := by
  intro named hmem use huse hname hcovers
  rw [imports_iff_keeps hread hbuiltIn]
  have hplaced := Program.placed_of_read hread
  have hlearns := (@continues_rewritten options dialect _ _ hplaced hbuiltIn).bindings
  obtain ⟨index, hindex⟩ := List.mem_iff_getElem?.mp hmem
  obtain ⟨learned, hlearned, hsame⟩ := hlearns.named_after hindex
  rw [← referenceDraft_named] at hlearned
  have hlocal : learned.localName = named.localName := hsame.localName
  cases htarget : learned.target with
  | none =>
    exact Or.inr ⟨index, learned, hlearned, hlocal, hsame.exported,
      fun hrenamed => hplain named hmem (hsame.renamed ▸ hrenamed), Or.inl htarget⟩
  | some target =>
    by_cases hcoincides : target = learned.localName
    · rw [hcoincides] at htarget
      have hexported := htargets learned (List.mem_of_getElem? hlearned) htarget
      rw [hlocal] at htarget hexported
      exact Or.inl ⟨learned, List.mem_of_getElem? hlearned, htarget,
        hsame.exported.symm.trans hexported⟩
    · have hdrops : learned.dropsLocalBinding = true := by
        unfold NamedImport.dropsLocalBinding
        rw [htarget]
        simpa using hcoincides
      have hnames : (referenceDraft options dialect body program).bindings.named.map
          NamedImport.localName = (opened options body program).bindings.named.map
          NamedImport.localName := by
        rw [referenceDraft_named]
        exact hlearns.map_localName
      have hlookup := lookup_droppedNames (hnames ▸ hdistinct) hlearned hdrops
      rw [hlocal] at hlookup
      have hvisited : use ∉ moduleUsesAll program.items :=
        fun hmodule => hmodules named hmem use hmodule hname
      obtain ⟨around, hvisit⟩ := visit_of_useAll program.items [] huse hvisited
      refine Or.inr ⟨index, learned, hlearned, hlocal, hsame.exported,
        fun hrenamed => hplain named hmem (hsame.renamed ▸ hrenamed), Or.inr ⟨hlookup, ?_⟩⟩
      exact ⟨use, around, hvisit, hname, uncovered_referenceDraft hplaced hcovers⟩

/-- Whether every single export whose name a migrated file still uses is one that
the draft keeps. -/
def KeepsUses (options : MigrationOptions) (dialect : Dialect) (body : Text)
    (program : Program) : Prop :=
  ∀ named ∈ (opened options body program).bindings.named, ∀ use ∈ usesAll program.items,
    use.name = named.localName →
    (finalDraft options dialect body program).edits.covers use.span.start = false →
    (referenceDraft options dialect body program).Keeps program named.localName named.exported

/-- A migrated file goes on importing what it still uses exactly when each import
with a use that is left was not moved, or was moved to a namespace of another
name and has such a use where the walk stops. -/
theorem keepsImports_iff (hread : Program.read? dialect body = some program)
    (hbuiltIn : options.mappings = .builtIn) :
    KeepsImports options dialect body program ↔ KeepsUses options dialect body program := by
  unfold KeepsImports KeepsUses
  simp only [imports_iff_keeps hread hbuiltIn]

/-- A file that uses a single export where no rule applies. -/
private def leftUseFile : Text :=
  "import \x7b settings \x7d from \"@microsoft/teams-js\";\nf(settings);\n".toList

private theorem leftUseFile_facts :
    ∀ program ∈ Program.read? ⟨true, false, true⟩ leftUseFile,
      (opened {} leftUseFile program).bindings.named = [{ exported := "settings" }] ∧
      (finalDraft {} ⟨true, false, true⟩ leftUseFile program).bindings.named.flatMap
        Declarations.specifiersOf = ["settings"] := by
  decide +kernel

/-- The file keeps the import. -/
theorem leftUseFile_keepsUses :
    ∃ program, Program.read? ⟨true, false, true⟩ leftUseFile = some program ∧
      KeepsUses {} ⟨true, false, true⟩ leftUseFile program := by
  have hreads : (Program.read? ⟨true, false, true⟩ leftUseFile).isSome = true := by
    decide +kernel
  obtain ⟨program, hread⟩ := Option.isSome_iff_exists.mp hreads
  obtain ⟨hnamed, hspecifiers⟩ := leftUseFile_facts program hread
  refine ⟨program, hread, (keepsImports_iff hread rfl).mp fun named hmem _ _ _ _ => ?_⟩
  rw [hnamed] at hmem
  obtain rfl := List.mem_singleton.mp hmem
  have htext : "settings" ∈ (finalDraft {} ⟨true, false, true⟩ leftUseFile
      program).bindings.named.flatMap Declarations.specifiersOf := by
    rw [hspecifiers]
    decide
  obtain ⟨kept, hkept, htext⟩ := List.mem_flatMap.mp htext
  exact Bindings.imports_named_iff.mpr ⟨kept, hkept, "settings", htext, .same (by decide +kernel)⟩

end Programs

/-- A file that uses a single export behind `import =`, where the walk does not
stop. -/
private def importEqualsFile : Text :=
  ("import \x7b settings \x7d from \"@microsoft/teams-js\";\nsettings.getSettings();\n" ++
    "import S = settings.Settings;\n").toList

/-- What becomes of the import in the file: the name is used and no replacement
covers the use, but the new declarations only import another namespace. -/
private theorem importEqualsFile_facts :
    ∀ program ∈ Program.read? ⟨true, false, true⟩ importEqualsFile,
      ({ exported := "settings" } : NamedImport) ∈
        (opened {} importEqualsFile program).bindings.named ∧
      (∃ use ∈ usesAll program.items, use.name = "settings" ∧
        (finalDraft {} ⟨true, false, true⟩ importEqualsFile program).edits.covers use.span.start =
          false) ∧
      (finalDraft {} ⟨true, false, true⟩ importEqualsFile program).bindings.named.flatMap
        Declarations.specifiersOf = ["pages"] := by
  decide +kernel

/-- The import of the file is lost though it is still needed. -/
theorem importEqualsFile_not_kept :
    ∃ program, Program.read? ⟨true, false, true⟩ importEqualsFile = some program ∧
      ¬ KeepsImports {} ⟨true, false, true⟩ importEqualsFile program := by
  have hread : (Program.read? ⟨true, false, true⟩ importEqualsFile).isSome = true := by
    decide +kernel
  obtain ⟨program, hprogram⟩ := Option.isSome_iff_exists.mp hread
  obtain ⟨hnamed, ⟨use, huse, hname, hcovers⟩, hspecifiers⟩ :=
    importEqualsFile_facts program hprogram
  refine ⟨program, hprogram, fun hkeeps => ?_⟩
  have himports := hkeeps _ hnamed use huse hname hcovers
  obtain ⟨named, hmem, text, htext, hbinds⟩ := Bindings.imports_named_iff.mp himports
  have hmoved : text ∈ ["pages"] := by
    rw [← hspecifiers]
    exact List.mem_flatMap.mpr ⟨named, hmem, htext⟩
  rw [List.mem_singleton.mp hmoved, Declarations.specifierBinds_plain (by decide +kernel)] at hbinds
  exact absurd hbinds.1 (by decide)

end SdkMigration
