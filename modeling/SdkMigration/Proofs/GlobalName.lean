import SdkMigration.Proofs.TouchedText

/-!
# Files that declare the global name

The global name stands for the module only in a file that gives it no meaning of
its own.  Which declarations count is decided by their form, not by their place:
those of variables, functions, classes and enumerations and those of imports
count at any depth.  The name of a function or class that is an expression or
exported by default, and the name of a namespace, do not count.  They are taken
for uses of the global name.
-/

namespace SdkMigration

/-! ## Values that have a name -/

/-- The forms in which a file gives a value a name. -/
inductive ValueForm where
  /-- A variable, a parameter, a part of a pattern or a caught value. -/
  | variable
  | functionDeclaration
  | classDeclaration
  | enumeration
  | importSpecifier
  | importEquals
  /-- A function as an expression or as what is exported by default. -/
  | functionExpression
  /-- A class as an expression or as what is exported by default. -/
  | classExpression
  | namespace
deriving DecidableEq

/-- Whether a form counts as a declaration of the global name. -/
def ValueForm.counts : ValueForm → Bool
  | .functionExpression => false
  | .classExpression => false
  | .namespace => false
  | _ => true

/-- The form of a declaration. -/
def DeclarationKind.form : DeclarationKind → ValueForm
  | .functionValue => .functionDeclaration
  | .classValue => .classDeclaration
  | .enumValue => .enumeration

/-- The form in which an identifier gives a value a name, if it does. -/
def Role.form? : Role → Option ValueForm
  | .functionName => some .functionExpression
  | .className => some .classExpression
  | .namespaceName => some .namespace
  | _ => none

mutual

/-- The values that have a name in a tree, at any depth, each by its form and its
name. -/
def Tree.namedValues : Tree → List (ValueForm × String)
  | .leaf _ _ => []
  | .text _ _ => []
  | .identifier role id => (role.form?.map fun form => (form, id.name)).toList
  | .binding id type => (.variable, id.name) :: allNamedValues type
  | .member _ object _ _ => object.namedValues
  | .call _ callee arguments typeArguments =>
    callee.namedValues ++ (allNamedValues arguments ++ allNamedValues typeArguments)
  | .qualified _ left _ => left.namedValues
  | .typeReference _ name arguments => name.namedValues ++ allNamedValues arguments
  | .heritage _ value arguments => value.namedValues ++ allNamedValues arguments
  | .declaration kind id parts => (kind.form, id.name) :: allNamedValues parts
  | .importDeclaration found =>
    found.specifiers.map fun specifier => (.importSpecifier, specifier.localName.name)
  | .importEquals header _ => [(.importEquals, header.name.name)]
  | .anchored _ _ inner => inner.namedValues
  | .branch _ _ children => allNamedValues children

/-- The values that have a name in trees. -/
def allNamedValues : List Tree → List (ValueForm × String)
  | [] => []
  | tree :: rest => tree.namedValues ++ allNamedValues rest

end

/-- The values that have a name in a program. -/
def Program.namedValues (program : Program) : List (ValueForm × String) :=
  allNamedValues program.items

/-- Whether a value has a name in a form that counts. -/
abbrev Counted (name : String) (found : List (ValueForm × String)) : Prop :=
  ∃ form : ValueForm, form.counts = true ∧ (form, name) ∈ found

/-! ## Names that count as declared -/

section Counted

variable {name other : String} {form : ValueForm} {a b : List (ValueForm × String)}

theorem counted_append : Counted name (a ++ b) ↔ Counted name a ∨ Counted name b := by
  simp only [Counted, List.mem_append, and_or_left, exists_or]

theorem counted_cons (h : form.counts = true) :
    Counted name ((form, other) :: a) ↔ other = name ∨ Counted name a := by
  simp only [Counted, List.mem_cons, Prod.mk.injEq, and_or_left, exists_or]
  refine or_congr_left ⟨?_, fun hname => ⟨form, h, rfl, hname.symm⟩⟩
  rintro ⟨_, _, _, hname⟩
  exact hname.symm

/-- No role of an identifier counts. -/
theorem not_counted_role (role : Role) :
    ¬ Counted name (role.form?.map fun form => (form, other)).toList := by
  rintro ⟨form, hcounts, hmem⟩
  cases role <;> simp [Role.form?] at hmem <;> obtain ⟨rfl, -⟩ := hmem <;> cases hcounts

theorem counted_specifiers (specifiers : List ImportSpecifier) :
    Counted name (specifiers.map fun specifier =>
        (ValueForm.importSpecifier, specifier.localName.name)) ↔
      specifiers.any (fun specifier => specifier.localName.name == name) = true := by
  simp only [Counted, List.mem_map, Prod.mk.injEq, List.any_eq_true, beq_iff_eq]
  constructor
  · rintro ⟨_, _, specifier, hmem, _, hname⟩
    exact ⟨specifier, hmem, hname⟩
  · rintro ⟨specifier, hmem, hname⟩
    exact ⟨_, rfl, specifier, hmem, rfl, hname⟩

theorem DeclarationKind.counts_form (kind : DeclarationKind) : kind.form.counts = true := by
  cases kind <;> rfl

end Counted

mutual

/-- A tree declares the names of its values whose form counts. -/
theorem Tree.declares_iff (name : String) :
    ∀ tree : Tree, tree.declares name = true ↔ Counted name tree.namedValues
  | .leaf _ _ => by simp [Tree.declares, Tree.namedValues]
  | .text _ _ => by simp [Tree.declares, Tree.namedValues]
  | .identifier role id => by
    simp only [Tree.declares, Bool.false_eq_true, false_iff]
    exact not_counted_role role
  | .binding id type => by
    rw [Tree.namedValues, counted_cons rfl, ← anyDeclares_iff name type]
    simp [Tree.declares]
  | .member _ object _ _ => Tree.declares_iff name object
  | .call _ callee arguments typeArguments => by
    rw [Tree.namedValues, counted_append, counted_append, ← Tree.declares_iff name callee,
      ← anyDeclares_iff name arguments, ← anyDeclares_iff name typeArguments]
    simp [Tree.declares, or_assoc]
  | .qualified _ left _ => Tree.declares_iff name left
  | .typeReference _ reference arguments => by
    rw [Tree.namedValues, counted_append, ← Tree.declares_iff name reference,
      ← anyDeclares_iff name arguments]
    simp [Tree.declares]
  | .heritage _ value arguments => by
    rw [Tree.namedValues, counted_append, ← Tree.declares_iff name value,
      ← anyDeclares_iff name arguments]
    simp [Tree.declares]
  | .declaration kind id parts => by
    rw [Tree.namedValues, counted_cons kind.counts_form, ← anyDeclares_iff name parts]
    simp [Tree.declares]
  | .importDeclaration found => (counted_specifiers found.specifiers).symm
  | .importEquals header _ => by
    rw [Tree.namedValues, counted_cons rfl]
    simp [Tree.declares]
  | .anchored _ _ inner => Tree.declares_iff name inner
  | .branch _ _ children => anyDeclares_iff name children

theorem anyDeclares_iff (name : String) :
    ∀ trees : List Tree, anyDeclares name trees = true ↔ Counted name (allNamedValues trees)
  | [] => by simp [anyDeclares, allNamedValues]
  | tree :: rest => by
    rw [allNamedValues, counted_append, ← Tree.declares_iff name tree,
      ← anyDeclares_iff name rest, anyDeclares, Bool.or_eq_true]

end

/-! ## Files whose global name stands for the module -/

section Programs

variable {options : MigrationOptions} {dialect : Dialect} {body : Text} {program : Program}

/-- An alias is tentative only where the global name stands for the module. -/
theorem uses_of_hasTentative
    (h : (opened options body program).bindings.hasTentative = true) :
    (program.importSites body options.module options.globalName).usesImplicitAlias = true := by
  rcases @opened_bindings options body program with hsame | ⟨huses, -⟩
  · rw [hsame, Bindings.hasTentative, List.any_eq_true] at h
    obtain ⟨whole, hwhole, htentative⟩ := h
    rw [(Program.freshWhole_importSites hwhole).tentative] at htentative
    cases htentative
  · exact huses

/-- No value has the global name in a form that counts, where the global name stands
for the module. -/
theorem not_counted_of_uses
    (h : (program.importSites body options.module options.globalName).usesImplicitAlias = true) :
    ¬ Counted options.globalName program.namedValues := by
  intro hcounted
  have hdeclares := (anyDeclares_iff options.globalName program.items).mpr hcounted
  rw [← @Program.aliasDeclared_eq body program options.module] at hdeclares
  simp [ImportSites.usesImplicitAlias, hdeclares] at h

/-- A file in which the global name stands for the module has no value of that name
exactly when no function or class that is an expression or exported by default
has the name, and no namespace. -/
theorem globalName_unused_iff {location : String} {mediaType : MediaType} {text : Text}
    {file : MigratedFile} (h : transform options location mediaType text = .ok file) :
    let body := Program.withoutMark text
    ∃ dialect program, mediaType.dialect? = some dialect ∧
      Program.read? dialect body = some program ∧
      ((opened options body program).bindings.hasTentative = true →
        ((∀ form, (form, options.globalName) ∉ program.namedValues) ↔
          ∀ form : ValueForm, form.counts = false →
            (form, options.globalName) ∉ program.namedValues)) := by
  intro body
  obtain ⟨dialect, program, hdialect, hread, -⟩ := transform_eq_ok h
  refine ⟨dialect, program, hdialect, hread, fun htentative => ?_⟩
  have hcounted := not_counted_of_uses (uses_of_hasTentative htentative)
  constructor
  · exact fun hnone form _ => hnone form
  · intro hnone form hmem
    cases hform : form.counts with
    | true => exact hcounted ⟨form, hform, hmem⟩
    | false => exact hnone form hform hmem

end Programs

/-- A file that uses the global name and binds another one. -/
private def globalFile : Text := "const f = (x) => microsoftTeams.initialize(x);\n".toList

private theorem globalFile_facts :
    (transform {} "file:///mod.ts" .typeScript globalFile).toOption.isSome = true ∧
    ∀ program ∈ Program.read? ⟨true, false, true⟩ globalFile,
      (opened {} globalFile program).bindings.hasTentative = true ∧
        program.namedValues = [(.variable, "f"), (.variable, "x")] := by
  decide +kernel

/-- The file has no value of the global name. -/
theorem globalFile_unused :
    ∃ program file, transform {} "file:///mod.ts" .typeScript globalFile = .ok file ∧
      Program.read? ⟨true, false, true⟩ globalFile = some program ∧
      (opened {} globalFile program).bindings.hasTentative = true ∧
      ∀ form, (form, defaultAlias) ∉ program.namedValues := by
  obtain ⟨haccepted, hfacts⟩ := globalFile_facts
  cases hfile : transform {} "file:///mod.ts" .typeScript globalFile with
  | error e =>
    rw [hfile] at haccepted
    cases haccepted
  | ok file =>
    obtain ⟨dialect, program, hdialect, hread, hiff⟩ := globalName_unused_iff hfile
    obtain rfl := Option.some.inj hdialect
    obtain ⟨htentative, hvalues⟩ := hfacts program hread
    refine ⟨program, file, rfl, hread, htentative, (hiff htentative).mpr fun form _ => ?_⟩
    rw [hvalues]
    simp [defaultAlias]

/-- A file with a function that calls the function of the global name that it is
itself. -/
private def recursiveFile : Text :=
  "(function microsoftTeams() \x7b microsoftTeams.initialize(); \x7d)();\n".toList

/-- What the file is migrated to, with an import that the function hides. -/
private def recursiveFileAfter : Text :=
  ("import * as microsoftTeams from \"@microsoft/teams-js\";\n" ++
    "(function microsoftTeams() \x7b microsoftTeams.app.initialize(); \x7d)();\n").toList

private theorem recursiveFile_facts :
    (transform {} "file:///mod.ts" .typeScript recursiveFile).toOption.map (·.text) =
      some recursiveFileAfter ∧
    (Program.read? ⟨true, false, true⟩ recursiveFile).isSome = true ∧
    ∀ program ∈ Program.read? ⟨true, false, true⟩ recursiveFile,
      (opened {} recursiveFile program).bindings.hasTentative = true ∧
        program.namedValues = [(.functionExpression, "microsoftTeams")] := by
  decide +kernel

/-- The global name stands for the module in a file with a function of that name. -/
theorem recursiveFile_named :
    ∃ program file, Program.read? ⟨true, false, true⟩ recursiveFile = some program ∧
      transform {} "file:///mod.ts" .typeScript recursiveFile = .ok file ∧
      file.text = recursiveFileAfter ∧
      (opened {} recursiveFile program).bindings.hasTentative = true ∧
      (ValueForm.functionExpression, defaultAlias) ∈ program.namedValues := by
  obtain ⟨htext, hreads, hfacts⟩ := recursiveFile_facts
  obtain ⟨program, hread⟩ := Option.isSome_iff_exists.mp hreads
  obtain ⟨htentative, hvalues⟩ := hfacts program hread
  cases hfile : transform {} "file:///mod.ts" .typeScript recursiveFile with
  | error e =>
    rw [hfile] at htext
    cases htext
  | ok file =>
    rw [hfile] at htext
    refine ⟨program, file, hread, rfl, Option.some.inj htext, htentative, ?_⟩
    rw [hvalues]
    exact List.mem_singleton_self _

end SdkMigration
