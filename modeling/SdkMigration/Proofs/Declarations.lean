import SdkMigration.Import.Declarations
import Mathlib.Data.List.Basic

/-!
# What the new declarations bind

The declarations that bindings call for are written from their specifiers and
aliases.  `Bindings.Imports` says to what they bind a name: to a single export,
or to the module as a whole.  A name of the module itself is the path of no
names.
-/

namespace SdkMigration

namespace Declarations

/-- Whether a specifier binds a name to an export: one that is written plainly
binds the name that it takes, and any other the name behind `as`. -/
inductive SpecifierBinds : String → String → String → Prop where
  | same {name : String} (plain : isPlainName name = true) : SpecifierBinds name name name
  | renamed (exported name : String) :
    SpecifierBinds (exportedName exported ++ " as " ++ name) name exported

end Declarations

/-- Whether the declarations that bindings call for bind a name to the member of
the module at a path. -/
inductive Bindings.Imports (bindings : Bindings) : String → List String → Prop where
  | named {specifier : Declarations.Specifier} {name exported : String}
    (mem : specifier ∈ Declarations.specifiers bindings.named)
    (binds : Declarations.SpecifierBinds specifier.text name exported) :
    Imports bindings name [exported]
  | whole {whole : WholeImport} (mem : whole ∈ Declarations.distinctAliases [] bindings.whole) :
    Imports bindings whole.name []

namespace Declarations

/-! ## Specifiers -/

theorem mem_addSpecifier {text other : String} {isTypeOnly : Bool} {found : List Specifier} :
    other ∈ (addSpecifier text isTypeOnly found).map Specifier.text ↔
      other = text ∨ other ∈ found.map Specifier.text := by
  induction found with
  | nil => simp [addSpecifier]
  | cons first rest ih =>
    unfold addSpecifier
    split
    · rename_i hsame
      subst hsame
      simp
    · rw [List.map_cons, List.mem_cons, ih, List.map_cons, List.mem_cons]
      tauto

private theorem mem_addAll {texts : List String} {other : String} {isTypeOnly : Bool}
    {found : List Specifier} :
    other ∈ (texts.foldl (fun found text => addSpecifier text isTypeOnly found) found).map
        Specifier.text ↔ other ∈ texts ∨ other ∈ found.map Specifier.text := by
  induction texts generalizing found with
  | nil => simp
  | cons first rest ih =>
    rw [List.foldl_cons, ih, mem_addSpecifier, List.mem_cons]
    tauto

/-- The specifiers are those that the single exports call for. -/
theorem mem_specifiers {named : List NamedImport} {text : String} :
    text ∈ (specifiers named).map Specifier.text ↔ ∃ n ∈ named, text ∈ specifiersOf n := by
  unfold specifiers
  suffices h : ∀ found : List Specifier,
      text ∈ (named.foldl (fun found next => (specifiersOf next).foldl
        (fun found text => addSpecifier text next.isTypeOnly found) found) found).map
          Specifier.text ↔ (∃ n ∈ named, text ∈ specifiersOf n) ∨
            text ∈ found.map Specifier.text by
    simpa using h []
  intro found
  induction named generalizing found with
  | nil => simp
  | cons first rest ih =>
    rw [List.foldl_cons, ih, mem_addAll]
    simp only [List.mem_cons, exists_eq_or_imp]
    rw [or_left_comm, or_assoc]

/-- A single export calls for the namespace that it was moved to, and for itself
where nothing was moved or its old name is needed. -/
theorem mem_specifiersOf {named : NamedImport} {text : String} :
    text ∈ specifiersOf named ↔ named.target = some text ∨
      (text = sameBinding named ∧ (named.target = none ∨ named.keepsLocalBinding = true)) := by
  unfold specifiersOf
  cases named.target with
  | none => simp
  | some target =>
    cases named.keepsLocalBinding <;> simp [eq_comm]

/-- A single export calls for a specifier. -/
theorem specifiers_ne_nil {named : List NamedImport} (h : named ≠ []) : specifiers named ≠ [] := by
  obtain ⟨first, rest, rfl⟩ := List.exists_cons_of_ne_nil h
  have hcalls : ∃ text, text ∈ specifiersOf first := by
    cases htarget : first.target with
    | none => exact ⟨_, mem_specifiersOf.mpr (Or.inr ⟨rfl, Or.inl htarget⟩)⟩
    | some target => exact ⟨target, mem_specifiersOf.mpr (Or.inl htarget)⟩
  obtain ⟨text, htext⟩ := hcalls
  have hmem : text ∈ (specifiers (first :: rest)).map Specifier.text :=
    mem_specifiers.mpr ⟨first, List.mem_cons_self, htext⟩
  intro hnil
  rw [hnil] at hmem
  cases hmem

/-! ## Aliases -/

/-- Every alias is declared, by its first import. -/
theorem exists_distinctAliases {whole : WholeImport} {list : List WholeImport}
    {seen : List String} (hwhole : whole ∈ list) (hseen : whole.name ∉ seen) :
    ∃ first ∈ distinctAliases seen list, first.name = whole.name := by
  induction list generalizing seen with
  | nil => simp at hwhole
  | cons first rest ih =>
    unfold distinctAliases
    by_cases hsame : first.name = whole.name
    · have hcontains : seen.contains first.name = false := by
        rw [hsame]
        simpa using hseen
      simp only [hcontains, Bool.false_eq_true, if_false]
      exact ⟨first, List.mem_cons_self, hsame⟩
    · have hrest : whole ∈ rest := by
        rcases List.mem_cons.mp hwhole with rfl | hrest
        · exact absurd rfl hsame
        · exact hrest
      split
      · exact ih hrest hseen
      · have hunseen : whole.name ∉ first.name :: seen := by
          simp only [List.mem_cons, not_or]
          exact ⟨fun h => hsame h.symm, hseen⟩
        obtain ⟨other, hother, hname⟩ := ih hrest hunseen
        exact ⟨other, List.mem_cons_of_mem _ hother, hname⟩

end Declarations

/-! ## Reading a specifier back -/

namespace Declarations

/-- Quoted texts are told apart by their first unescaped quotation mark. -/
private theorem escape_injective {a b : List Char} {u v : List Char}
    (h : escape a ++ '"' :: u = escape b ++ '"' :: v) : a = b ∧ u = v := by
  induction a generalizing b with
  | nil =>
    cases b with
    | nil => exact ⟨rfl, (List.cons.inj h).2⟩
    | cons c rest =>
      unfold escape at h
      split at h
      · exact absurd (List.cons.inj h).1 (by decide)
      · rename_i hplain
        exact absurd (Or.inr (List.cons.inj h).1.symm) hplain
  | cons c rest ih =>
    cases b with
    | nil =>
      unfold escape at h
      split at h
      · exact absurd (List.cons.inj h).1 (by decide)
      · rename_i hplain
        exact absurd (Or.inr (List.cons.inj h).1) hplain
    | cons d others =>
      unfold escape at h
      split at h <;> split at h
      · simp only [List.cons_append, List.cons.injEq, true_and] at h
        obtain ⟨hsame, hrest⟩ := h
        obtain ⟨hab, huv⟩ := ih hrest
        exact ⟨by rw [hsame, hab], huv⟩
      · rename_i hspecial hplain
        exact absurd (Or.inl (List.cons.inj h).1.symm) hplain
      · rename_i hplain hspecial
        exact absurd (Or.inl (List.cons.inj h).1) hplain
      · obtain ⟨hsame, hrest⟩ := List.cons.inj h
        obtain ⟨hab, huv⟩ := ih hrest
        exact ⟨by rw [hsame, hab], huv⟩

/-- A plain name has neither blanks nor quotation marks. -/
theorem not_mem_of_isPlainName {name : String} (h : isPlainName name = true) {c : Char}
    (hstart : NameChars.canStart c = false) (hcontinue : NameChars.canContinue c = false) :
    c ∉ name.toList := by
  unfold isPlainName at h
  intro hc
  cases hlist : name.toList with
  | nil => simp [hlist] at hc
  | cons first rest =>
    rw [hlist] at h hc
    simp only [Bool.and_eq_true] at h
    rcases List.mem_cons.mp hc with rfl | hc
    · rw [hstart] at h
      exact Bool.false_ne_true h.1.1
    · have := List.all_eq_true.mp h.1.2 c hc
      rw [hcontinue] at this
      exact Bool.false_ne_true this

private theorem blank_notMem_of_isPlainName {name : String} (h : isPlainName name = true) :
    ' ' ∉ name.toList := not_mem_of_isPlainName h (by decide +kernel) (by decide +kernel)

private theorem quote_notMem_of_isPlainName {name : String} (h : isPlainName name = true) :
    '"' ∉ name.toList := not_mem_of_isPlainName h (by decide +kernel) (by decide +kernel)

private theorem toList_quoted (text : String) :
    (quoted text).toList = '"' :: (escape text.toList ++ ['"']) := by
  unfold quoted
  simp

private theorem toList_as (exported name : String) :
    (exported ++ " as " ++ name).toList =
      exported.toList ++ ' ' :: ("as ".toList ++ name.toList) := by
  simp

/-- Texts without a character that stand before it are told apart. -/
private theorem append_cons_injective {c : Char} {a b u v : List Char} (ha : c ∉ a) (hb : c ∉ b)
    (h : a ++ c :: u = b ++ c :: v) : a = b ∧ u = v := by
  induction a generalizing b with
  | nil =>
    cases b with
    | nil => exact ⟨rfl, (List.cons.inj h).2⟩
    | cons d others => exact absurd ((List.cons.inj h).1 ▸ List.mem_cons_self) hb
  | cons d others ih =>
    cases b with
    | nil => exact absurd ((List.cons.inj h).1 ▸ List.mem_cons_self) ha
    | cons e rest =>
      obtain ⟨rfl, hrest⟩ := List.cons.inj h
      obtain ⟨rfl, huv⟩ := ih (fun hc => ha (List.mem_cons_of_mem _ hc))
        (fun hc => hb (List.mem_cons_of_mem _ hc)) hrest
      exact ⟨rfl, huv⟩

/-- A plain name does not begin like a quoted one. -/
private theorem plain_append_ne_quoted {a b : String} (ha : isPlainName a = true)
    (u v : List Char) : a.toList ++ u ≠ (quoted b).toList ++ v := by
  intro h
  rw [toList_quoted] at h
  cases hlist : a.toList with
  | nil =>
    unfold isPlainName at ha
    rw [hlist] at ha
    exact Bool.false_ne_true ha
  | cons first rest =>
    rw [hlist] at h
    refine quote_notMem_of_isPlainName ha ?_
    rw [hlist, (List.cons.inj h).1]
    exact List.mem_cons_self

/-- An exported name as it is written is told apart from any other one by what
stands before the first blank behind it. -/
private theorem exportedName_injective {a b : String} {u v : List Char}
    (h : (exportedName a).toList ++ ' ' :: u = (exportedName b).toList ++ ' ' :: v) :
    a = b ∧ u = v := by
  unfold exportedName at h
  split at h <;> split at h
  · rename_i ha hb
    obtain ⟨hsame, huv⟩ := append_cons_injective (blank_notMem_of_isPlainName ha)
      (blank_notMem_of_isPlainName hb) h
    exact ⟨String.toList_inj.mp hsame, huv⟩
  · rename_i ha _
    exact absurd h (plain_append_ne_quoted ha _ _)
  · rename_i _ hb
    exact absurd h.symm (plain_append_ne_quoted hb _ _)
  · rw [toList_quoted, toList_quoted, List.cons_append, List.cons_append, List.append_assoc,
      List.append_assoc] at h
    obtain ⟨hsame, huv⟩ := escape_injective (List.cons.inj h).2
    exact ⟨String.toList_inj.mp hsame, (List.cons.inj huv).2⟩

/-- An exported name as it is written is no specifier with `as`. -/
private theorem exportedName_ne_as (a b name : String) :
    exportedName a ≠ exportedName b ++ " as " ++ name := by
  intro h
  have hlist := congrArg String.toList h
  rw [toList_as] at hlist
  unfold exportedName at hlist
  split at hlist
  · rename_i ha
    refine blank_notMem_of_isPlainName ha ?_
    rw [hlist]
    exact List.mem_append_right _ List.mem_cons_self
  · split at hlist
    · rename_i hb
      rw [← List.append_nil (quoted a).toList] at hlist
      exact plain_append_ne_quoted hb _ _ hlist.symm
    · rw [toList_quoted, toList_quoted, List.cons_append, List.append_assoc] at hlist
      cases (escape_injective (List.cons.inj hlist).2).2

/-- The specifiers of two single exports differ unless the same export is bound to the
same name. -/
theorem sameBinding_inj {a b : NamedImport} :
    sameBinding a = sameBinding b ↔ a.exported = b.exported ∧ a.renamed = b.renamed := by
  constructor
  · intro h
    unfold sameBinding at h
    cases ha : a.renamed with
    | none =>
      cases hb : b.renamed with
      | none =>
        rw [ha, hb] at h
        have hlist := congrArg (fun text => text.toList ++ ' ' :: []) h
        exact ⟨(exportedName_injective hlist).1, rfl⟩
      | some other =>
        rw [ha, hb] at h
        exact absurd h (exportedName_ne_as _ _ _)
    | some name =>
      cases hb : b.renamed with
      | none =>
        rw [ha, hb] at h
        exact absurd h.symm (exportedName_ne_as _ _ _)
      | some other =>
        rw [ha, hb] at h
        have hlist := congrArg String.toList h
        rw [toList_as, toList_as] at hlist
        obtain ⟨hexported, hname⟩ := exportedName_injective hlist
        exact ⟨hexported, congrArg some (String.toList_inj.mp (List.append_cancel_left hname))⟩
  · rintro ⟨hexported, hrenamed⟩
    unfold sameBinding
    rw [hexported, hrenamed]

/-- What a name that is written plainly binds as a specifier. -/
theorem specifierBinds_plain {text name exported : String} (h : isPlainName text = true) :
    SpecifierBinds text name exported ↔ name = text ∧ exported = text := by
  constructor
  · intro hbinds
    cases hbinds with
    | same _ => exact ⟨rfl, rfl⟩
    | renamed =>
      refine absurd ?_ (blank_notMem_of_isPlainName h)
      rw [toList_as]
      exact List.mem_append_right _ List.mem_cons_self
  · rintro ⟨rfl, rfl⟩
    exact .same h

/-- What the specifier that keeps the binding of a single export binds.  A name
that can only be written in quotes is not bound without another name. -/
theorem specifierBinds_sameBinding {named : NamedImport} {name exported : String} :
    SpecifierBinds (sameBinding named) name exported ↔
      named.localName = name ∧ named.exported = exported ∧
        (named.renamed = none → isPlainName exported = true) := by
  unfold sameBinding NamedImport.localName
  cases hrenamed : named.renamed with
  | none =>
    simp only [Option.getD_none, forall_const]
    by_cases hplain : isPlainName named.exported = true
    · have htext : exportedName named.exported = named.exported := by
        unfold exportedName
        rw [if_pos hplain]
      rw [htext, specifierBinds_plain hplain]
      constructor
      · rintro ⟨rfl, rfl⟩
        exact ⟨rfl, rfl, hplain⟩
      · rintro ⟨rfl, rfl, _⟩
        exact ⟨rfl, rfl⟩
    · constructor
      · intro hbinds
        generalize htext : exportedName named.exported = text at hbinds
        cases hbinds with
        | same h =>
          unfold exportedName at htext
          rw [if_neg hplain] at htext
          exact absurd (congrArg (·.toList ++ []) htext.symm) (plain_append_ne_quoted h [] [])
        | renamed other name => exact absurd htext (exportedName_ne_as _ _ _)
      · rintro ⟨rfl, rfl, h⟩
        exact absurd h hplain
  | some local' =>
    simp only [Option.getD_some, reduceCtorEq, false_implies, and_true]
    constructor
    · intro hbinds
      generalize htext : exportedName named.exported ++ " as " ++ local' = text at hbinds
      cases hbinds with
      | same h =>
        refine absurd ?_ (blank_notMem_of_isPlainName h)
        rw [← htext, toList_as]
        exact List.mem_append_right _ List.mem_cons_self
      | renamed other name =>
        have hlist := congrArg String.toList htext
        rw [toList_as, toList_as] at hlist
        obtain ⟨hexported, hname⟩ := exportedName_injective hlist
        exact ⟨String.toList_inj.mp (List.append_cancel_left hname), hexported⟩
    · rintro ⟨rfl, rfl⟩
      exact .renamed _ _

end Declarations

namespace Bindings

open Declarations

variable {bindings : Bindings}

theorem imports_of_specifier {named : NamedImport} {text name exported : String}
    (hnamed : named ∈ bindings.named) (htext : text ∈ specifiersOf named)
    (hbinds : SpecifierBinds text name exported) : bindings.Imports name [exported] := by
  obtain ⟨specifier, hspecifier, rfl⟩ :=
    List.mem_map.mp (mem_specifiers.mpr ⟨named, hnamed, htext⟩)
  exact .named hspecifier hbinds

theorem imports_of_whole {whole : WholeImport} (hwhole : whole ∈ bindings.whole) :
    bindings.Imports whole.name [] := by
  obtain ⟨first, hfirst, hname⟩ := exists_distinctAliases hwhole List.not_mem_nil
  rw [← hname]
  exact .whole hfirst

/-- A namespace that a single export was moved to is imported. -/
theorem imports_of_target {named : NamedImport} {target : String}
    (hnamed : named ∈ bindings.named) (htarget : named.target = some target)
    (hplain : isPlainName target = true) : bindings.Imports target [target] :=
  imports_of_specifier hnamed (mem_specifiersOf.mpr (Or.inl htarget)) (.same hplain)

/-! ## The lines of the declarations -/

private theorem ne_empty_of_append {a b : String} (h : a ≠ "") : a ++ b ≠ "" := by
  intro hempty
  have hlist := congrArg String.toList hempty
  rw [String.toList_append] at hlist
  exact h (String.toList_inj.mp (List.append_eq_nil_iff.mp hlist).1)

private theorem namedDeclaration_ne_empty (module : String) (found : List Specifier) :
    namedDeclaration module found ≠ "" := by
  unfold namedDeclaration
  simp only [String.append_assoc]
  exact ne_empty_of_append (by decide)

private theorem wholeDeclaration_ne_empty (module : String) (whole : WholeImport) :
    wholeDeclaration module whole ≠ "" := by
  unfold wholeDeclaration
  simp only [String.append_assoc]
  exact ne_empty_of_append (by decide)

/-- When something is bound, or the module is loaded for its side effects, there is a
declaration, and no declaration is an empty line. -/
theorem declarations_ne_nil {sideEffect : Bool}
    (h : bindings.named ≠ [] ∨ bindings.whole ≠ [] ∨ sideEffect = true) (module : String) :
    ∃ first rest, bindings.declarations module sideEffect = first :: rest ∧ first ≠ "" := by
  unfold declarations
  simp only
  cases hfound : specifiers bindings.named with
  | cons specifier others =>
    exact ⟨_, _, rfl, namedDeclaration_ne_empty _ _⟩
  | nil =>
    cases haliases : distinctAliases [] bindings.whole with
    | cons first rest => exact ⟨_, _, rfl, wholeDeclaration_ne_empty _ _⟩
    | nil =>
      rcases h with hnamed | hwhole | rfl
      · exact absurd hfound (specifiers_ne_nil hnamed)
      · obtain ⟨whole, rest, hcons⟩ := List.exists_cons_of_ne_nil hwhole
        obtain ⟨first, hfirst, -⟩ := exists_distinctAliases (hcons ▸ List.mem_cons_self)
          (List.not_mem_nil (a := whole.name))
        rw [haliases] at hfirst
        cases hfirst
      · refine ⟨_, _, rfl, ?_⟩
        rw [String.append_assoc]
        exact ne_empty_of_append (by decide)

/-- When something is bound, or the module is loaded for its side effects, the block of
declarations is not empty. -/
theorem block_ne_nil {module : String} {sideEffect : Bool}
    (h : bindings.named ≠ [] ∨ bindings.whole ≠ [] ∨ sideEffect = true) :
    ("\n".intercalate (bindings.declarations module sideEffect)).toList ≠ [] := by
  obtain ⟨first, rest, hlines, hfirst⟩ := declarations_ne_nil h module
  have hfirst' : first.toList ≠ [] := fun h => hfirst (String.toList_inj.mp h)
  rw [hlines, String.toList_intercalate, List.map_cons]
  cases rest with
  | nil => simpa using hfirst'
  | cons second others =>
    rw [List.map_cons, List.intercalate_cons_cons]
    simp [hfirst']

/-- When a name is imported, something is bound. -/
theorem Imports.binds {name : String} {path : List String} (h : bindings.Imports name path) :
    bindings.named ≠ [] ∨ bindings.whole ≠ [] := by
  cases h with
  | named mem _ =>
    left
    intro hnil
    simp [hnil, specifiers] at mem
  | whole mem =>
    right
    intro hnil
    simp [hnil, distinctAliases] at mem

/-- When a name is imported, the block of declarations is not empty. -/
theorem Imports.block_ne_nil {name : String} {path : List String}
    (h : bindings.Imports name path) (module : String) (sideEffect : Bool) :
    ("\n".intercalate (bindings.declarations module sideEffect)).toList ≠ [] :=
  Bindings.block_ne_nil (h.binds.imp_right Or.inl)

end Bindings

end SdkMigration
