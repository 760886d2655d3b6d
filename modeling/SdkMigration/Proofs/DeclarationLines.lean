import SdkMigration.Proofs.MergedImports

/-!
# The lines of the declarations

Which declarations bindings call for is told here by what the reader of the lines asks for: the
names in the order in which they first come up, each once, the word for types where no value is
meant, then the aliases, and the bare import where there is nothing else.

Specifiers are collected one contribution after the other.  `Collected` is what the
collection keeps to on the way: the texts are those contributed so far in the order of their
first contribution, and each is for types only as long as all that contribute it are.
-/

namespace SdkMigration

open Declarations

/-! ## First occurrences -/

/-- Whether a list holds the entries of another one, each once and in the order in which they
first come up there. -/
structure FirstsOf (list firsts : List String) : Prop where
  mem_iff : ∀ entry, entry ∈ firsts ↔ entry ∈ list
  order : firsts.Pairwise fun a b => list.idxOf a < list.idxOf b

namespace FirstsOf

variable {list firsts : List String} {entry : String}

theorem nil : FirstsOf [] [] := ⟨fun _ => Iff.rfl, .nil⟩

theorem nodup (h : FirstsOf list firsts) : firsts.Nodup := by
  refine h.order.imp fun {a b} hlt => ?_
  rintro rfl
  exact Nat.lt_irrefl _ hlt

/-- What comes behind does not change the order of the entries before it. -/
private theorem order_append (h : FirstsOf list firsts) (more : List String) :
    firsts.Pairwise fun a b => (list ++ more).idxOf a < (list ++ more).idxOf b := by
  refine h.order.imp_of_mem fun {a b} ha hb hlt => ?_
  rw [List.idxOf_append_of_mem ((h.mem_iff a).mp ha),
    List.idxOf_append_of_mem ((h.mem_iff b).mp hb)]
  exact hlt

/-- An entry that comes up again is not held again. -/
theorem again (h : FirstsOf list firsts) (hentry : entry ∈ firsts) :
    FirstsOf (list ++ [entry]) firsts := by
  refine ⟨fun other => ?_, h.order_append [entry]⟩
  rw [List.mem_append, List.mem_singleton, ← h.mem_iff]
  constructor
  · exact Or.inl
  · rintro (hother | rfl)
    · exact hother
    · exact hentry

/-- An entry that comes up for the first time is held behind the others. -/
theorem new (h : FirstsOf list firsts) (hentry : entry ∉ firsts) :
    FirstsOf (list ++ [entry]) (firsts ++ [entry]) := by
  have hnew : entry ∉ list := fun hmem => hentry ((h.mem_iff entry).mpr hmem)
  constructor
  · intro other
    rw [List.mem_append, List.mem_append, h.mem_iff]
  · rw [List.pairwise_append]
    refine ⟨h.order_append [entry], List.pairwise_singleton _ _, fun a ha b hb => ?_⟩
    obtain rfl := List.mem_singleton.mp hb
    have hmem := (h.mem_iff a).mp ha
    rw [List.idxOf_append_of_mem hmem, List.idxOf_append_of_notMem hnew]
    have hlt := List.idxOf_lt_length_of_mem hmem
    omega

/-- Entries that stand behind another one keep their order. -/
theorem order_cons (h : firsts.Pairwise fun a b => list.idxOf a < list.idxOf b)
    (hentry : entry ∉ firsts) :
    firsts.Pairwise fun a b => (entry :: list).idxOf a < (entry :: list).idxOf b := by
  have hother : ∀ {other}, other ∈ firsts → entry ≠ other := by
    rintro other hmem rfl
    exact hentry hmem
  refine h.imp_of_mem fun {a b} ha hb hlt => ?_
  rw [List.idxOf_cons_ne _ (hother ha), List.idxOf_cons_ne _ (hother hb)]
  omega

end FirstsOf

/-! ## Specifiers -/

/-- Whether texts are the specifiers that a single import contributes: the namespace that it was
moved to, followed by the import as it was where that is still needed, or the import as it was
where nothing was moved. -/
inductive NamedImport.Contributes (named : NamedImport) : List String → Prop where
  | same (unmoved : named.target = none) : Contributes named [sameBinding named]
  | moved {target : String} (moved : named.target = some target)
    (replaced : named.keepsLocalBinding = false) : Contributes named [target]
  | kept {target : String} (moved : named.target = some target)
    (needed : named.keepsLocalBinding = true) : Contributes named [target, sameBinding named]

theorem NamedImport.contributes_iff {named : NamedImport} {texts : List String} :
    named.Contributes texts ↔ texts = specifiersOf named := by
  constructor
  · rintro (hunmoved | ⟨hmoved, hkeeps⟩ | ⟨hmoved, hkeeps⟩)
    · simp [specifiersOf, hunmoved]
    · simp [specifiersOf, hmoved, hkeeps]
    · simp [specifiersOf, hmoved, hkeeps]
  · rintro rfl
    unfold specifiersOf
    split
    · next target hmoved =>
      split
      · next hkeeps => exact .kept hmoved hkeeps
      · next hkeeps => exact .moved hmoved (Bool.eq_false_iff.mpr hkeeps)
    · next hunmoved => exact .same hunmoved

/-- Whether specifiers are those that single imports call for: what the imports contribute, each
once and in the order of the first contribution, and for types only where all imports that
contribute it are. -/
structure SpecifiersOf (list : List NamedImport) (found : List Specifier) : Prop where
  texts : ∃ contributed, List.Forall₂ NamedImport.Contributes list contributed ∧
    FirstsOf contributed.flatten (found.map Specifier.text)
  types : ∀ specifier ∈ found, specifier.isTypeOnly = true ↔
    ∀ named ∈ list, ∀ texts, named.Contributes texts → specifier.text ∈ texts →
      named.isTypeOnly = true

/-- What holds of the specifiers that are collected from contributions. -/
structure Collected (contributions found : List Specifier) : Prop where
  texts : FirstsOf (contributions.map Specifier.text) (found.map Specifier.text)
  types : ∀ specifier ∈ found, specifier.isTypeOnly = true ↔
    ∀ other ∈ contributions, other.text = specifier.text → other.isTypeOnly = true

namespace Declarations

variable {contributions found : List Specifier} {text : String} {isTypeOnly : Bool}

theorem addSpecifier_of_notMem (h : text ∉ found.map Specifier.text) :
    addSpecifier text isTypeOnly found = found ++ [⟨text, isTypeOnly⟩] := by
  induction found with
  | nil => rfl
  | cons first rest ih =>
    rw [List.map_cons, List.mem_cons, not_or] at h
    rw [addSpecifier, if_neg fun hsame => h.1 hsame.symm, ih h.2, List.cons_append]

theorem addSpecifier_of_mem (hdistinct : (found.map Specifier.text).Nodup)
    (h : text ∈ found.map Specifier.text) :
    addSpecifier text isTypeOnly found = found.map fun specifier =>
      if specifier.text = text then ⟨text, specifier.isTypeOnly && isTypeOnly⟩ else specifier := by
  induction found with
  | nil => cases h
  | cons first rest ih =>
    rw [List.map_cons, List.nodup_cons] at hdistinct
    rw [addSpecifier, List.map_cons]
    by_cases hsame : first.text = text
    · -- No other specifier has the text, so the rest stays as it is.
      have hrest : ∀ specifier ∈ rest, specifier.text ≠ text := by
        rintro specifier hmem rfl
        exact hdistinct.1 (hsame ▸ List.mem_map_of_mem hmem)
      rw [if_pos hsame, if_pos hsame]
      congr 1
      refine (List.map_id' rest).symm.trans (List.map_congr_left fun specifier hmem => ?_)
      rw [if_neg (hrest specifier hmem)]
    · have hmem : text ∈ rest.map Specifier.text :=
        (List.mem_cons.mp h).resolve_left fun heq => hsame heq.symm
      rw [if_neg hsame, if_neg hsame, ih hdistinct.2 hmem]

theorem map_text_addSpecifier (hdistinct : (found.map Specifier.text).Nodup)
    (h : text ∈ found.map Specifier.text) :
    (addSpecifier text isTypeOnly found).map Specifier.text = found.map Specifier.text := by
  rw [addSpecifier_of_mem hdistinct h, List.map_map]
  refine List.map_congr_left fun specifier _ => ?_
  by_cases hsame : specifier.text = text
  · simp [hsame]
  · simp [hsame]

end Declarations

namespace Collected

variable {contributions found : List Specifier}

theorem nil : Collected [] [] := ⟨.nil, fun _ h => absurd h List.not_mem_nil⟩

/-- One more contribution is collected. -/
theorem add (h : Collected contributions found) (next : Specifier) :
    Collected (contributions ++ [next]) (addSpecifier next.text next.isTypeOnly found) := by
  by_cases hmem : next.text ∈ found.map Specifier.text
  · constructor
    · rw [map_text_addSpecifier h.texts.nodup hmem, List.map_append]
      exact h.texts.again hmem
    · rw [addSpecifier_of_mem h.texts.nodup hmem]
      intro specifier hspecifier
      obtain ⟨before, hbefore, rfl⟩ := List.mem_map.mp hspecifier
      by_cases hsame : before.text = next.text
      · rw [if_pos hsame]
        simp only [Bool.and_eq_true, h.types before hbefore, List.forall_mem_append,
          List.forall_mem_singleton, hsame, forall_const]
      · rw [if_neg hsame, h.types before hbefore, List.forall_mem_append,
          List.forall_mem_singleton]
        exact (and_iff_left fun heq => absurd heq.symm hsame).symm
  · rw [addSpecifier_of_notMem hmem]
    constructor
    · rw [List.map_append, List.map_append]
      exact h.texts.new hmem
    · intro specifier hspecifier
      rw [List.forall_mem_append, List.forall_mem_singleton]
      rcases List.mem_append.mp hspecifier with hbefore | hnext
      · have hother : next.text ≠ specifier.text := by
          intro heq
          exact hmem (heq ▸ List.mem_map_of_mem hbefore)
        rw [h.types specifier hbefore]
        exact (and_iff_left fun heq => absurd heq hother).symm
      · obtain rfl := List.mem_singleton.mp hnext
        have hfirst : ∀ other ∈ contributions, other.text ≠ next.text := by
          intro other hother heq
          exact hmem ((h.texts.mem_iff _).mpr (heq ▸ List.mem_map_of_mem hother))
        constructor
        · intro htype
          exact ⟨fun other hother heq => absurd heq (hfirst other hother), fun _ => htype⟩
        · intro hall
          exact hall.2 rfl

/-- All contributions are collected. -/
theorem addAll (h : Collected contributions found) (more : List Specifier) :
    Collected (contributions ++ more)
      (more.foldl (fun found next => addSpecifier next.text next.isTypeOnly found) found) := by
  induction more generalizing contributions found with
  | nil => simpa using h
  | cons next rest ih => simpa using ih (h.add next)

end Collected

/-- The specifiers that are written are those that the single imports call for. -/
theorem specifiersOf_specifiers (list : List NamedImport) :
    SpecifiersOf list (specifiers list) := by
  let contributions := list.flatMap fun named =>
    (specifiersOf named).map fun text => (⟨text, named.isTypeOnly⟩ : Specifier)
  have hfold : specifiers list = contributions.foldl
      (fun found next => addSpecifier next.text next.isTypeOnly found) [] := by
    simp only [specifiers, contributions, List.foldl_flatMap, List.foldl_map]
  have hcollected : Collected contributions (specifiers list) := by
    rw [hfold]
    exact Collected.nil.addAll contributions
  constructor
  · refine ⟨list.map specifiersOf, ?_, ?_⟩
    · rw [List.forall₂_map_right_iff, List.forall₂_same]
      exact fun named _ => NamedImport.contributes_iff.mpr rfl
    · have htexts : contributions.map Specifier.text = (list.map specifiersOf).flatten := by
        simp [contributions, List.flatMap_def, Function.comp_def]
      rw [← htexts]
      exact hcollected.texts
  · intro specifier hspecifier
    rw [hcollected.types specifier hspecifier]
    simp only [contributions, List.forall_mem_flatMap, List.forall_mem_map,
      NamedImport.contributes_iff, forall_eq]
    refine forall₂_congr fun named _ => ⟨fun h hmem => h _ hmem rfl, fun h text hmem heq => ?_⟩
    exact h (heq ▸ hmem)

/-! ## Aliases -/

/-- Whether aliases are those that are declared: each name once, in the order in which the names
first come up, and in the style of the import that it first comes up in. -/
structure AliasesOf (list found : List WholeImport) : Prop where
  names : FirstsOf (list.map WholeImport.name) (found.map WholeImport.name)
  first : ∀ whole ∈ found, list.find? (fun other => other.name == whole.name) = some whole

namespace Declarations

theorem order_distinctAliases (seen : List String) (list : List WholeImport) :
    ((distinctAliases seen list).map WholeImport.name).Pairwise fun a b =>
      (list.map WholeImport.name).idxOf a < (list.map WholeImport.name).idxOf b := by
  have hunseen : ∀ {seen name} {list : List WholeImport}, name ∈ seen →
      name ∉ (distinctAliases seen list).map WholeImport.name := by
    intro seen name list hseen hmem
    obtain ⟨whole, hwhole, rfl⟩ := List.mem_map.mp hmem
    exact (mem_of_distinctAliases hwhole).2 hseen
  induction list generalizing seen with
  | nil => exact .nil
  | cons whole rest ih =>
    unfold distinctAliases
    rw [List.map_cons]
    split
    · next hseen => exact FirstsOf.order_cons (ih seen) (hunseen (by simpa using hseen))
    · have hnew := @hunseen (whole.name :: seen) whole.name rest List.mem_cons_self
      rw [List.map_cons, List.pairwise_cons]
      refine ⟨fun other hother => ?_, FirstsOf.order_cons (ih _) hnew⟩
      have hne : whole.name ≠ other := by
        rintro rfl
        exact hnew hother
      rw [List.idxOf_cons_self, List.idxOf_cons_ne _ hne]
      omega

/-- The aliases that are declared are the first ones of their names. -/
theorem aliasesOf_distinctAliases (list : List WholeImport) :
    AliasesOf list (distinctAliases [] list) := by
  refine ⟨⟨fun _ => mem_distinctAliases_names, order_distinctAliases [] list⟩, ?_⟩
  intro whole hwhole
  have hmem : whole ∈ (distinctAliases [] list).filter (·.name == whole.name) :=
    List.mem_filter.mpr ⟨hwhole, beq_self_eq_true _⟩
  rw [filter_distinctAliases, if_neg List.not_mem_nil, Option.mem_toList] at hmem
  exact hmem

end Declarations

/-! ## The declarations -/

/-- Whether a line imports specifiers: the word for types stands once in front of them where all
are for types only, and in front of each one that is where some are not. -/
inductive ImportsSpecifiers (module : String) (found : List Specifier) : String → Prop where
  | types (all : ∀ specifier ∈ found, specifier.isTypeOnly = true) :
    ImportsSpecifiers module found ("import type \x7b " ++
      ", ".intercalate (found.map Specifier.text) ++ " \x7d from " ++ quoted module ++ ";")
  | values (notAll : ∃ specifier ∈ found, specifier.isTypeOnly = false) :
    ImportsSpecifiers module found ("import \x7b " ++
      ", ".intercalate (found.map fun specifier =>
        if specifier.isTypeOnly then "type " ++ specifier.text else specifier.text) ++
      " \x7d from " ++ quoted module ++ ";")

/-- Whether a line imports the module as a whole under an alias, in the style of the import. -/
inductive ImportsWhole (module : String) (whole : WholeImport) : String → Prop where
  | default (style : whole.style = .default) :
    ImportsWhole module whole ("import " ++ whole.name ++ " from " ++ quoted module ++ ";")
  | namespace (style : whole.style = .namespace) :
    ImportsWhole module whole ("import * as " ++ whole.name ++ " from " ++ quoted module ++ ";")
  | requireEquals (style : whole.style = .requireEquals) :
    ImportsWhole module whole
      ("import " ++ whole.name ++ " = require(" ++ quoted module ++ ");")

namespace Declarations

theorem importsSpecifiers_namedDeclaration (module : String) (found : List Specifier) :
    ImportsSpecifiers module found (namedDeclaration module found) := by
  unfold namedDeclaration
  cases hall : found.all (·.isTypeOnly) with
  | true =>
    simpa [String.append_assoc] using
      @ImportsSpecifiers.types module found (List.all_eq_true.mp hall)
  | false =>
    have hsome : ∃ specifier ∈ found, specifier.isTypeOnly = false := by
      simpa using hall
    simpa [String.append_assoc] using @ImportsSpecifiers.values module found hsome

theorem importsWhole_wholeDeclaration (module : String) (whole : WholeImport) :
    ImportsWhole module whole (wholeDeclaration module whole) := by
  unfold wholeDeclaration
  cases hstyle : whole.style with
  | default => simpa [String.append_assoc] using @ImportsWhole.default module whole hstyle
  | «namespace» =>
    have hstart : "import * as " = "import " ++ "* as " := by decide
    have hline := @ImportsWhole.namespace module whole hstyle
    simpa only [hstart, String.append_assoc] using hline
  | requireEquals =>
    simpa [String.append_assoc] using @ImportsWhole.requireEquals module whole hstyle

end Declarations

theorem specifiers_eq_nil_iff {list : List NamedImport} : specifiers list = [] ↔ list = [] := by
  constructor
  · intro h
    by_contra hlist
    exact specifiers_ne_nil hlist h
  · rintro rfl
    rfl

namespace Bindings

/-- The import of specifiers, where there is a single import. -/
def namedLines (bindings : Bindings) (module : String) : List String :=
  if bindings.named = [] then [] else [namedDeclaration module (specifiers bindings.named)]

/-- The imports under an alias. -/
def wholeLines (bindings : Bindings) (module : String) : List String :=
  (distinctAliases [] bindings.whole).map (wholeDeclaration module)

theorem declarations_eq_parts (bindings : Bindings) (module : String) (sideEffect : Bool) :
    bindings.declarations module sideEffect =
      bindings.namedLines module ++ bindings.wholeLines module ++
        if sideEffect = true ∧ bindings.namedLines module ++ bindings.wholeLines module = [] then
          ["import " ++ quoted module ++ ";"] else [] := by
  have hnamed : (if (specifiers bindings.named).isEmpty = true then []
      else [namedDeclaration module (specifiers bindings.named)]) = bindings.namedLines module := by
    simp only [namedLines, List.isEmpty_iff, specifiers_eq_nil_iff]
  unfold declarations
  simp only [hnamed]
  split
  · next hnil =>
    simp only [wholeLines, hnil]
    cases sideEffect <;> rfl
  · next hlines =>
    rw [if_neg fun h => hlines h.2, List.append_nil]
    rfl

/-- **Declarations.**  For all bindings, the declarations are these, in this order: one import of
the specifiers that the single imports call for, if there is a single import, one for every
alias, and the bare import, if it is asked for and there is nothing else. -/
theorem declarations_lines (bindings : Bindings) (module : String) (sideEffect : Bool) :
    ∃ (found : List Specifier) (aliases : List WholeImport) (named whole bare : List String),
      bindings.declarations module sideEffect = named ++ whole ++ bare ∧
        SpecifiersOf bindings.named found ∧ AliasesOf bindings.whole aliases ∧
        (bindings.named = [] ∧ named = [] ∨
          bindings.named ≠ [] ∧ ∃ line, named = [line] ∧ ImportsSpecifiers module found line) ∧
        List.Forall₂ (ImportsWhole module) aliases whole ∧
        (sideEffect = true ∧ named ++ whole = [] ∧ bare = ["import " ++ quoted module ++ ";"] ∨
          ¬(sideEffect = true ∧ named ++ whole = []) ∧ bare = []) := by
  refine ⟨_, _, _, _, _, bindings.declarations_eq_parts module sideEffect,
    specifiersOf_specifiers _, aliasesOf_distinctAliases _, ?_, ?_, ?_⟩
  · by_cases hnone : bindings.named = []
    · exact Or.inl ⟨hnone, if_pos hnone⟩
    · exact Or.inr ⟨hnone, _, if_neg hnone, importsSpecifiers_namedDeclaration module _⟩
  · rw [wholeLines, List.forall₂_map_right_iff, List.forall₂_same]
    exact fun whole _ => importsWhole_wholeDeclaration module whole
  · by_cases hbare : sideEffect = true ∧
        bindings.namedLines module ++ bindings.wholeLines module = []
    · exact Or.inl ⟨hbare.1, hbare.2, if_pos hbare⟩
    · exact Or.inr ⟨hbare, if_neg hbare⟩

end Bindings

end SdkMigration
