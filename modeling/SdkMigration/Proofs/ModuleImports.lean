import SdkMigration.Proofs.ImportSites

/-!
# Declarations that import the module

A top-level item that imports the module is told from the item alone, with all
that it contributes.  The import sites of a program are what its items
contribute, in their order, which is also the order of their places.
-/

namespace SdkMigration

/-- What a declaration that imports the module contributes. -/
structure ModuleImport where
  span : Span
  named : List NamedImport
  whole : List WholeImport
  /-- Whether it binds nothing. -/
  sideEffect : Bool

/-- What an item contributes, if it is a declaration that imports the module. -/
def Tree.moduleImport? (module : String) (item : Tree) : Option ModuleImport :=
  match item.core with
  | .importDeclaration found =>
    if found.source = module then
      some ⟨found.span, found.specifiers.filterMap (·.named? found.isTypeOnly),
        found.specifiers.filterMap (·.whole?), found.specifiers.isEmpty⟩
    else none
  | .importEquals header (.text source _) =>
    if source = module ∧ !header.isExport then
      some ⟨header.span, [], [{ name := header.name.name, style := .requireEquals }], false⟩
    else none
  | _ => none

/-- The declarations at top level that import the module. -/
def Program.moduleImports (program : Program) (module : String) : List ModuleImport :=
  program.items.filterMap (·.moduleImport? module)

/-! ## What the sites are made of -/

/-- Adds what a declaration contributes. -/
def ImportSites.add (sites : ImportSites) (found : ModuleImport) : ImportSites :=
  { sites with
    bindings := ⟨sites.bindings.named ++ found.named, sites.bindings.whole ++ found.whole⟩
    declarations := sites.declarations ++ [found.span]
    sideEffect := sites.sideEffect || found.sideEffect }

namespace ImportSites

theorem addItem_eq (module : String) (sites : ImportSites) (item : Tree) :
    sites.addItem module item = ((item.moduleImport? module).map sites.add).getD sites := by
  unfold addItem Tree.moduleImport?
  cases item.core with
  | importDeclaration found =>
    simp only
    split
    · rfl
    · rfl
  | importEquals header source =>
    cases source with
    | text source span =>
      simp only
      split
      · simp [add, Bindings.addWhole]
      · rfl
    | _ => rfl
  | _ => rfl

theorem foldl_addItem (module : String) (items : List Tree) (sites : ImportSites) :
    items.foldl (addItem module) sites =
      (items.filterMap (·.moduleImport? module)).foldl add sites := by
  induction items generalizing sites with
  | nil => rfl
  | cons item rest ih =>
    rw [List.foldl_cons, ih, addItem_eq, List.filterMap_cons]
    cases item.moduleImport? module with
    | none => rfl
    | some found => rfl

theorem foldl_add (found : List ModuleImport) (sites : ImportSites) :
    found.foldl add sites =
      { sites with
        bindings := ⟨sites.bindings.named ++ found.flatMap (·.named),
          sites.bindings.whole ++ found.flatMap (·.whole)⟩
        declarations := sites.declarations ++ found.map (·.span)
        sideEffect := sites.sideEffect || found.any (·.sideEffect) } := by
  induction found generalizing sites with
  | nil => simp
  | cons first rest ih =>
    rw [List.foldl_cons, ih]
    simp [add, Bool.or_assoc]

end ImportSites

namespace Program

variable {program : Program} {body : Text} {module globalName : String}

theorem named_eq : (program.importSites body module globalName).bindings.named =
    (program.moduleImports module).flatMap (·.named) := by
  unfold importSites
  rw [ImportSites.foldl_addItem, ImportSites.foldl_add]
  exact List.nil_append _

theorem whole_eq : (program.importSites body module globalName).bindings.whole =
    (program.moduleImports module).flatMap (·.whole) := by
  unfold importSites
  rw [ImportSites.foldl_addItem, ImportSites.foldl_add]
  exact List.nil_append _

theorem declarations_eq : (program.importSites body module globalName).declarations =
    (program.moduleImports module).map (·.span) := by
  unfold importSites
  rw [ImportSites.foldl_addItem, ImportSites.foldl_add]
  exact List.nil_append _

theorem sideEffect_eq : (program.importSites body module globalName).sideEffect =
    (program.moduleImports module).any (·.sideEffect) := by
  unfold importSites
  rw [ImportSites.foldl_addItem, ImportSites.foldl_add]
  exact Bool.false_or _

theorem opaqueLoads_eq : (program.importSites body module globalName).opaqueLoads =
    (program.visits fun _ => false).filterMap (opaqueLoad? body module) := by
  unfold importSites
  rw [ImportSites.foldl_addItem, ImportSites.foldl_add]

end Program

/-! ## Items that import the module -/

section Items

variable {item : Tree} {module : String} {found : ModuleImport}

theorem named_or_whole (specifier : ImportSpecifier) (declared : Bool) :
    (specifier.named? declared).isSome ∨ specifier.whole?.isSome := by
  cases specifier with
  | named => exact Or.inl rfl
  | «default» => exact Or.inr rfl
  | whole => exact Or.inr rfl

/-- A declaration binds something, or it is there for its side effects. -/
theorem binds_of_moduleImport (h : item.moduleImport? module = some found) :
    found.named ≠ [] ∨ found.whole ≠ [] ∨ found.sideEffect = true := by
  unfold Tree.moduleImport? at h
  split at h
  · rename_i declaration hcore
    rw [Option.ite_none_right_eq_some] at h
    obtain rfl := Option.some.inj h.2
    simp only
    cases hspecifiers : declaration.specifiers with
    | nil => exact Or.inr (Or.inr rfl)
    | cons first rest =>
      rcases named_or_whole first declaration.isTypeOnly with hsome | hsome
      · obtain ⟨named, hnamed⟩ := Option.isSome_iff_exists.mp hsome
        exact Or.inl (by simp [hnamed])
      · obtain ⟨whole, hwhole⟩ := Option.isSome_iff_exists.mp hsome
        exact Or.inr (Or.inl (by simp [hwhole]))
  · rw [Option.ite_none_right_eq_some] at h
    obtain rfl := Option.some.inj h.2
    exact Or.inr (Or.inl (List.cons_ne_nil _ _))
  · cases h

/-- A declaration stands as a whole where it is, and nothing in it is a name that a
migration may touch. -/
theorem landmarks_of_moduleImport (h : item.moduleImport? module = some found) :
    found.span ∈ item.landmarks.imports ∧ item.landmarks.chains = [] := by
  have hcore : ∀ core : Tree, core.landmarks.imports = [found.span] →
      core.landmarks.chains = [] → item.core = core →
      found.span ∈ item.landmarks.imports ∧ item.landmarks.chains = [] := by
    intro core himports hchains hcore
    have hsame : item.landmarks.imports = item.core.landmarks.imports ∧
        item.landmarks.chains = item.core.landmarks.chains := by
      cases item with
      | anchored kind start inner => exact ⟨rfl, rfl⟩
      | _ => exact ⟨rfl, rfl⟩
    rw [hsame.1, hsame.2, hcore, himports, hchains]
    exact ⟨List.mem_singleton_self _, rfl⟩
  unfold Tree.moduleImport? at h
  split at h
  · rename_i declaration hitem
    rw [Option.ite_none_right_eq_some] at h
    obtain rfl := Option.some.inj h.2
    exact hcore _ rfl rfl hitem
  · rename_i header source span hitem
    rw [Option.ite_none_right_eq_some] at h
    obtain rfl := Option.some.inj h.2
    exact hcore _ rfl rfl hitem
  · cases h

end Items

/-! ## The order of the declarations -/

/-- Whether a span ends before another one starts, something that is no blank or the
other span itself coming next behind it. -/
def Span.Precedes (text : Text) (a b : Span) : Prop :=
  ∃ next, a.stop ≤ next ∧ next ≤ b.start ∧ text.Unblank next

/-- The declarations stand in the order of the items. -/
theorem ItemsPlaced.ordered {text : Text} {lo hi : Nat} {items : List Tree}
    (h : ItemsPlaced text lo items hi) (module : String) :
    (items.filterMap (·.moduleImport? module)).Pairwise
      fun a b => a.span.Precedes text b.span := by
  induction items generalizing lo with
  | nil => exact .nil
  | cons item rest ih =>
    obtain ⟨next, hitem, hrest⟩ := h
    rw [List.filterMap_cons]
    cases hfound : item.moduleImport? module with
    | none => exact ih hrest
    | some found =>
      refine List.pairwise_cons.mpr ⟨fun other hother => ?_, ih hrest⟩
      obtain ⟨later, hlater, hother⟩ := List.mem_filterMap.mp hother
      have hmem := (mem_allLandmarks hlater).2.1 _ (landmarks_of_moduleImport hother).1
      have hstart := (hrest.landmarks.imports _ hmem).1
      obtain ⟨place, hstop, hplace, hunblank⟩ :=
        (hitem.solid _ (landmarks_of_moduleImport hfound).1).behind
      exact ⟨place, hstop, Nat.le_trans hplace hstart, hunblank⟩

namespace Program.Placed

variable {program : Program} {body : Text} {module : String}

theorem ordered_moduleImports (h : program.Placed body) :
    (program.moduleImports module).Pairwise fun a b => a.span.Precedes body b.span :=
  h.items.ordered module

theorem solid_moduleImport (h : program.Placed body) {found : ModuleImport}
    (hfound : found ∈ program.moduleImports module) : found.span.Solid body body.length := by
  obtain ⟨item, hitem, hsome⟩ := List.mem_filterMap.mp hfound
  exact h.landmarks.solid _ ((mem_allLandmarks hitem).2.1 _ (landmarks_of_moduleImport hsome).1)

/-- A stop at a name has a character other than a blank between it and a declaration
behind it, or what comes next after the declaration stands before it. -/
theorem sides (h : program.Placed body) {found : ModuleImport}
    (hfound : found ∈ program.moduleImports module) {visit : Visit}
    (hstop : program.NamedStop visit) :
    (∃ place, visit.start ≤ place ∧ place < found.span.start ∧ body.HasInk place) ∨
      ∃ next, found.span.stop ≤ next ∧ body.Unblank next ∧ next ≤ visit.start ∧
        ∀ point ∈ visit.outer, next ≤ point := by
  obtain ⟨item, hitem, hsome⟩ := List.mem_filterMap.mp hfound
  obtain ⟨hspan, hchains⟩ := landmarks_of_moduleImport hsome
  obtain ⟨before, after, hsplit⟩ := List.append_of_mem hitem
  obtain ⟨other, hmem, hmarked⟩ := hstop.item
  have hitems := h.items
  rw [hsplit] at hitems hmem
  obtain ⟨middle, hbefore, next, hplaced, hafter⟩ := hitems.split
  rcases List.mem_append.mp hmem with hmem | hmem
  · left
    obtain ⟨chain, hchain, hstart⟩ := (hmarked.of_mem hmem).start_le hbefore.landmarks hstop.named
    have hchainPlaced := hbefore.landmarks.chains chain hchain
    have hlt := hchainPlaced.start_lt_stop
    have hle := hchainPlaced.le_hi
    have hmiddle := (hplaced.imports _ hspan).1
    exact ⟨chain.span.start, hstart, by omega, hchainPlaced.ink_start⟩
  · rcases List.mem_cons.mp hmem with rfl | hmem
    · obtain ⟨chain, hchain, -⟩ := hmarked.named hstop.named
      rw [hchains] at hchain
      cases hchain
    · right
      have hmarkedAfter := hmarked.of_mem hmem
      have hplacedAfter := hafter.landmarks
      obtain ⟨place, hplace, hnext, hunblank⟩ := (hplaced.solid _ hspan).behind
      refine ⟨place, hplace, hunblank, Nat.le_trans hnext ?_, fun point hpoint =>
        Nat.le_trans hnext ?_⟩
      · rcases hmarkedAfter.start with hstart | ⟨chain, hchain, hstart⟩
        · exact (hplacedAfter.points _ hstart).1
        · exact hstart ▸ (hplacedAfter.chains chain hchain).lo_le
      · rcases hmarkedAfter.outer point hpoint with hnil | hpoint
        · cases hnil
        · exact (hplacedAfter.points _ hpoint).1

end Program.Placed

end SdkMigration
