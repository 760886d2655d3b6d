import SdkMigration.Proofs.Drafts
import SdkMigration.Proofs.Lookups

/-!
# Where a program meets the module

The import sites of a program are found at its landmarks: the declarations
among the places of its import declarations, and the loads at places where a
comment can stand.  The names that are bound have no dots.
-/

namespace SdkMigration

/-! ## What an item adds -/

/-- Whether a single export is as it is read from a declaration: it has learned
nothing, and another name is kept only where it is another one. -/
structure NamedImport.Fresh (named : NamedImport) : Prop where
  target : named.target = none
  keeps : named.keepsLocalBinding = false
  renamed : named.renamed ≠ some named.exported

/-- Whether an alias is as it is read from a declaration: it was found there and
not used yet. -/
structure WholeImport.Fresh (whole : WholeImport) : Prop where
  tentative : whole.tentative = false
  matched : whole.matched = false

namespace ImportSites

/-- Whether sites come from others by adding declarations and names that are
landmarks, and nothing else. -/
structure Adds (marks : Landmarks) (before after : ImportSites) : Prop where
  declarations : ∀ span ∈ after.declarations,
    span ∈ before.declarations ∨ span ∈ marks.imports
  localNames : ∀ name ∈ after.bindings.localNames,
    name ∈ before.bindings.localNames ∨ name ∈ marks.bound
  fresh : ∀ named ∈ after.bindings.named,
    named ∈ before.bindings.named ∨ named.Fresh
  freshWhole : ∀ whole ∈ after.bindings.whole,
    whole ∈ before.bindings.whole ∨ whole.Fresh
  opaqueLoads : after.opaqueLoads = before.opaqueLoads
  aliasMentioned : after.aliasMentioned = before.aliasMentioned
  aliasDeclared : after.aliasDeclared = before.aliasDeclared
  firstItem : after.firstItem = before.firstItem

theorem Adds.refl (marks : Landmarks) (sites : ImportSites) : Adds marks sites sites :=
  ⟨fun _ => Or.inl, fun _ => Or.inl, fun _ => Or.inl, fun _ => Or.inl, rfl, rfl, rfl, rfl⟩

theorem Adds.trans {marks : Landmarks} {a b c : ImportSites} (hab : Adds marks a b)
    (hbc : Adds marks b c) : Adds marks a c where
  declarations := fun span h =>
    (hbc.declarations span h).elim (hab.declarations span) Or.inr
  localNames := fun name h => (hbc.localNames name h).elim (hab.localNames name) Or.inr
  fresh := fun named h => (hbc.fresh named h).elim (hab.fresh named) Or.inr
  freshWhole := fun whole h => (hbc.freshWhole whole h).elim (hab.freshWhole whole) Or.inr
  opaqueLoads := hbc.opaqueLoads.trans hab.opaqueLoads
  aliasMentioned := hbc.aliasMentioned.trans hab.aliasMentioned
  aliasDeclared := hbc.aliasDeclared.trans hab.aliasDeclared
  firstItem := hbc.firstItem.trans hab.firstItem

/-- The name that a single export is bound to is the one in the specifier. -/
theorem localName_of_named? {specifier : ImportSpecifier} {declared : Bool} {named : NamedImport}
    (h : specifier.named? declared = some named) :
    named.localName = specifier.localName.name := by
  cases specifier with
  | «default» => cases h
  | whole => cases h
  | named imported id isTypeOnly =>
    obtain rfl := Option.some.inj h
    show (if id.name = imported.getD id.name then none else some id.name).getD
      (imported.getD id.name) = id.name
    split
    · rename_i hsame
      exact hsame.symm
    · rfl

/-- A single export that is bound has learned nothing yet. -/
theorem fresh_of_named? {specifier : ImportSpecifier} {declared : Bool} {named : NamedImport}
    (h : specifier.named? declared = some named) : named.Fresh := by
  cases specifier with
  | «default» => cases h
  | whole => cases h
  | named imported id isTypeOnly =>
    obtain rfl := Option.some.inj h
    refine ⟨rfl, rfl, ?_⟩
    show (if id.name = imported.getD id.name then none else some id.name) ≠
      some (imported.getD id.name)
    split
    · exact Option.some_ne_none _ ∘ Eq.symm
    · rename_i hother
      exact fun hsame => hother (Option.some.inj hsame)

/-- An alias that is bound was not used yet. -/
theorem fresh_of_whole? {specifier : ImportSpecifier} {whole : WholeImport}
    (h : specifier.whole? = some whole) : whole.Fresh := by
  cases specifier with
  | named => cases h
  | «default» => exact Option.some.inj h ▸ ⟨rfl, rfl⟩
  | whole => exact Option.some.inj h ▸ ⟨rfl, rfl⟩

theorem name_of_whole? {specifier : ImportSpecifier} {whole : WholeImport}
    (h : specifier.whole? = some whole) : whole.name = specifier.localName.name := by
  cases specifier with
  | named => cases h
  | «default» => rw [← Option.some.inj h]; rfl
  | whole => rw [← Option.some.inj h]; rfl

theorem mem_localNames_addDeclaration {bindings : Bindings} {found : ImportDeclaration}
    {name : String} (h : name ∈ (bindings.addDeclaration found).localNames) :
    name ∈ bindings.localNames ∨ name ∈ found.specifiers.map fun s => s.localName.name := by
  simp only [Bindings.localNames, Bindings.addDeclaration, List.map_append, List.mem_append,
    List.mem_map, List.mem_filterMap] at h ⊢
  rcases h with (h | ⟨named, ⟨specifier, hspecifier, hnamed⟩, rfl⟩) |
    (h | ⟨whole, ⟨specifier, hspecifier, hwhole⟩, rfl⟩)
  · exact Or.inl (Or.inl h)
  · exact Or.inr ⟨specifier, hspecifier, (localName_of_named? hnamed).symm⟩
  · exact Or.inl (Or.inr h)
  · exact Or.inr ⟨specifier, hspecifier, (name_of_whole? hwhole).symm⟩

/-- The declaration that an item is adds what the item's landmarks hold. -/
private theorem adds_core (module : String) (sites : ImportSites) {item core : Tree}
    (hcore : item.core = core) (himports : item.landmarks.imports = core.landmarks.imports)
    (hbound : item.landmarks.bound = core.landmarks.bound) :
    Adds item.landmarks sites (addItem module sites item) := by
  unfold addItem
  rw [hcore]
  split
  · rename_i found
    split
    · refine ⟨?_, ?_, ?_, ?_, rfl, rfl, rfl, rfl⟩
      · intro span hspan
        refine (List.mem_append.mp hspan).imp_right fun hspan => ?_
        rw [himports]
        exact hspan
      · intro name hname
        refine (mem_localNames_addDeclaration hname).imp_right fun hname => ?_
        rw [hbound]
        exact hname
      · intro named hnamed
        refine (List.mem_append.mp hnamed).imp_right fun hnamed => ?_
        obtain ⟨specifier, _, hspecifier⟩ := List.mem_filterMap.mp hnamed
        exact fresh_of_named? hspecifier
      · intro whole hwhole
        refine (List.mem_append.mp hwhole).imp_right fun hwhole => ?_
        obtain ⟨specifier, _, hspecifier⟩ := List.mem_filterMap.mp hwhole
        exact fresh_of_whole? hspecifier
    · exact .refl _ _
  · rename_i header source span
    split
    · refine ⟨?_, ?_, fun _ => Or.inl, ?_, rfl, rfl, rfl, rfl⟩
      · intro span hspan
        refine (List.mem_append.mp hspan).imp_right fun hspan => ?_
        rw [himports]
        exact hspan
      · intro name hname
        simp only [Bindings.localNames, Bindings.addWhole, List.map_append, List.map_singleton,
          List.mem_append, List.mem_singleton] at hname ⊢
        rw [hbound]
        rcases hname with hname | hname | rfl
        · exact Or.inl (Or.inl hname)
        · exact Or.inl (Or.inr hname)
        · exact Or.inr (List.mem_singleton_self _)
      · intro whole hwhole
        refine (List.mem_append.mp hwhole).imp_right fun hwhole => ?_
        rw [List.mem_singleton.mp hwhole]
        exact ⟨rfl, rfl⟩
    · exact .refl _ _
  · exact .refl _ _

theorem adds_addItem (module : String) (sites : ImportSites) (item : Tree) :
    Adds item.landmarks sites (addItem module sites item) := by
  cases item with
  | anchored kind start inner => exact adds_core module sites rfl rfl rfl
  | _ => exact adds_core module sites rfl rfl rfl

theorem adds_foldl (module : String) {marks : Landmarks} (items : List Tree)
    (himports : ∀ item ∈ items, ∀ span ∈ item.landmarks.imports, span ∈ marks.imports)
    (hbound : ∀ item ∈ items, ∀ name ∈ item.landmarks.bound, name ∈ marks.bound)
    (sites : ImportSites) : Adds marks sites (items.foldl (addItem module) sites) := by
  induction items generalizing sites with
  | nil => exact .refl _ _
  | cons item rest ih =>
    have hitem := adds_addItem module sites item
    have hmarks : Adds marks sites (addItem module sites item) :=
      ⟨fun s hs => (hitem.declarations s hs).imp_right (himports item List.mem_cons_self s),
        fun n hn => (hitem.localNames n hn).imp_right (hbound item List.mem_cons_self n),
        hitem.fresh, hitem.freshWhole, hitem.opaqueLoads, hitem.aliasMentioned,
        hitem.aliasDeclared, hitem.firstItem⟩
    exact hmarks.trans (ih (fun other hother => himports other (List.mem_cons_of_mem _ hother))
      (fun other hother => hbound other (List.mem_cons_of_mem _ hother)) _)

end ImportSites

/-! ## Mentioned names -/

mutual

/-- A name that is mentioned starts a chain. -/
theorem Tree.root_of_mentions (name : String) : ∀ tree : Tree, tree.mentions name = true →
    ∃ chain ∈ tree.landmarks.chains, chain.root = name
  | .leaf _ _, h => by cases h
  | .text _ _, h => by cases h
  | .identifier _ id, h => ⟨_, List.mem_singleton_self _, beq_iff_eq.mp h⟩
  | .binding _ type, h => by
    obtain ⟨chain, hchain, hroot⟩ := root_of_anyMentions name type h
    exact ⟨chain, List.mem_append_right _ hchain, hroot⟩
  | .member _ object optional property, h => by
    obtain ⟨chain, hchain, hroot⟩ := Tree.root_of_mentions name object h
    simp only [Tree.landmarks]
    split
    · rename_i found hfound
      rw [(Tree.landmarks_of_chain hfound).1] at hchain
      rw [List.mem_singleton.mp hchain] at hroot
      exact ⟨_, List.mem_singleton_self _, hroot⟩
    · exact ⟨chain, hchain, hroot⟩
  | .call _ callee arguments typeArguments, h => by
    simp only [Tree.mentions, Bool.or_eq_true] at h
    rcases h with (h | h) | h
    · obtain ⟨chain, hchain, hroot⟩ := Tree.root_of_mentions name callee h
      exact ⟨chain, by simp [Tree.landmarks, Landmarks.join, hchain], hroot⟩
    · obtain ⟨chain, hchain, hroot⟩ := root_of_anyMentions name arguments h
      exact ⟨chain, by simp [Tree.landmarks, Landmarks.join, hchain], hroot⟩
    · obtain ⟨chain, hchain, hroot⟩ := root_of_anyMentions name typeArguments h
      exact ⟨chain, by simp [Tree.landmarks, Landmarks.join, hchain], hroot⟩
  | .qualified _ left right, h => by
    obtain ⟨chain, hchain, hroot⟩ := Tree.root_of_mentions name left h
    simp only [Tree.landmarks]
    split
    · rename_i found hfound
      rw [(Tree.landmarks_of_chain hfound).1] at hchain
      rw [List.mem_singleton.mp hchain] at hroot
      exact ⟨_, List.mem_singleton_self _, hroot⟩
    · exact ⟨chain, hchain, hroot⟩
  | .typeReference _ reference arguments, h => by
    simp only [Tree.mentions, Bool.or_eq_true] at h
    rcases h with h | h
    · obtain ⟨chain, hchain, hroot⟩ := Tree.root_of_mentions name reference h
      exact ⟨chain, List.mem_append_left _ hchain, hroot⟩
    · obtain ⟨chain, hchain, hroot⟩ := root_of_anyMentions name arguments h
      exact ⟨chain, List.mem_append_right _ hchain, hroot⟩
  | .heritage _ value arguments, h => by
    simp only [Tree.mentions, Bool.or_eq_true] at h
    rcases h with h | h
    · obtain ⟨chain, hchain, hroot⟩ := Tree.root_of_mentions name value h
      exact ⟨chain, List.mem_append_left _ hchain, hroot⟩
    · obtain ⟨chain, hchain, hroot⟩ := root_of_anyMentions name arguments h
      exact ⟨chain, List.mem_append_right _ hchain, hroot⟩
  | .declaration _ _ parts, h => by
    obtain ⟨chain, hchain, hroot⟩ := root_of_anyMentions name parts h
    exact ⟨chain, List.mem_append_right _ hchain, hroot⟩
  | .importDeclaration _, h => by cases h
  | .importEquals _ _, h => by cases h
  | .anchored _ _ inner, h => by
    obtain ⟨chain, hchain, hroot⟩ := Tree.root_of_mentions name inner h
    exact ⟨chain, List.mem_append_right _ hchain, hroot⟩
  | .branch _ _ children, h => root_of_anyMentions name children h

theorem root_of_anyMentions (name : String) : ∀ trees : List Tree, anyMentions name trees = true →
    ∃ chain ∈ (allLandmarks trees).chains, chain.root = name
  | [], h => by cases h
  | tree :: rest, h => by
    simp only [anyMentions, Bool.or_eq_true] at h
    rcases h with h | h
    · obtain ⟨chain, hchain, hroot⟩ := Tree.root_of_mentions name tree h
      exact ⟨chain, List.mem_append_left _ hchain, hroot⟩
    · obtain ⟨chain, hchain, hroot⟩ := root_of_anyMentions name rest h
      exact ⟨chain, List.mem_append_right _ hchain, hroot⟩

end

/-! ## The sites of a program -/

namespace Program

variable {body : Text} {program : Program} {module globalName : String}

/-- The sites before any item is looked at. -/
private def emptySites (program : Program) (body : Text) (module globalName : String) :
    ImportSites where
  opaqueLoads := (program.visits fun _ => false).filterMap (opaqueLoad? body module)
  aliasMentioned := anyMentions globalName program.items
  aliasDeclared := anyDeclares globalName program.items
  firstItem := program.items.head?.map Tree.start

private theorem adds_importSites (program : Program) (body : Text) (module globalName : String) :
    ImportSites.Adds (allLandmarks program.items) (emptySites program body module globalName)
      (program.importSites body module globalName) :=
  ImportSites.adds_foldl module program.items
    (fun _ hitem => (mem_allLandmarks hitem).2.1)
    (fun _ hitem => (mem_allLandmarks hitem).2.2.2) _

/-- The declarations that import the module are landmarks. -/
theorem mem_declarations {span : Span}
    (h : span ∈ (program.importSites body module globalName).declarations) :
    span ∈ (allLandmarks program.items).imports :=
  ((adds_importSites program body module globalName).declarations span h).resolve_left
    (by simp [emptySites])

/-- A single export that a program binds has learned nothing yet. -/
theorem fresh_importSites {named : NamedImport}
    (h : named ∈ (program.importSites body module globalName).bindings.named) : named.Fresh :=
  ((adds_importSites program body module globalName).fresh named h).resolve_left
    (by simp [emptySites])

/-- An alias that a program binds was not used yet. -/
theorem freshWhole_importSites {whole : WholeImport}
    (h : whole ∈ (program.importSites body module globalName).bindings.whole) : whole.Fresh :=
  ((adds_importSites program body module globalName).freshWhole whole h).resolve_left
    (by simp [emptySites])

/-- The names that are bound to the module and to its exports have no dots. -/
theorem Placed.dotFree_localNames (h : program.Placed body) {name : String}
    (hname : name ∈ (program.importSites body module globalName).bindings.localNames) :
    DotFree name := by
  refine h.landmarks.bound name ?_
  exact ((adds_importSites program body module globalName).localNames name hname).resolve_left
    (by simp [emptySites, Bindings.localNames])

/-- A global name that stands for the module has no dots. -/
theorem Placed.dotFree_globalName (h : program.Placed body)
    (huses : (program.importSites body module globalName).usesImplicitAlias = true) :
    DotFree globalName := by
  unfold ImportSites.usesImplicitAlias at huses
  simp only [Bool.and_eq_true] at huses
  have hmentioned := huses.1.1
  rw [(adds_importSites program body module globalName).aliasMentioned] at hmentioned
  obtain ⟨chain, hchain, hroot⟩ := root_of_anyMentions globalName program.items hmentioned
  rw [← hroot]
  exact (h.landmarks.chains chain hchain).dotFree List.mem_cons_self

/-- The first item starts where no landmark is crossed. -/
theorem Placed.free_firstItem (h : program.Placed body) {position : Nat}
    (hfirst : (program.importSites body module globalName).firstItem = some position) :
    (allLandmarks program.items).Free position := by
  rw [(adds_importSites program body module globalName).firstItem] at hfirst
  obtain ⟨item, hitem, rfl⟩ := Option.map_eq_some_iff.mp hfirst
  have hmem := List.mem_of_mem_head? (Option.mem_def.mpr hitem)
  exact h.landmarks.free_point ((mem_allLandmarks hmem).2.2.1 _ (h.starts item hmem))

/-- The comment for a load goes where a comment about some stop of a walk goes. -/
theorem exists_visit_of_load {load : OpaqueLoad}
    (hload : load ∈ (program.importSites body module globalName).opaqueLoads) :
    ∃ visit : Visit, visit.Marked (allLandmarks program.items) [] ∧
      load.position = insertionPoint body.lineIndex visit.outer visit.start := by
  rw [(adds_importSites program body module globalName).opaqueLoads] at hload
  obtain ⟨visit, hvisit, hload⟩ := List.mem_filterMap.mp hload
  refine ⟨visit, visitsAll_marked (fun _ => false) program.items [] visit hvisit, ?_⟩
  cases visit with
  | identifier id around => cases hload
  | call site around =>
    cases hkind : site.loadKind? with
    | none => simp [opaqueLoad?, hkind] at hload
    | some kind =>
      simp only [opaqueLoad?, hkind, Option.ite_none_right_eq_some, Option.some.injEq] at hload
      rw [← hload.2]
      rfl

/-- The comment for a load stands where no landmark is crossed. -/
theorem Placed.free_load (h : program.Placed body) {load : OpaqueLoad}
    (hload : load ∈ (program.importSites body module globalName).opaqueLoads) :
    (allLandmarks program.items).Free load.position := by
  obtain ⟨visit, hmarked, hposition⟩ := exists_visit_of_load hload
  rw [hposition]
  exact h.landmarks.free_insertionPoint body.lineIndex hmarked

/-- Whether the global name is declared is asked of all items at once. -/
theorem aliasDeclared_eq :
    (program.importSites body module globalName).aliasDeclared =
      anyDeclares globalName program.items :=
  (adds_importSites program body module globalName).aliasDeclared

/-- Whether the global name is used is asked of all items at once. -/
theorem aliasMentioned_eq :
    (program.importSites body module globalName).aliasMentioned =
      anyMentions globalName program.items :=
  (adds_importSites program body module globalName).aliasMentioned

/-- A file without items has no place for new declarations, and none where the
module is used. -/
theorem firstItem_eq :
    (program.importSites body module globalName).firstItem = program.items.head?.map Tree.start :=
  (adds_importSites program body module globalName).firstItem

end Program

end SdkMigration
