import SdkMigration.Proofs.EditRequests
import SdkMigration.Proofs.Stages.Enums

/-!
# References inside references

The stage of enumerations looks at a reference of several names from the outside
in: at an access as a whole, then at what its last name is taken from, and so on,
until one of the looks settles the reference.  The outermost references are the
nests of a program.  They stand apart, and the stage goes from one to the next.

Inside a nest a chain is reached when no look at a longer one settles it before.
Then the chain is replaced, unless the rule for it changes nothing.
-/

namespace SdkMigration

/-! ## Looks -/

/-- A place where the stage looks at a chain: an access as a whole, or else an object, the left
side of a dotted name, or the name of a type. -/
structure EnumLook where
  chain : Chain
  isAccess : Bool
deriving DecidableEq

/-- The look at the chain that a tree is, if it is one, where it is no access as a whole. -/
def Tree.look? (tree : Tree) : Option EnumLook := tree.chain?.map fun chain => ⟨chain, false⟩

theorem Tree.mem_chain?_of_look? {tree : Tree} {look : EnumLook} (h : look ∈ tree.look?.toList) :
    look.chain ∈ tree.chain?.toList := by
  rw [Option.mem_toList] at h ⊢
  obtain ⟨chain, hchain, rfl⟩ := Option.map_eq_some_iff.mp h
  exact hchain

mutual

/-- The looks in a tree. -/
def Tree.enumLooks : Tree → List EnumLook
  | .leaf _ _ => []
  | .text _ _ => []
  | .identifier _ _ => []
  | .binding _ type => allEnumLooks type
  | .member _ object optional property =>
    match object.chain? with
    | some chain =>
      ⟨chain.extend ⟨property.name, property.span, optional⟩, true⟩ :: ⟨chain, false⟩ ::
        object.enumLooks
    | none => object.enumLooks
  | .call _ callee arguments typeArguments =>
    callee.enumLooks ++ allEnumLooks arguments ++ allEnumLooks typeArguments
  | .qualified _ left _ => left.look?.toList ++ left.enumLooks
  | .typeReference _ name arguments =>
    name.look?.toList ++ name.enumLooks ++ allEnumLooks arguments
  | .heritage _ value arguments => value.enumLooks ++ allEnumLooks arguments
  | .declaration _ _ parts => allEnumLooks parts
  | .importDeclaration _ => []
  | .importEquals _ module => module.enumLooks
  | .anchored _ _ inner => inner.enumLooks
  | .branch _ _ children => allEnumLooks children

/-- The looks in trees. -/
def allEnumLooks : List Tree → List EnumLook
  | [] => []
  | tree :: rest => tree.enumLooks ++ allEnumLooks rest

end

/-! ## Nests -/

/-- The reference that a nest is. -/
def Tree.nested? : Tree → Option Chain
  | .typeReference _ name _ => name.chain?
  | tree => tree.chain?

mutual

/-- The outermost references in a tree, a name of a type being one that takes no arguments. -/
def Tree.enumNests : Tree → List Tree
  | .leaf _ _ => []
  | .text _ _ => []
  | .identifier _ _ => []
  | .binding _ type => allEnumNests type
  | .member span object optional property =>
    match object.chain? with
    | some _ => [.member span object optional property]
    | none => object.enumNests
  | .call _ callee arguments typeArguments =>
    callee.enumNests ++ allEnumNests arguments ++ allEnumNests typeArguments
  | .qualified span left right =>
    match left.chain? with
    | some _ => [.qualified span left right]
    | none => left.enumNests
  | .typeReference span name arguments =>
    (match name.chain? with
      | some _ => [.typeReference span name []]
      | none => name.enumNests) ++ allEnumNests arguments
  | .heritage _ value arguments => value.enumNests ++ allEnumNests arguments
  | .declaration _ _ parts => allEnumNests parts
  | .importDeclaration _ => []
  | .importEquals _ module => module.enumNests
  | .anchored _ _ inner => inner.enumNests
  | .branch _ _ children => allEnumNests children

/-- The outermost references in trees. -/
def allEnumNests : List Tree → List Tree
  | [] => []
  | tree :: rest => tree.enumNests ++ allEnumNests rest

end

mutual

/-- The stage goes from nest to nest. -/
theorem Tree.rewriteEnums_eq_foldl (rules : EnumRules) : ∀ (tree : Tree) (draft : Draft),
    tree.rewriteEnums rules draft =
      tree.enumNests.foldl (fun draft nest => nest.rewriteEnums rules draft) draft
  | .leaf _ _, _ => rfl
  | .text _ _, _ => rfl
  | .identifier _ _, _ => rfl
  | .binding _ type, draft => rewriteAllEnums_eq_foldl rules type draft
  | .member span object optional property, draft => by
    simp only [Tree.enumNests]
    cases hchain : object.chain? with
    | some chain => rfl
    | none =>
      simp only [Tree.rewriteEnums, Draft.rewriteWholeMember, Draft.rewriteEnumTree, hchain]
      exact Tree.rewriteEnums_eq_foldl rules object draft
  | .call _ callee arguments typeArguments, draft => by
    simp only [Tree.rewriteEnums, Tree.enumNests, List.foldl_append]
    rw [Tree.rewriteEnums_eq_foldl rules callee, rewriteAllEnums_eq_foldl rules arguments,
      rewriteAllEnums_eq_foldl rules typeArguments]
  | .qualified span left right, draft => by
    simp only [Tree.enumNests]
    cases hchain : left.chain? with
    | some chain => rfl
    | none =>
      simp only [Tree.rewriteEnums, Draft.rewriteEnumTree, hchain]
      exact Tree.rewriteEnums_eq_foldl rules left draft
  | .typeReference span name arguments, draft => by
    simp only [Tree.enumNests, List.foldl_append]
    rw [← rewriteAllEnums_eq_foldl rules arguments]
    cases hchain : name.chain? with
    | some chain => rfl
    | none =>
      simp only [Tree.rewriteEnums, Draft.rewriteEnumTree, hchain]
      rw [← Tree.rewriteEnums_eq_foldl rules name]
      rfl
  | .heritage _ value arguments, draft => by
    simp only [Tree.rewriteEnums, Tree.enumNests, List.foldl_append]
    rw [Tree.rewriteEnums_eq_foldl rules value, rewriteAllEnums_eq_foldl rules arguments]
  | .declaration _ _ parts, draft => rewriteAllEnums_eq_foldl rules parts draft
  | .importDeclaration _, _ => rfl
  | .importEquals _ module, draft => Tree.rewriteEnums_eq_foldl rules module draft
  | .anchored _ _ inner, draft => Tree.rewriteEnums_eq_foldl rules inner draft
  | .branch _ _ children, draft => rewriteAllEnums_eq_foldl rules children draft

theorem rewriteAllEnums_eq_foldl (rules : EnumRules) : ∀ (trees : List Tree) (draft : Draft),
    rewriteAllEnums rules trees draft =
      (allEnumNests trees).foldl (fun draft nest => nest.rewriteEnums rules draft) draft
  | [], _ => rfl
  | tree :: rest, draft => by
    simp only [rewriteAllEnums, allEnumNests, List.foldl_append]
    rw [Tree.rewriteEnums_eq_foldl rules tree, rewriteAllEnums_eq_foldl rules rest]

end

mutual

/-- All looks are looks in a nest. -/
theorem Tree.enumLooks_eq_flatMap : ∀ tree : Tree,
    tree.enumLooks = tree.enumNests.flatMap Tree.enumLooks
  | .leaf _ _ => rfl
  | .text _ _ => rfl
  | .identifier _ _ => rfl
  | .binding _ type => allEnumLooks_eq_flatMap type
  | .member span object optional property => by
    cases hchain : object.chain? with
    | some chain => simp [Tree.enumNests, hchain]
    | none =>
      simp only [Tree.enumNests, Tree.enumLooks, hchain]
      exact Tree.enumLooks_eq_flatMap object
  | .call _ callee arguments typeArguments => by
    simp only [Tree.enumLooks, Tree.enumNests, List.flatMap_append]
    rw [← Tree.enumLooks_eq_flatMap callee, ← allEnumLooks_eq_flatMap arguments,
      ← allEnumLooks_eq_flatMap typeArguments]
  | .qualified span left right => by
    cases hchain : left.chain? with
    | some chain => simp [Tree.enumNests, hchain]
    | none =>
      simp only [Tree.enumNests, Tree.enumLooks, Tree.look?, hchain]
      exact Tree.enumLooks_eq_flatMap left
  | .typeReference span name arguments => by
    simp only [Tree.enumLooks, Tree.enumNests, List.flatMap_append]
    rw [← allEnumLooks_eq_flatMap arguments]
    cases hchain : name.chain? with
    | some chain => simp [Tree.look?, hchain, Tree.enumLooks, allEnumLooks]
    | none =>
      simp only [Tree.look?, hchain]
      rw [← Tree.enumLooks_eq_flatMap name]
      rfl
  | .heritage _ value arguments => by
    simp only [Tree.enumLooks, Tree.enumNests, List.flatMap_append]
    rw [← Tree.enumLooks_eq_flatMap value, ← allEnumLooks_eq_flatMap arguments]
  | .declaration _ _ parts => allEnumLooks_eq_flatMap parts
  | .importDeclaration _ => rfl
  | .importEquals _ module => Tree.enumLooks_eq_flatMap module
  | .anchored _ _ inner => Tree.enumLooks_eq_flatMap inner
  | .branch _ _ children => allEnumLooks_eq_flatMap children

theorem allEnumLooks_eq_flatMap : ∀ trees : List Tree,
    allEnumLooks trees = (allEnumNests trees).flatMap Tree.enumLooks
  | [] => rfl
  | tree :: rest => by
    simp only [allEnumLooks, allEnumNests, List.flatMap_append]
    rw [← Tree.enumLooks_eq_flatMap tree, ← allEnumLooks_eq_flatMap rest]

end

mutual

/-- The nests of a tree are landmarks of their own. -/
theorem Tree.nested_sublist : ∀ tree : Tree,
    (tree.enumNests.filterMap Tree.nested?).Sublist tree.landmarks.chains
  | .leaf _ _ => List.nil_sublist _
  | .text _ _ => List.nil_sublist _
  | .identifier _ _ => List.nil_sublist _
  | .binding _ type => (allNested_sublist type).trans (List.sublist_append_right _ _)
  | .member span object optional property => by
    have hobject := Tree.nested_sublist object
    simp only [Tree.enumNests, Tree.landmarks]
    cases hchain : object.chain? with
    | some chain => simp [Tree.nested?, Tree.chain?, hchain]
    | none => exact hobject
  | .call _ callee arguments typeArguments => by
    simp only [Tree.enumNests, List.filterMap_append, List.append_assoc]
    exact (Tree.nested_sublist callee).append
      ((allNested_sublist arguments).append (allNested_sublist typeArguments))
  | .qualified span left right => by
    have hleft := Tree.nested_sublist left
    simp only [Tree.enumNests, Tree.landmarks]
    cases hchain : left.chain? with
    | some chain => simp [Tree.nested?, Tree.chain?, hchain]
    | none => exact hleft
  | .typeReference span name arguments => by
    simp only [Tree.enumNests, List.filterMap_append]
    refine List.Sublist.append ?_ (allNested_sublist arguments)
    cases hchain : name.chain? with
    | some chain => simp [Tree.nested?, hchain, (Tree.landmarks_of_chain hchain).1]
    | none => exact Tree.nested_sublist name
  | .heritage _ value arguments => by
    simp only [Tree.enumNests, List.filterMap_append]
    exact (Tree.nested_sublist value).append (allNested_sublist arguments)
  | .declaration _ _ parts => (allNested_sublist parts).trans (List.sublist_append_right _ _)
  | .importDeclaration _ => List.nil_sublist _
  | .importEquals header module => by
    have hmodule := Tree.nested_sublist module
    cases module with
    | text value span => exact List.nil_sublist _
    | _ => exact hmodule
  | .anchored _ _ inner => Tree.nested_sublist inner
  | .branch _ _ children => allNested_sublist children

theorem allNested_sublist : ∀ trees : List Tree,
    ((allEnumNests trees).filterMap Tree.nested?).Sublist (allLandmarks trees).chains
  | [] => List.nil_sublist _
  | tree :: rest => by
    simp only [allEnumNests, List.filterMap_append]
    exact (Tree.nested_sublist tree).append (allNested_sublist rest)

end

mutual

/-- What is looked at is a reference. -/
theorem Tree.mem_references_of_look : ∀ (tree : Tree), ∀ look ∈ tree.enumLooks,
    look.chain ∈ tree.references
  | .leaf _ _ => by simp [Tree.enumLooks]
  | .text _ _ => by simp [Tree.enumLooks]
  | .identifier _ _ => by simp [Tree.enumLooks]
  | .binding _ type => mem_allReferences_of_look type
  | .member _ object optional property => fun look hlook => by
    have hobject := Tree.mem_references_of_look object look
    simp only [Tree.enumLooks, Tree.references] at hlook ⊢
    cases hchain : object.chain? with
    | none =>
      rw [hchain] at hlook
      exact hobject hlook
    | some chain =>
      simp only [hchain, List.mem_cons] at hlook ⊢
      rcases hlook with rfl | rfl | hlook
      · exact Or.inl rfl
      · exact Or.inr (Or.inl rfl)
      · exact Or.inr (Or.inr (hobject hlook))
  | .call _ callee arguments typeArguments => fun look hlook => by
    simp only [Tree.enumLooks, Tree.references, List.mem_append] at hlook ⊢
    rcases hlook with (hlook | hlook) | hlook
    · exact Or.inl (Or.inl (Or.inr (Tree.mem_references_of_look callee look hlook)))
    · exact Or.inl (Or.inr (mem_allReferences_of_look arguments look hlook))
    · exact Or.inr (mem_allReferences_of_look typeArguments look hlook)
  | .qualified _ left _ => fun look hlook => by
    simp only [Tree.enumLooks, Tree.references, List.mem_append] at hlook ⊢
    rcases hlook with hlook | hlook
    · exact Or.inl (Tree.mem_chain?_of_look? hlook)
    · exact Or.inr (Tree.mem_references_of_look left look hlook)
  | .typeReference _ name arguments => fun look hlook => by
    simp only [Tree.enumLooks, Tree.references, List.mem_append] at hlook ⊢
    rcases hlook with (hlook | hlook) | hlook
    · exact Or.inl (Or.inl (Tree.mem_chain?_of_look? hlook))
    · exact Or.inl (Or.inr (Tree.mem_references_of_look name look hlook))
    · exact Or.inr (mem_allReferences_of_look arguments look hlook)
  | .heritage _ value arguments => fun look hlook => by
    simp only [Tree.enumLooks, Tree.references, List.mem_append] at hlook ⊢
    rcases hlook with hlook | hlook
    · exact Or.inl (Or.inr (Tree.mem_references_of_look value look hlook))
    · exact Or.inr (mem_allReferences_of_look arguments look hlook)
  | .declaration _ _ parts => mem_allReferences_of_look parts
  | .importDeclaration _ => by simp [Tree.enumLooks]
  | .importEquals _ module => Tree.mem_references_of_look module
  | .anchored _ _ inner => Tree.mem_references_of_look inner
  | .branch _ _ children => mem_allReferences_of_look children

theorem mem_allReferences_of_look : ∀ (trees : List Tree), ∀ look ∈ allEnumLooks trees,
    look.chain ∈ allReferences trees
  | [] => by simp [allEnumLooks]
  | tree :: rest => fun look hlook => by
    simp only [allEnumLooks, allReferences, List.mem_append] at hlook ⊢
    rcases hlook with hlook | hlook
    · exact Or.inl (Tree.mem_references_of_look tree look hlook)
    · exact Or.inr (mem_allReferences_of_look rest look hlook)

end

/-! ## Inside a nest -/

/-- Whether a tree is a nest: a chain, or the name of a type without arguments. -/
inductive Tree.IsNest : Tree → Chain → Prop where
  | chain {tree : Tree} {chain : Chain} (h : tree.chain? = some chain) : IsNest tree chain
  | typeName {name : Tree} {chain : Chain} (span : Span) (h : name.chain? = some chain) :
    IsNest (.typeReference span name []) chain

namespace Tree.IsNest

variable {tree : Tree} {whole : Chain}

theorem nested? (h : tree.IsNest whole) : tree.nested? = some whole := by
  cases h with
  | chain h => cases tree <;> first | exact h | cases h
  | typeName span h => exact h

theorem landmarks (h : tree.IsNest whole) : tree.landmarks.chains = [whole] := by
  cases h with
  | chain h => exact (Tree.landmarks_of_chain h).1
  | typeName span h =>
    simp only [Tree.landmarks, Landmarks.join, allLandmarks, List.append_nil]
    exact (Tree.landmarks_of_chain h).1

/-- The references of a nest are beginnings of it. -/
theorem begins (h : tree.IsNest whole) {chain : Chain} (hchain : chain ∈ tree.references) :
    chain.Begins whole := by
  obtain ⟨other, hother, hbegins⟩ := Tree.references_begun tree chain hchain
  rw [h.landmarks] at hother
  exact List.mem_singleton.mp hother ▸ hbegins

end Tree.IsNest

mutual

theorem Tree.isNest_of_mem : ∀ (tree : Tree), ∀ nest ∈ tree.enumNests,
    ∃ whole, nest.IsNest whole
  | .leaf _ _ => by simp [Tree.enumNests]
  | .text _ _ => by simp [Tree.enumNests]
  | .identifier _ _ => by simp [Tree.enumNests]
  | .binding _ type => isNest_of_mem_all type
  | .member span object optional property => fun nest hnest => by
    have hobject := Tree.isNest_of_mem object nest
    simp only [Tree.enumNests] at hnest
    cases hchain : object.chain? with
    | none =>
      rw [hchain] at hnest
      exact hobject hnest
    | some chain =>
      rw [hchain, List.mem_singleton] at hnest
      rw [hnest]
      exact ⟨_, .chain (by rw [Tree.chain?, hchain])⟩
  | .call _ callee arguments typeArguments => fun nest hnest => by
    simp only [Tree.enumNests, List.mem_append] at hnest
    rcases hnest with (hnest | hnest) | hnest
    · exact Tree.isNest_of_mem callee nest hnest
    · exact isNest_of_mem_all arguments nest hnest
    · exact isNest_of_mem_all typeArguments nest hnest
  | .qualified span left right => fun nest hnest => by
    have hleft := Tree.isNest_of_mem left nest
    simp only [Tree.enumNests] at hnest
    cases hchain : left.chain? with
    | none =>
      rw [hchain] at hnest
      exact hleft hnest
    | some chain =>
      rw [hchain, List.mem_singleton] at hnest
      rw [hnest]
      exact ⟨_, .chain (by rw [Tree.chain?, hchain])⟩
  | .typeReference span name arguments => fun nest hnest => by
    have hname := Tree.isNest_of_mem name nest
    simp only [Tree.enumNests, List.mem_append] at hnest
    rcases hnest with hnest | hnest
    · cases hchain : name.chain? with
      | none =>
        rw [hchain] at hnest
        exact hname hnest
      | some chain =>
        rw [hchain, List.mem_singleton] at hnest
        rw [hnest]
        exact ⟨_, .typeName span hchain⟩
    · exact isNest_of_mem_all arguments nest hnest
  | .heritage _ value arguments => fun nest hnest => by
    simp only [Tree.enumNests, List.mem_append] at hnest
    rcases hnest with hnest | hnest
    · exact Tree.isNest_of_mem value nest hnest
    · exact isNest_of_mem_all arguments nest hnest
  | .declaration _ _ parts => isNest_of_mem_all parts
  | .importDeclaration _ => by simp [Tree.enumNests]
  | .importEquals _ module => Tree.isNest_of_mem module
  | .anchored _ _ inner => Tree.isNest_of_mem inner
  | .branch _ _ children => isNest_of_mem_all children

theorem isNest_of_mem_all : ∀ (trees : List Tree), ∀ nest ∈ allEnumNests trees,
    ∃ whole, nest.IsNest whole
  | [] => by simp [allEnumNests]
  | tree :: rest => fun nest hnest => by
    simp only [allEnumNests, List.mem_append] at hnest
    rcases hnest with hnest | hnest
    · exact Tree.isNest_of_mem tree nest hnest
    · exact isNest_of_mem_all rest nest hnest

end

/-! ### Chains with the same names in the same places -/

namespace Chain

theorem getLast?_identifiers (chain : Chain) :
    chain.identifiers.getLast? = some ⟨chain.last.name, chain.last.span⟩ := by
  obtain ⟨init, hinit⟩ := chain.exists_segments_eq
  simp [identifiers, hinit]

theorem names_eq_of_identifiers {a b : Chain} (h : a.identifiers = b.identifiers) :
    a.names = b.names := by rw [names_eq, names_eq, h]

theorem span_eq_of_identifiers {a b : Chain} (h : a.identifiers = b.identifiers) :
    a.span = b.span := by
  have hbegins : a.Begins b := by
    unfold Begins
    exact h ▸ List.prefix_rfl
  have hstart : a.head.span.start = b.head.span.start := hbegins.start_eq
  have hlast := congrArg List.getLast? h
  rw [getLast?_identifiers, getLast?_identifiers, Option.some.injEq, Identifier.mk.injEq] at hlast
  unfold span
  rw [hstart, hlast.2]

theorem root_eq_of_names {a b : Chain} (h : a.names = b.names) : a.root = b.root :=
  (List.cons.inj h).1

/-- A longer chain has more names. -/
theorem Begins.names_ne {short long : Chain} (h : short.Begins long)
    (hne : long.identifiers ≠ short.identifiers) : long.names ≠ short.names := by
  intro hnames
  refine hne (List.IsPrefix.eq_of_length h ?_).symm
  have hlength := congrArg List.length hnames
  rwa [names_eq, names_eq, List.length_map, List.length_map, eq_comm] at hlength

/-- A chain that is longer than another one has a name behind its first one. -/
theorem Begins.rest_ne_nil {short long : Chain} (h : short.Begins long)
    (hne : long.names ≠ short.names) : long.rest ≠ [] := by
  intro hrest
  obtain ⟨more, hmore⟩ := h.names_prefix
  have hroot := h.root_eq
  have hlong : long.names = [long.root] := by simp [names, segments, hrest, root]
  rw [hlong] at hmore hne
  have hshort : short.names = short.root :: short.rest.map (·.name) := rfl
  rw [hshort, List.cons_append, List.cons.injEq, List.append_eq_nil_iff] at hmore
  rw [hshort, hmore.2.1, hroot] at hne
  exact hne rfl

end Chain

/-! ### Looks from the outside in -/

section Inside

variable {rules : EnumRules} {draft : Draft} {site : Chain}

/-- Whether the looks at longer chains leave a chain to the looks behind them. -/
structure Draft.Passes (draft : Draft) (rules : EnumRules) (site : Chain)
    (looks : List EnumLook) : Prop where
  exactly : ∀ look ∈ looks, ∀ longer : Chain, longer.identifiers = look.chain.identifiers →
    site.Begins longer → longer.names ≠ site.names →
    draft.rewriteExactEnum rules longer = (draft, false)
  inexactly : ∀ look ∈ looks, look.isAccess = false → site.Begins look.chain →
    look.chain.names ≠ site.names → draft.rewriteEnum rules look.chain = (draft, false)

theorem Draft.Passes.mono {looks others : List EnumLook} (h : draft.Passes rules site others)
    (hsubset : looks ⊆ others) : draft.Passes rules site looks :=
  ⟨fun look hlook => h.exactly look (hsubset hlook),
    fun look hlook => h.inexactly look (hsubset hlook)⟩

/-- The looks at a tree that is a chain are at beginnings of it. -/
private theorem begins_of_look {tree : Tree} {chain : Chain} (hchain : tree.chain? = some chain)
    (hsite : site ∈ (⟨chain, false⟩ :: tree.enumLooks).map EnumLook.chain) :
    site.Begins chain := by
  rw [List.map_cons, List.mem_cons] at hsite
  rcases hsite with rfl | hsite
  · exact .refl _
  · obtain ⟨look, hlook, rfl⟩ := List.mem_map.mp hsite
    exact (Tree.IsNest.chain hchain).begins (Tree.mem_references_of_look tree look hlook)

section Settles

variable (done : Draft → Prop) (hsettles : ∀ same : Chain, same.identifiers = site.identifiers →
  done (draft.rewriteExactEnum rules same).1 ∧ (draft.rewriteExactEnum rules same).2 = true)

include hsettles

/-- A look at a chain that is no access as a whole settles it when the exact look does, and
goes on inwards when it leaves it. -/
private theorem settles_look {tree : Tree} {chain : Chain} (hchain : tree.chain? = some chain)
    (hpasses : draft.Passes rules site (⟨chain, false⟩ :: tree.enumLooks))
    (hsite : site ∈ (⟨chain, false⟩ :: tree.enumLooks).map EnumLook.chain)
    (hinner : draft.Passes rules site tree.enumLooks →
      site ∈ tree.enumLooks.map EnumLook.chain → done (tree.rewriteEnums rules draft)) :
    done (if (draft.rewriteEnumTree rules tree).2 then (draft.rewriteEnumTree rules tree).1
      else tree.rewriteEnums rules (draft.rewriteEnumTree rules tree).1) := by
  have hlook : draft.rewriteEnumTree rules tree = draft.rewriteEnum rules chain := by
    simp only [Draft.rewriteEnumTree, hchain]
  have hbegins := begins_of_look hchain hsite
  rw [hlook]
  by_cases hsame : chain.identifiers = site.identifiers
  · obtain ⟨hdone, hsettled⟩ := hsettles chain hsame
    have htracks : draft.bindings.tracks chain.root = true := by
      unfold Draft.rewriteExactEnum at hsettled
      by_contra hno
      rw [if_neg hno] at hsettled
      cases hsettled
    have hexact : draft.rewriteEnum rules chain =
        ((draft.rewriteExactEnum rules chain).1, true) := by
      simp only [Draft.rewriteEnum, htracks, if_true, hsettled]
    rw [hexact]
    exact hdone
  · rw [hpasses.inexactly _ List.mem_cons_self rfl hbegins (hbegins.names_ne hsame)]
    refine hinner (hpasses.mono (List.subset_cons_self _ _)) ?_
    rw [List.map_cons, List.mem_cons] at hsite
    exact hsite.resolve_left fun h => hsame (congrArg Chain.identifiers h.symm)

/-- In a tree that is a chain a site is settled by the first look at it. -/
theorem Tree.settles_chain {tree : Tree} {chain : Chain} (hchain : tree.chain? = some chain)
    (hpasses : draft.Passes rules site tree.enumLooks)
    (hsite : site ∈ tree.enumLooks.map EnumLook.chain) : done (tree.rewriteEnums rules draft) := by
  fun_induction Tree.chain? tree generalizing chain with
  | case1 => cases hsite
  | case2 span object optional property inner hinner ih =>
    simp only [Tree.enumLooks, hinner] at hpasses hsite
    -- The question mark before the last name does not count at the access as a whole.
    have hwhole : draft.rewriteWholeMember rules object property = draft.rewriteExactEnum rules
        (inner.extend ⟨property.name, property.span, false⟩) := by
      simp only [Draft.rewriteWholeMember, hinner]
    have hidentifiers : (inner.extend ⟨property.name, property.span, optional⟩).identifiers =
        (inner.extend ⟨property.name, property.span, false⟩).identifiers := by
      rw [Chain.identifiers_extend, Chain.identifiers_extend]
    show done (if (draft.rewriteWholeMember rules object property).2 then
        (draft.rewriteWholeMember rules object property).1
      else
        let first := (draft.rewriteWholeMember rules object property).1
        if (first.rewriteEnumTree rules object).2 then (first.rewriteEnumTree rules object).1
        else object.rewriteEnums rules (first.rewriteEnumTree rules object).1)
    rw [hwhole]
    by_cases hsame :
        (inner.extend ⟨property.name, property.span, false⟩).identifiers = site.identifiers
    · obtain ⟨hdone, hsettled⟩ := hsettles _ hsame
      rw [hsettled]
      exact hdone
    · have hinside : site ∈ (⟨inner, false⟩ :: object.enumLooks).map EnumLook.chain := by
        rw [List.map_cons, List.mem_cons] at hsite
        refine hsite.resolve_left fun h => hsame ?_
        rw [h, hidentifiers]
      have hlonger := (begins_of_look hinner hinside).trans
        (inner.begins_extend ⟨property.name, property.span, false⟩)
      rw [hpasses.exactly _ List.mem_cons_self _ hidentifiers.symm hlonger
        (hlonger.names_ne hsame)]
      exact settles_look done hsettles hinner (hpasses.mono (List.subset_cons_self _ _)) hinside
        (ih hinner)
  | case3 => cases hchain
  | case4 span left right inner hinner ih =>
    simp only [Tree.enumLooks, Tree.look?, hinner] at hpasses hsite
    exact settles_look done hsettles hinner hpasses hsite (ih hinner)
  | case5 => cases hchain
  | case6 kind start inner ih => exact ih hchain hpasses hsite
  | case7 => cases hchain

/-- In a nest a site is settled by the first look at it. -/
theorem Tree.IsNest.settles {nest : Tree} {whole : Chain} (h : nest.IsNest whole)
    (hpasses : draft.Passes rules site nest.enumLooks)
    (hsite : site ∈ nest.enumLooks.map EnumLook.chain) : done (nest.rewriteEnums rules draft) := by
  cases h with
  | chain h => exact Tree.settles_chain done hsettles h hpasses hsite
  | @typeName name chain span h =>
    simp only [Tree.enumLooks, Tree.look?, h, allEnumLooks, List.append_nil] at hpasses hsite
    exact settles_look done hsettles h hpasses hsite (Tree.settles_chain done hsettles h)

end Settles

end Inside

/-! ## The stage -/

theorem looks_subset {items : List Tree} {nest : Tree} (h : nest ∈ allEnumNests items) :
    nest.enumLooks ⊆ allEnumLooks items := by
  intro look hlook
  rw [allEnumLooks_eq_flatMap]
  exact List.mem_flatMap.mpr ⟨nest, h, hlook⟩

namespace Landmarks.Placed

variable {text : Text} {lo hi : Nat} {marks : Landmarks} {site whole : Chain}

/-- A chain is the beginning of one landmark only. -/
theorem eq_of_begins (h : marks.Placed text lo hi) {other : Chain} (hwhole : whole ∈ marks.chains)
    (hother : other ∈ marks.chains) (hbegins : site.Begins whole)
    (hbeginsOther : site.Begins other) : whole = other := by
  by_contra hne
  have hapart := h.apart_of_ne hwhole hother hne
  have hlt := (h.chains whole hwhole).start_lt_stop
  have hltOther := (h.chains other hother).start_lt_stop
  have hstart := hbegins.start_eq.symm.trans hbeginsOther.start_eq
  unfold Span.Apart at hapart
  omega

/-- Edits inside other chains do not overlap a replacement of a beginning of a chain. -/
theorem not_overlaps_beginning (h : marks.Placed text lo hi) {edit : Edit}
    (hwhole : whole ∈ marks.chains) (hbegins : site.Begins whole)
    (hedit : marks.Within (· ≠ whole) edit) (newText : Text) :
    edit.overlaps ⟨site.span, newText⟩ = false :=
  Edit.not_overlaps_of_inside (h.not_overlaps_chain hwhole hedit newText)
    (Nat.le_of_eq hbegins.start_eq.symm) (hbegins.stop_le (h.chains whole hwhole)) newText

end Landmarks.Placed

/-- Whether a look hides a chain that starts a longer one: the longer chain is no access as a
whole, it stands behind an alias, and it ends like an enumeration but not with its
target. -/
structure EnumLook.Hides (bindings : Bindings) (rules : List Rule) (look : EnumLook)
    (site : Chain) : Prop where
  inexact : look.isAccess = false
  begins : site.Begins look.chain
  longer : look.chain.names ≠ site.names
  behind : bindings.isAlias site.root = true
  ends : ∃ rule, ruleEndingWith? rules look.chain.last.name = some rule ∧
    ¬ rule.target.names <:+ look.chain.names.tail

/-- Whether the stage reaches a chain: it looks at the chain, finds a replacement for it and
none for a longer one, and no look hides it. -/
structure EnumReached (bindings : Bindings) (rules : List Rule) (items : List Tree) (site : Chain)
    (replacement : Replacement) : Prop where
  look : site ∈ (allEnumLooks items).map EnumLook.chain
  bound : bindings.tracks site.root = true
  found : (Lookups.build bindings rules).1.find? site.names = some replacement
  alone : ∀ look ∈ allEnumLooks items, site.Begins look.chain → look.chain.names ≠ site.names →
    (Lookups.build bindings rules).1.find? look.chain.names = none
  visible : ∀ look ∈ allEnumLooks items, ¬ look.Hides bindings rules site

namespace EnumReached

variable {lessons : Lessons} {body : Text} {bindings : Bindings} {rules : List Rule}
  {items : List Tree} {site : Chain} {replacement : Replacement} {draft : Draft}

/-- A longer chain is left alone by the exact look. -/
private theorem exactly (h : EnumReached bindings rules items site replacement) {look : EnumLook}
    (hlook : look ∈ allEnumLooks items) {longer : Chain}
    (hsame : longer.identifiers = look.chain.identifiers) (hbegins : site.Begins longer)
    (hlonger : longer.names ≠ site.names) :
    draft.rewriteExactEnum (Draft.enumRules body bindings rules) longer = (draft, false) := by
  have hbeginsLook : site.Begins look.chain := by
    unfold Chain.Begins at hbegins ⊢
    rwa [← hsame]
  rw [Chain.names_eq_of_identifiers hsame] at hlonger
  unfold Draft.rewriteExactEnum
  split
  · rw [Chain.names_eq_of_identifiers hsame, h.alone look hlook hbeginsLook hlonger]
  · rfl

/-- A longer chain is left alone by every look that does not hide the chain. -/
private theorem inexactly (h : EnumReached bindings rules items site replacement)
    (hlearns : bindings.Learns lessons draft.bindings) {look : EnumLook}
    (hlook : look ∈ allEnumLooks items) (hinexact : look.isAccess = false)
    (hbegins : site.Begins look.chain) (hlonger : look.chain.names ≠ site.names) :
    draft.rewriteEnum (Draft.enumRules body bindings rules) look.chain = (draft, false) := by
  obtain ⟨second, others, hrest⟩ :=
    List.exists_cons_of_ne_nil (hbegins.rest_ne_nil hlonger)
  unfold Draft.rewriteEnum
  split
  · rw [h.exactly hlook rfl hbegins hlonger]
    simp only [Bool.false_eq_true, if_false]
    cases hindex : draft.bindings.wholeIndex? look.chain.root with
    | none => simp only [Draft.rewriteNamedEnum, hrest]
    | some index =>
      have halias : bindings.isAlias site.root = true := by
        rw [← hlearns.isAlias_eq, hbegins.root_eq]
        exact Option.isSome_iff_exists.mpr ⟨index, hindex⟩
      simp only [Draft.rewriteAliasedEnum, hrest]
      cases hrule : ruleEndingWith? rules look.chain.last.name with
      | none => rfl
      | some rule =>
        simp only
        split
        · rfl
        · rename_i hends
          refine absurd ⟨hinexact, hbegins, hlonger, halias, rule, hrule, fun hsuffix => hends ?_⟩
            (h.visible look hlook)
          exact List.isSuffixOf_iff_suffix.mpr hsuffix
  · rfl

theorem passes (h : EnumReached bindings rules items site replacement)
    (hlearns : bindings.Learns lessons draft.bindings) {looks : List EnumLook}
    (hlooks : looks ⊆ allEnumLooks items) :
    draft.Passes (Draft.enumRules body bindings rules) site looks :=
  ⟨fun _ hlook _ hsame hbegins hlonger => h.exactly (hlooks hlook) hsame hbegins hlonger,
    fun _ hlook hinexact hbegins hlonger =>
      h.inexactly hlearns (hlooks hlook) hinexact hbegins hlonger⟩

/-- The exact look finds the replacement. -/
private theorem rewriteExactEnum_eq (h : EnumReached bindings rules items site replacement)
    (hlearns : bindings.Learns lessons draft.bindings) {same : Chain}
    (hsame : same.identifiers = site.identifiers) :
    draft.rewriteExactEnum (Draft.enumRules body bindings rules) same =
      if replacement.isIdentity then (draft, true)
      else draft.replaceEnum body site.span (same.render replacement.target) replacement.origin
        replacement.target := by
  have hnames := Chain.names_eq_of_identifiers hsame
  unfold Draft.rewriteExactEnum
  rw [hlearns.tracks_eq, Chain.root_eq_of_names hnames, h.bound, if_pos rfl, hnames, h.found,
    Chain.span_eq_of_identifiers hsame]

/-- The nest around a chain that the stage reaches is a landmark, and no other nest is the same
landmark. -/
theorem nest_around {lo hi : Nat} {whole : Chain}
    (h : EnumReached bindings rules items site replacement)
    (hplaced : (allLandmarks items).Placed body lo hi)
    (hwhole : whole ∈ (allLandmarks items).chains) (hbegins : site.Begins whole) :
    ∃ nest ∈ allEnumNests items, nest.IsNest whole ∧ site ∈ nest.enumLooks.map EnumLook.chain ∧
      ∀ other ∈ allEnumNests items, other.nested? = some whole → other = nest := by
  have hsublist := allNested_sublist items
  obtain ⟨look, hlook, rfl⟩ := List.mem_map.mp h.look
  rw [allEnumLooks_eq_flatMap] at hlook
  obtain ⟨nest, hnest, hlook⟩ := List.mem_flatMap.mp hlook
  obtain ⟨around, hisNest⟩ := isNest_of_mem_all items nest hnest
  have haround : around ∈ (allLandmarks items).chains :=
    hsublist.subset (List.mem_filterMap.mpr ⟨nest, hnest, hisNest.nested?⟩)
  obtain rfl := hplaced.eq_of_begins haround hwhole
    (hisNest.begins (Tree.mem_references_of_look nest look hlook)) hbegins
  refine ⟨nest, hnest, hisNest, List.mem_map_of_mem hlook, fun other hother hsame => ?_⟩
  have hpairwise := List.pairwise_filterMap.mp (hplaced.nodup_chains.sublist hsublist)
  have : Std.Symm fun a b : Tree => ∀ c, a.nested? = some c → ∀ d, b.nested? = some d → c ≠ d :=
    ⟨fun _ _ hab c hc d hd => (hab d hd c hc).symm⟩
  by_contra hne
  exact hpairwise.forall hother hnest hne _ hsame _ hisNest.nested? rfl

end EnumReached

namespace Draft

variable {lessons : Lessons} {body : Text} {lo hi : Nat} {rules : List Rule}

theorem replaceEnum_of_free {draft : Draft} {span : Span} {newText : Text} {origin : Origin}
    {target : NamePath} (hhas : draft.bindings.Has origin) (hdiffers : body.slice span ≠ newText)
    (hfree : ∀ held ∈ draft.edits.held, held.overlaps ⟨span, newText⟩ = false) :
    let result := draft.replaceEnum body span newText origin target
    (result.1.bindings.Recorded origin ∧ ⟨span, newText⟩ ∈ result.1.edits.held) ∧
      result.2 = true := by
  unfold replaceEnum
  rw [if_neg hdiffers, tryEdit_of_free hfree]
  exact ⟨⟨Bindings.recorded_recordMatch hhas _, List.mem_append_right _ List.mem_cons_self⟩, rfl⟩

/-- In a nest the stage replaces parts of the reference that the nest is. -/
theorem continues_nest {bindings : Bindings} {draft : Draft} {marks : Landmarks}
    {inside : Chain → Prop} (hplaced : marks.Placed body lo hi)
    (hallows : AllowsEnums lessons rules) (hlearns : bindings.Learns lessons draft.bindings)
    {nest : Tree} {whole : Chain}
    (hnest : nest.IsNest whole) (hwhole : whole ∈ marks.chains) (hinside : inside whole) :
    draft.Continues (marks.Within inside) lessons
      (nest.rewriteEnums (enumRules body bindings rules) draft) := by
  refine Tree.continues_rewriteEnums hallows nest draft
    (fun chain hchain _ edit hpart => ?_) hlearns
  have hbegins := hnest.begins hchain
  have hwholePlaced := hplaced.chains whole hwhole
  obtain ⟨hstart, hstop⟩ := hpart.inside (hbegins.placed hwholePlaced)
  refine .name hwhole hinside ?_ ?_
  · rw [← hbegins.start_eq]
    exact hstart
  · exact Nat.le_trans hstop (hbegins.stop_le hwholePlaced)

variable {program : Program} {draft : Draft} {site whole : Chain} {replacement : Replacement}

/-- A step of the stage inside other references than the one it comes to. -/
theorem continues_nests (hplaced : (allLandmarks program.items).Placed body lo hi)
    (hallows : AllowsEnums lessons rules) (inside : Chain → Prop) (later : Draft)
    (hlearns : draft.bindings.Learns lessons later.bindings) (nest : Tree)
    (hnest : nest ∈ allEnumNests program.items)
    (hinside : ∀ found, nest.nested? = some found → inside found) :
    later.Continues ((allLandmarks program.items).Within inside) lessons
      (nest.rewriteEnums (enumRules body draft.bindings rules) later) := by
  obtain ⟨found, hfound⟩ := isNest_of_mem_all program.items nest hnest
  have hmem := List.mem_filterMap.mpr ⟨nest, hnest, hfound.nested?⟩
  exact continues_nest hplaced hallows hlearns hfound
    ((allNested_sublist program.items).subset hmem) (hinside found hfound.nested?)

/-- A chain that the stage reaches is replaced, unless it reads like the replacement or an edit
has touched the reference around it before. -/
theorem rewriteEnums_replaces (hplaced : (allLandmarks program.items).Placed body lo hi)
    (hallows : AllowsEnums lessons rules)
    (hreached : EnumReached draft.bindings rules program.items site replacement)
    (hchanges : replacement.isIdentity = false)
    (hdiffers : ∀ same : Chain, same.identifiers = site.identifiers →
      body.slice site.span ≠ same.render replacement.target)
    (hwhole : whole ∈ (allLandmarks program.items).chains) (hbegins : site.Begins whole)
    (hfree : ∀ held ∈ draft.edits.held, (allLandmarks program.items).Within (· ≠ whole) held) :
    let after := draft.rewriteEnums body program rules
    after.bindings.Recorded replacement.origin ∧
      ∃ same : Chain, ⟨site.span, same.render replacement.target⟩ ∈ after.edits.held := by
  obtain ⟨nest, hnest, hisNest, hsite, -⟩ := hreached.nest_around hplaced hwhole hbegins
  unfold rewriteEnums
  rw [not_isEmpty_of_find? hreached.found]
  simp only [Bool.false_eq_true, if_false, rewriteAllEnums_eq_foldl]
  let done (after : Draft) : Prop := after.bindings.Recorded replacement.origin ∧
    ∃ same : Chain, ⟨site.span, same.render replacement.target⟩ ∈ after.edits.held
  refine foldl_reaches lessons (allLandmarks program.items) done
    (hplaced.nodup_chains.sublist (allNested_sublist program.items)) hnest hisNest.nested?
    (continues_nests hplaced hallows) ?_ ?_ hfree
  · intro later hlearns hlater
    have hhas := hlearns.has (has_origin (Lookups.mem_of_find?_build hreached.found))
    refine hisNest.settles done (fun same hsame => ?_)
      (hreached.passes hlearns (looks_subset hnest)) hsite
    rw [hreached.rewriteExactEnum_eq hlearns hsame, hchanges]
    obtain ⟨⟨hrecorded, hheld⟩, hsettled⟩ := replaceEnum_of_free hhas (hdiffers same hsame)
      fun held hmem => hplaced.not_overlaps_beginning hwhole hbegins (hlater held hmem) _
    exact ⟨⟨hrecorded, same, hheld⟩, hsettled⟩
  · rintro before after hcontinues ⟨hrecorded, same, hheld⟩
    exact ⟨hcontinues.bindings.recorded hrecorded, same, hcontinues.kept _ hheld⟩

/-- The stage leaves a chain that it reaches and whose replacement changes nothing alone,
together with the reference around it. -/
theorem continues_rewriteEnums_identity (hplaced : (allLandmarks program.items).Placed body lo hi)
    (hallows : AllowsEnums lessons rules)
    (hreached : EnumReached draft.bindings rules program.items site replacement)
    (hidentity : replacement.isIdentity = true)
    (hwhole : whole ∈ (allLandmarks program.items).chains) (hbegins : site.Begins whole) :
    draft.Continues ((allLandmarks program.items).Within (· ≠ whole)) lessons
      (draft.rewriteEnums body program rules) := by
  obtain ⟨around, _, hisNest, hsite, honly⟩ := hreached.nest_around hplaced hwhole hbegins
  unfold rewriteEnums
  rw [not_isEmpty_of_find? hreached.found]
  simp only [Bool.false_eq_true, if_false, rewriteAllEnums_eq_foldl]
  refine (continues_addNotes _).trans (continues_foldl _ fun later hlater nest hnest => ?_)
  by_cases hsame : nest.nested? = some whole
  · obtain rfl := honly nest hnest hsame
    have hleft : nest.rewriteEnums (enumRules body draft.bindings rules) later = later := by
      refine hisNest.settles (· = later) (fun same hidentifiers => ?_)
        (hreached.passes hlater.bindings (looks_subset hnest)) hsite
      rw [hreached.rewriteExactEnum_eq hlater.bindings hidentifiers, hidentity]
      exact ⟨rfl, rfl⟩
    rw [hleft]
    exact .refl later
  · exact continues_nests hplaced hallows _ later hlater.bindings nest hnest
      fun found hfound h => hsame (h ▸ hfound)

end Draft

end SdkMigration
