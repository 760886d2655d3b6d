import SdkMigration.Import.Sites
import SdkMigration.Migration.Types
import SdkMigration.Proofs.Landmarks
import Mathlib.Tactic.Common

/-!
# Sites of a program

The stages of a migration go through a program in ways of their own: the calls
and identifiers in the order of a walk, the names of types in an order of
theirs.  Whatever they come across is a landmark of the program.  A chain is
called or names a type at one place only, so chains that are dealt with one
after the other stand apart.
-/

namespace SdkMigration

/-! ## Called chains -/

mutual

/-- The chains that are called in a tree. -/
def Tree.callChains : Tree → List Chain
  | .leaf _ _ => []
  | .text _ _ => []
  | .identifier _ _ => []
  | .binding _ type => allCallChains type
  | .member _ object _ _ => object.callChains
  | .call _ callee arguments typeArguments =>
    callee.chain?.toList ++ callee.callChains ++ allCallChains arguments ++
      allCallChains typeArguments
  | .qualified _ left _ => left.callChains
  | .typeReference _ name arguments => name.callChains ++ allCallChains arguments
  | .heritage _ value arguments => value.callChains ++ allCallChains arguments
  | .declaration _ _ parts => allCallChains parts
  | .importDeclaration _ => []
  | .importEquals _ _ => []
  | .anchored _ _ inner => inner.callChains
  | .branch _ _ children => allCallChains children

/-- The chains that are called in trees. -/
def allCallChains : List Tree → List Chain
  | [] => []
  | tree :: rest => tree.callChains ++ allCallChains rest

end

/-- A chain has no sites inside. -/
theorem Tree.sites_of_chain {tree : Tree} {chain : Chain} (h : tree.chain? = some chain) :
    tree.callChains = [] ∧ tree.typeChains = [] := by
  fun_induction Tree.chain? tree generalizing chain with
  | case1 => exact ⟨rfl, rfl⟩
  | case2 span object optional property inner hinner ih => exact ih hinner
  | case3 => cases h
  | case4 span left right inner hinner ih => exact ih hinner
  | case5 => cases h
  | case6 kind start inner ih => exact ih h
  | case7 => cases h

/-- The chain that a tree is can be counted with the sites inside it. -/
private theorem Tree.count_chain {tree : Tree} {x : Chain}
    (h : tree.callChains.count x + tree.typeChains.count x ≤ tree.landmarks.chains.count x) :
    tree.chain?.toList.count x + tree.callChains.count x + tree.typeChains.count x ≤
      tree.landmarks.chains.count x := by
  cases hchain : tree.chain? with
  | none => simpa using h
  | some chain =>
    obtain ⟨hcalls, htypes⟩ := Tree.sites_of_chain hchain
    obtain ⟨hchains, _⟩ := Tree.landmarks_of_chain hchain
    rw [hcalls, htypes, hchains]
    simp

mutual

/-- The sites of a tree are landmarks, and no landmark is the place of two
sites. -/
theorem Tree.count_sites (x : Chain) : ∀ tree : Tree,
    tree.callChains.count x + tree.typeChains.count x ≤ tree.landmarks.chains.count x
  | .leaf _ _ => Nat.zero_le _
  | .text _ _ => Nat.zero_le _
  | .identifier _ _ => Nat.zero_le _
  | .binding _ type => by
    have htype := count_allSites x type
    simp only [Tree.callChains, Tree.typeChains, Tree.landmarks, Landmarks.join, List.count_append]
    omega
  | .member _ object _ _ => by
    have hobject := Tree.count_sites x object
    simp only [Tree.callChains, Tree.typeChains, Tree.landmarks]
    split
    · rename_i hchain
      obtain ⟨hcalls, htypes⟩ := Tree.sites_of_chain hchain
      rw [hcalls, htypes]
      exact Nat.zero_le _
    · exact hobject
  | .call _ callee arguments typeArguments => by
    have hcallee := Tree.count_sites x callee
    have hchain := Tree.count_chain hcallee
    have harguments := count_allSites x arguments
    have htypes := count_allSites x typeArguments
    simp only [Tree.callChains, Tree.typeChains, Tree.landmarks, Landmarks.join, List.count_append,
      List.count_nil]
    omega
  | .qualified _ left _ => by
    have hleft := Tree.count_sites x left
    simp only [Tree.callChains, Tree.typeChains, Tree.landmarks]
    split
    · rename_i hchain
      obtain ⟨hcalls, htypes⟩ := Tree.sites_of_chain hchain
      rw [hcalls, htypes]
      exact Nat.zero_le _
    · exact hleft
  | .typeReference _ name arguments => by
    have hname := Tree.count_sites x name
    have hchain := Tree.count_chain hname
    have harguments := count_allSites x arguments
    simp only [Tree.callChains, Tree.typeChains, Tree.landmarks, Landmarks.join, List.count_append]
    omega
  | .heritage _ value arguments => by
    have hvalue := Tree.count_sites x value
    have hchain := Tree.count_chain hvalue
    have harguments := count_allSites x arguments
    simp only [Tree.callChains, Tree.typeChains, Tree.landmarks, Landmarks.join, List.count_append]
    omega
  | .declaration _ _ parts => by
    have hparts := count_allSites x parts
    simp only [Tree.callChains, Tree.typeChains, Tree.landmarks, Landmarks.join, List.count_append]
    omega
  | .importDeclaration _ => Nat.zero_le _
  | .importEquals _ _ => Nat.zero_le _
  | .anchored _ _ inner => by
    have hinner := Tree.count_sites x inner
    simp only [Tree.callChains, Tree.typeChains, Tree.landmarks, Landmarks.join, List.count_append]
    omega
  | .branch _ _ children => count_allSites x children

theorem count_allSites (x : Chain) : ∀ trees : List Tree,
    (allCallChains trees).count x + (allTypeChains trees).count x ≤
      (allLandmarks trees).chains.count x
  | [] => Nat.zero_le _
  | tree :: rest => by
    have htree := Tree.count_sites x tree
    have hrest := count_allSites x rest
    simp only [allCallChains, allTypeChains, allLandmarks, Landmarks.join, List.count_append]
    omega

end

/-- The sites of a program are among its landmarks. -/
theorem sites_subperm (trees : List Tree) :
    (allCallChains trees ++ allTypeChains trees).Subperm (allLandmarks trees).chains := by
  rw [List.subperm_ext_iff]
  intro x _
  rw [List.count_append]
  exact count_allSites x trees

/-! ## References -/

mutual

/-- The chains in a tree that are called, that name a type, or that something is
taken from, and the accesses that take it. -/
def Tree.references : Tree → List Chain
  | .leaf _ _ => []
  | .text _ _ => []
  | .identifier _ _ => []
  | .binding _ type => allReferences type
  | .member _ object optional property =>
    match object.chain? with
    | some chain =>
      chain.extend ⟨property.name, property.span, optional⟩ :: chain :: object.references
    | none => object.references
  | .call _ callee arguments typeArguments =>
    callee.chain?.toList ++ callee.references ++ allReferences arguments ++
      allReferences typeArguments
  | .qualified _ left _ => left.chain?.toList ++ left.references
  | .typeReference _ name arguments =>
    name.chain?.toList ++ name.references ++ allReferences arguments
  | .heritage _ value arguments =>
    value.chain?.toList ++ value.references ++ allReferences arguments
  | .declaration _ _ parts => allReferences parts
  | .importDeclaration _ => []
  | .importEquals _ module => module.references
  | .anchored _ _ inner => inner.references
  | .branch _ _ children => allReferences children

/-- The chains in trees that are used so. -/
def allReferences : List Tree → List Chain
  | [] => []
  | tree :: rest => tree.references ++ allReferences rest

end

mutual

/-- The sites of a tree are references. -/
theorem Tree.sites_subset : ∀ tree : Tree,
    tree.callChains ⊆ tree.references ∧ tree.typeChains ⊆ tree.references
  | .leaf _ _ => ⟨List.Subset.refl _, List.Subset.refl _⟩
  | .text _ _ => ⟨List.Subset.refl _, List.Subset.refl _⟩
  | .identifier _ _ => ⟨List.Subset.refl _, List.Subset.refl _⟩
  | .binding _ type => allSites_subset type
  | .member _ object _ _ => by
    obtain ⟨hcalls, htypes⟩ := Tree.sites_subset object
    simp only [Tree.callChains, Tree.typeChains, Tree.references]
    split
    · exact ⟨fun c hc => List.mem_cons_of_mem _ (List.mem_cons_of_mem _ (hcalls hc)),
        fun c hc => List.mem_cons_of_mem _ (List.mem_cons_of_mem _ (htypes hc))⟩
    · exact ⟨hcalls, htypes⟩
  | .call _ callee arguments typeArguments => by
    obtain ⟨hcallsCallee, htypesCallee⟩ := Tree.sites_subset callee
    obtain ⟨hcallsArguments, htypesArguments⟩ := allSites_subset arguments
    obtain ⟨hcallsTypes, htypesTypes⟩ := allSites_subset typeArguments
    simp only [Tree.callChains, Tree.typeChains, Tree.references]
    exact ⟨by grind, by grind⟩
  | .qualified _ left _ => by
    obtain ⟨hcalls, htypes⟩ := Tree.sites_subset left
    exact ⟨fun c hc => List.mem_append_right _ (hcalls hc),
      fun c hc => List.mem_append_right _ (htypes hc)⟩
  | .typeReference _ name arguments => by
    obtain ⟨hcallsName, -⟩ := Tree.sites_subset name
    obtain ⟨hcallsArguments, htypesArguments⟩ := allSites_subset arguments
    simp only [Tree.callChains, Tree.typeChains, Tree.references]
    exact ⟨by grind, by grind⟩
  | .heritage _ value arguments => by
    obtain ⟨hcallsValue, htypesValue⟩ := Tree.sites_subset value
    obtain ⟨hcallsArguments, htypesArguments⟩ := allSites_subset arguments
    simp only [Tree.callChains, Tree.typeChains, Tree.references]
    exact ⟨by grind, by grind⟩
  | .declaration _ _ parts => allSites_subset parts
  | .importDeclaration _ => ⟨List.Subset.refl _, List.Subset.refl _⟩
  | .importEquals _ _ => ⟨List.nil_subset _, List.nil_subset _⟩
  | .anchored _ _ inner => Tree.sites_subset inner
  | .branch _ _ children => allSites_subset children

theorem allSites_subset : ∀ trees : List Tree,
    allCallChains trees ⊆ allReferences trees ∧ allTypeChains trees ⊆ allReferences trees
  | [] => ⟨List.Subset.refl _, List.Subset.refl _⟩
  | tree :: rest => by
    obtain ⟨hcalls, htypes⟩ := Tree.sites_subset tree
    obtain ⟨hcallsRest, htypesRest⟩ := allSites_subset rest
    simp only [allCallChains, allTypeChains, allReferences]
    exact ⟨by grind, by grind⟩

end

/-- Whether a chain is the beginning of a chain among landmarks. -/
def Landmarks.Begun (marks : Landmarks) (chain : Chain) : Prop :=
  ∃ whole ∈ marks.chains, chain.Begins whole

namespace Landmarks.Begun

variable {a b : Landmarks} {chain : Chain}

theorem left (h : a.Begun chain) : (a.join b).Begun chain := by
  obtain ⟨whole, hwhole, hbegins⟩ := h
  exact ⟨whole, List.mem_append_left _ hwhole, hbegins⟩

theorem right (h : b.Begun chain) : (a.join b).Begun chain := by
  obtain ⟨whole, hwhole, hbegins⟩ := h
  exact ⟨whole, List.mem_append_right _ hwhole, hbegins⟩

/-- A longer chain may take the place of the only one. -/
theorem replace {only longer : Chain} (h : a.Begun chain) (honly : a.chains = [only])
    (hlonger : only.Begins longer) : { a with chains := [longer] }.Begun chain := by
  obtain ⟨whole, hwhole, hbegins⟩ := h
  rw [honly] at hwhole
  rw [List.mem_singleton.mp hwhole] at hbegins
  exact ⟨longer, List.mem_singleton_self _, hbegins.trans hlonger⟩

end Landmarks.Begun

theorem Tree.begun_of_chain {tree : Tree} {chain : Chain} (h : tree.chain? = some chain) :
    tree.landmarks.Begun chain :=
  ⟨chain, by rw [(Tree.landmarks_of_chain h).1]; exact List.mem_singleton_self _, .refl chain⟩

mutual

/-- Every reference in a tree begins a landmark of the tree. -/
theorem Tree.references_begun : ∀ (tree : Tree), ∀ chain ∈ tree.references,
    tree.landmarks.Begun chain
  | .leaf _ _ => by simp [Tree.references]
  | .text _ _ => by simp [Tree.references]
  | .identifier _ _ => by simp [Tree.references]
  | .binding _ type => fun chain hchain => (allReferences_begun type chain hchain).right
  | .member _ object optional property => fun chain hchain => by
    have hobject := Tree.references_begun object
    simp only [Tree.references, Tree.landmarks] at hchain ⊢
    cases hfound : object.chain? with
    | none =>
      rw [hfound] at hchain
      exact hobject chain hchain
    | some found =>
      rw [hfound] at hchain
      have honly := (Tree.landmarks_of_chain hfound).1
      have hlonger := found.begins_extend ⟨property.name, property.span, optional⟩
      simp only [List.mem_cons] at hchain
      rcases hchain with rfl | rfl | hchain
      · exact ⟨_, List.mem_singleton_self _, .refl _⟩
      · exact (Tree.begun_of_chain hfound).replace honly hlonger
      · exact (hobject chain hchain).replace honly hlonger
  | .call _ callee arguments typeArguments => fun chain hchain => by
    simp only [Tree.references, List.mem_append, Option.mem_toList] at hchain
    rcases hchain with ((hchain | hchain) | hchain) | hchain
    · exact (Tree.begun_of_chain hchain).left.right
    · exact (Tree.references_begun callee chain hchain).left.right
    · exact (allReferences_begun arguments chain hchain).left.right.right
    · exact (allReferences_begun typeArguments chain hchain).right.right.right
  | .qualified _ left right => fun chain hchain => by
    have hleft := Tree.references_begun left
    simp only [Tree.references, Tree.landmarks, List.mem_append, Option.mem_toList] at hchain ⊢
    cases hfound : left.chain? with
    | none =>
      rw [hfound] at hchain
      exact hleft chain (hchain.resolve_left (by simp))
    | some found =>
      rw [hfound] at hchain
      have honly := (Tree.landmarks_of_chain hfound).1
      have hlonger := found.begins_extend ⟨right.name, right.span, false⟩
      rcases hchain with hchain | hchain
      · obtain rfl := Option.some.inj hchain
        exact (Tree.begun_of_chain hfound).replace honly hlonger
      · exact (hleft chain hchain).replace honly hlonger
  | .typeReference _ name arguments => fun chain hchain => by
    simp only [Tree.references, List.mem_append, Option.mem_toList] at hchain
    rcases hchain with (hchain | hchain) | hchain
    · exact (Tree.begun_of_chain hchain).left
    · exact (Tree.references_begun name chain hchain).left
    · exact (allReferences_begun arguments chain hchain).right
  | .heritage _ value arguments => fun chain hchain => by
    simp only [Tree.references, List.mem_append, Option.mem_toList] at hchain
    rcases hchain with (hchain | hchain) | hchain
    · exact (Tree.begun_of_chain hchain).left
    · exact (Tree.references_begun value chain hchain).left
    · exact (allReferences_begun arguments chain hchain).right
  | .declaration _ _ parts => fun chain hchain => (allReferences_begun parts chain hchain).right
  | .importDeclaration _ => by simp [Tree.references]
  | .importEquals header module => fun chain hchain => by
    have hmodule := Tree.references_begun module chain hchain
    cases module with
    | text value span => cases hchain
    | _ => exact hmodule
  | .anchored _ _ inner => fun chain hchain => (Tree.references_begun inner chain hchain).right
  | .branch _ _ children => allReferences_begun children

theorem allReferences_begun : ∀ (trees : List Tree), ∀ chain ∈ allReferences trees,
    (allLandmarks trees).Begun chain
  | [] => by simp [allReferences]
  | tree :: rest => fun chain hchain =>
    (List.mem_append.mp hchain).elim (fun h => (Tree.references_begun tree chain h).left)
      fun h => (allReferences_begun rest chain h).right

end

/-! ## Stops of a walk -/

namespace Visit

/-- The chain that is called at a stop. -/
def chain? : Visit → Option Chain
  | .call site _ => site.callee.chain?
  | .identifier _ _ => none

/-- The starts of the nodes around a stop. -/
def outer : Visit → List Nat
  | .call _ around => around
  | .identifier _ around => around

/-- Where a stop starts. -/
def start : Visit → Nat
  | .call site _ => site.start
  | .identifier id _ => id.span.start

/-- Whether a stop is at a name, or at a call of one. -/
def IsNamed : Visit → Prop
  | .call site _ => site.callee.chain?.isSome
  | .identifier _ _ => True

end Visit

mutual

/-- A walk that consumes nothing but chains stops at every called chain. -/
theorem Tree.visits_chains {consumes : CallSite → Bool}
    (hconsumes : ∀ site, consumes site = true → site.callee.chain?.isSome = true) :
    ∀ (tree : Tree) (around : List Nat),
      (tree.visits consumes around).filterMap Visit.chain? = tree.callChains
  | .leaf _ _, _ => rfl
  | .text _ _, _ => rfl
  | .identifier _ _, _ => rfl
  | .binding _ type, around => visitsAll_chains hconsumes type around
  | .member _ object _ _, around => Tree.visits_chains hconsumes object around
  | .call span callee arguments typeArguments, around => by
    have hcallee := Tree.visits_chains hconsumes callee around
    have harguments := visitsAll_chains hconsumes arguments around
    have htypes := visitsAll_chains hconsumes typeArguments around
    have hskipped : (if consumes ⟨callee, arguments, span.start⟩ = true then []
        else callee.visits consumes around).filterMap Visit.chain? = callee.callChains := by
      split
      · rename_i hconsumed
        obtain ⟨chain, hchain⟩ := Option.isSome_iff_exists.mp (hconsumes _ hconsumed)
        rw [(Tree.sites_of_chain hchain).1]
        rfl
      · exact hcallee
    simp only [Tree.visits, Tree.callChains, List.filterMap_cons, List.filterMap_append, hskipped,
      harguments, htypes, Visit.chain?]
    cases callee.chain? <;> simp
  | .qualified _ left _, around => Tree.visits_chains hconsumes left around
  | .typeReference _ name arguments, around => by
    simp only [Tree.visits, Tree.callChains, List.filterMap_append,
      Tree.visits_chains hconsumes name around, visitsAll_chains hconsumes arguments around]
  | .heritage _ value arguments, around => by
    simp only [Tree.visits, Tree.callChains, List.filterMap_append,
      Tree.visits_chains hconsumes value around, visitsAll_chains hconsumes arguments around]
  | .declaration _ _ parts, around => visitsAll_chains hconsumes parts around
  | .importDeclaration _, _ => rfl
  | .importEquals _ _, _ => rfl
  | .anchored _ start inner, around => Tree.visits_chains hconsumes inner (start :: around)
  | .branch _ _ children, around => visitsAll_chains hconsumes children around

theorem visitsAll_chains {consumes : CallSite → Bool}
    (hconsumes : ∀ site, consumes site = true → site.callee.chain?.isSome = true) :
    ∀ (trees : List Tree) (around : List Nat),
      (visitsAll consumes around trees).filterMap Visit.chain? = allCallChains trees
  | [], _ => rfl
  | tree :: rest, around => by
    simp only [visitsAll, allCallChains, List.filterMap_append,
      Tree.visits_chains hconsumes tree around, visitsAll_chains hconsumes rest around]

end

/-- Whether a stop is at landmarks: it starts at a point or with a chain, and the
nodes around it start at points.  One at a name, or at a call of one, starts with
the chain of the name or with a call of that. -/
structure Visit.Marked (marks : Landmarks) (around : List Nat) (visit : Visit) : Prop where
  start : visit.start ∈ marks.points ∨ ∃ chain ∈ marks.chains, chain.span.start = visit.start
  outer : ∀ point ∈ visit.outer, point ∈ around ∨ point ∈ marks.points
  named : visit.IsNamed → ∃ chain ∈ marks.chains, chain.span.start = visit.start ∨
    ∃ call ∈ marks.called, call.1 = visit.start ∧ call.2.span.start = chain.span.start

namespace Visit.Marked

variable {a b : Landmarks} {around : List Nat} {visit : Visit}

theorem left (h : visit.Marked a around) : visit.Marked (a.join b) around :=
  ⟨h.start.imp (List.mem_append_left _) fun ⟨c, hc, hstart⟩ =>
      ⟨c, List.mem_append_left _ hc, hstart⟩,
    fun p hp => (h.outer p hp).imp_right (List.mem_append_left _),
    fun hnamed => (h.named hnamed).imp fun _ ⟨hc, hstart⟩ =>
      ⟨List.mem_append_left _ hc, hstart.imp_right fun ⟨pair, hcall, hsame⟩ =>
        ⟨pair, List.mem_append_left _ hcall, hsame⟩⟩⟩

theorem right (h : visit.Marked b around) : visit.Marked (a.join b) around :=
  ⟨h.start.imp (List.mem_append_right _) fun ⟨c, hc, hstart⟩ =>
      ⟨c, List.mem_append_right _ hc, hstart⟩,
    fun p hp => (h.outer p hp).imp_right (List.mem_append_right _),
    fun hnamed => (h.named hnamed).imp fun _ ⟨hc, hstart⟩ =>
      ⟨List.mem_append_right _ hc, hstart.imp_right fun ⟨pair, hcall, hsame⟩ =>
        ⟨pair, List.mem_append_right _ hcall, hsame⟩⟩⟩

/-- Another chain may take the place of one that starts at the same position. -/
theorem replace {chain longer : Chain} (h : visit.Marked a around) (hchains : a.chains = [chain])
    (hstart : chain.span.start = longer.span.start) :
    visit.Marked { a with chains := [longer] } around := by
  refine ⟨h.start.imp_right ?_, h.outer, fun hnamed => ?_⟩
  · rintro ⟨c, hc, hc'⟩
    rw [hchains] at hc
    rw [List.mem_singleton.mp hc, hstart] at hc'
    exact ⟨longer, List.mem_singleton_self _, hc'⟩
  · obtain ⟨c, hc, hnear⟩ := h.named hnamed
    rw [hchains] at hc
    rw [List.mem_singleton.mp hc, hstart] at hnear
    exact ⟨longer, List.mem_singleton_self _, hnear⟩

/-- A stop at a name does not start behind the chain of the name. -/
theorem start_le {text : Text} {lo hi : Nat} (h : visit.Marked a around)
    (hplaced : a.Placed text lo hi) (hnamed : visit.IsNamed) :
    ∃ chain ∈ a.chains, visit.start ≤ chain.span.start := by
  obtain ⟨chain, hchain, hstart | ⟨call, hcall, hstart, hsame⟩⟩ := h.named hnamed
  · exact ⟨chain, hchain, Nat.le_of_eq hstart.symm⟩
  · refine ⟨chain, hchain, ?_⟩
    rw [← hstart, ← hsame]
    exact hplaced.called call hcall

end Visit.Marked

private theorem marked_name (id : Identifier) (around : List Nat) :
    (Visit.identifier id around).Marked (.name id) around :=
  ⟨Or.inr ⟨_, List.mem_singleton_self _, rfl⟩, fun _ hp => Or.inl hp,
    fun _ => ⟨_, List.mem_singleton_self _, Or.inl rfl⟩⟩

/-- A call of a chain is at the landmarks of the chain. -/
private theorem marked_call (callee : Tree) (arguments types : List Tree) (span : Span)
    (around : List Nat) :
    (Visit.call ⟨callee, arguments, span.start⟩ around).Marked
      (Tree.call span callee arguments types).landmarks around := by
  refine ⟨Or.inl List.mem_cons_self, fun _ hp => Or.inl hp, fun hnamed => ?_⟩
  obtain ⟨chain, hchain⟩ := Option.isSome_iff_exists.mp hnamed
  have hmem : chain ∈ callee.landmarks.chains := by
    rw [(Tree.landmarks_of_chain hchain).1]
    exact List.mem_singleton_self _
  refine ⟨chain, ?_, Or.inr ⟨(span.start, chain), ?_, rfl, rfl⟩⟩
  · simp [Tree.landmarks, Landmarks.join, hmem]
  · simp [Tree.landmarks, Landmarks.join, Landmarks.ofCall, hchain]

mutual

/-- Every stop of a walk is at landmarks. -/
theorem Tree.visits_marked (consumes : CallSite → Bool) : ∀ (tree : Tree) (around : List Nat),
    ∀ visit ∈ tree.visits consumes around, visit.Marked tree.landmarks around
  | .leaf _ _, _ => by simp [Tree.visits]
  | .text _ _, _ => by simp [Tree.visits]
  | .identifier _ id, around => by
    intro visit hvisit
    rw [List.mem_singleton.mp hvisit]
    exact marked_name id around
  | .binding _ type, around => fun visit hvisit =>
    (visitsAll_marked consumes type around visit hvisit).right
  | .member _ object _ _, around => by
    intro visit hvisit
    have hmarked := Tree.visits_marked consumes object around visit hvisit
    simp only [Tree.landmarks]
    split
    · rename_i chain hchain
      exact hmarked.replace (Tree.landmarks_of_chain hchain).1
        (Chain.begins_extend chain _).start_eq
    · exact hmarked
  | .call span callee arguments typeArguments, around => by
    intro visit hvisit
    simp only [Tree.visits, List.mem_cons, List.mem_append] at hvisit
    rcases hvisit with rfl | (hvisit | hvisit) | hvisit
    · exact marked_call callee arguments typeArguments span around
    · split at hvisit
      · simp at hvisit
      · exact (Tree.visits_marked consumes callee around visit hvisit).left.right.right
    · exact (visitsAll_marked consumes arguments around visit hvisit).left.right.right.right
    · exact (visitsAll_marked consumes typeArguments around visit hvisit).right.right.right.right
  | .qualified _ left _, around => by
    intro visit hvisit
    have hmarked := Tree.visits_marked consumes left around visit hvisit
    simp only [Tree.landmarks]
    split
    · rename_i chain hchain
      exact hmarked.replace (Tree.landmarks_of_chain hchain).1
        (Chain.begins_extend chain _).start_eq
    · exact hmarked
  | .typeReference _ name arguments, around => by
    intro visit hvisit
    rcases List.mem_append.mp hvisit with hvisit | hvisit
    · exact (Tree.visits_marked consumes name around visit hvisit).left
    · exact (visitsAll_marked consumes arguments around visit hvisit).right
  | .heritage _ value arguments, around => by
    intro visit hvisit
    rcases List.mem_append.mp hvisit with hvisit | hvisit
    · exact (Tree.visits_marked consumes value around visit hvisit).left
    · exact (visitsAll_marked consumes arguments around visit hvisit).right
  | .declaration _ id parts, around => by
    intro visit hvisit
    rcases List.mem_cons.mp hvisit with rfl | hvisit
    · exact (marked_name id around).left
    · exact (visitsAll_marked consumes parts around visit hvisit).right
  | .importDeclaration _, _ => by simp [Tree.visits]
  | .importEquals _ _, _ => by simp [Tree.visits]
  | .anchored _ start inner, around => by
    intro visit hvisit
    have hmarked := Tree.visits_marked consumes inner (start :: around) visit hvisit
    have hright := hmarked.right (a := { points := [start] })
    refine ⟨hright.start, fun p hp => ?_, hright.named⟩
    rcases hright.outer p hp with hp | hp
    · rcases List.mem_cons.mp hp with rfl | hp
      · exact Or.inr List.mem_cons_self
      · exact Or.inl hp
    · exact Or.inr hp
  | .branch _ _ children, around => visitsAll_marked consumes children around

theorem visitsAll_marked (consumes : CallSite → Bool) : ∀ (trees : List Tree) (around : List Nat),
    ∀ visit ∈ visitsAll consumes around trees, visit.Marked (allLandmarks trees) around
  | [], _ => by simp [visitsAll]
  | tree :: rest, around => by
    intro visit hvisit
    rcases List.mem_append.mp hvisit with hvisit | hvisit
    · exact (Tree.visits_marked consumes tree around visit hvisit).left
    · exact (visitsAll_marked consumes rest around visit hvisit).right

end

/-- A stop at the landmarks of one of several trees is at those of all of them. -/
theorem Visit.Marked.of_mem {trees : List Tree} {tree : Tree} {around : List Nat} {visit : Visit}
    (h : visit.Marked tree.landmarks around) (hmem : tree ∈ trees) :
    visit.Marked (allLandmarks trees) around := by
  induction trees with
  | nil => cases hmem
  | cons first rest ih =>
    rcases List.mem_cons.mp hmem with rfl | hmem
    · exact h.left
    · exact (ih hmem).right

theorem exists_tree_of_visit {consumes : CallSite → Bool} {around : List Nat}
    {trees : List Tree} {visit : Visit} (h : visit ∈ visitsAll consumes around trees) :
    ∃ tree ∈ trees, visit ∈ tree.visits consumes around := by
  induction trees with
  | nil => cases h
  | cons first rest ih =>
    rcases List.mem_append.mp h with h | h
    · exact ⟨first, List.mem_cons_self, h⟩
    · obtain ⟨tree, htree, hvisit⟩ := ih h
      exact ⟨tree, List.mem_cons_of_mem _ htree, hvisit⟩

/-- Whether a stop is at a name in an item of a program, or at a call of one. -/
structure Program.NamedStop (program : Program) (visit : Visit) : Prop where
  named : visit.IsNamed
  item : ∃ item ∈ program.items, visit.Marked item.landmarks []

namespace Program

variable {program : Program} {visit : Visit}

theorem NamedStop.marked (h : program.NamedStop visit) :
    visit.Marked (allLandmarks program.items) [] := by
  obtain ⟨item, hitem, hmarked⟩ := h.item
  exact hmarked.of_mem hitem

theorem namedStop_of_visit {consumes : CallSite → Bool} (h : visit ∈ program.visits consumes)
    (hnamed : visit.IsNamed) : program.NamedStop visit := by
  obtain ⟨item, hitem, hvisit⟩ := exists_tree_of_visit h
  exact ⟨hnamed, item, hitem, Tree.visits_marked consumes item [] visit hvisit⟩

end Program

end SdkMigration
