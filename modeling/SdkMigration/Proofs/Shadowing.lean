import SdkMigration.Proofs.TouchedText

/-!
# Parameters that have the name of an import

References are found by their names alone.  Where a parameter has the name of
what is imported, its own place is left as it is, like that of every variable.
Nothing more is made of it: in the body of the function a reference that starts
with the name is dealt with as anywhere else, although it does not denote the
same there.

That no scope is looked at is said by renaming.  Variables and parameters may
be given other names where they are bound, and every stage goes on as before.
-/

namespace SdkMigration

/-! ## Names that are bound -/

mutual

/-- The identifiers that are bound as variables or parameters in a tree. -/
def Tree.boundNames : Tree → List Identifier
  | .leaf _ _ => []
  | .text _ _ => []
  | .identifier _ _ => []
  | .binding id type => id :: allBoundNames type
  | .member _ object _ _ => object.boundNames
  | .call _ callee arguments typeArguments =>
    callee.boundNames ++ (allBoundNames arguments ++ allBoundNames typeArguments)
  | .qualified _ left _ => left.boundNames
  | .typeReference _ name arguments => name.boundNames ++ allBoundNames arguments
  | .heritage _ value arguments => value.boundNames ++ allBoundNames arguments
  | .declaration _ _ parts => allBoundNames parts
  | .importDeclaration _ => []
  | .importEquals _ _ => []
  | .anchored _ _ inner => inner.boundNames
  | .branch _ _ children => allBoundNames children

/-- The identifiers that are bound in trees. -/
def allBoundNames : List Tree → List Identifier
  | [] => []
  | tree :: rest => tree.boundNames ++ allBoundNames rest

end

/-- An identifier as a chain of its own. -/
def Identifier.chain (id : Identifier) : Chain := ⟨⟨id.name, id.span, false⟩, []⟩

theorem Identifier.chain_span (id : Identifier) : id.chain.span = id.span := by
  have hle := id.span.start_le_stop
  show Span.between id.span.start id.span.stop = id.span
  unfold Span.between
  simp only [Nat.max_eq_right hle]

/-- A chain binds nothing. -/
theorem Tree.boundNames_of_chain {tree : Tree} {chain : Chain} (h : tree.chain? = some chain) :
    tree.boundNames = [] := by
  fun_induction Tree.chain? tree generalizing chain with
  | case1 => rfl
  | case2 span object optional property inner hinner ih => exact ih hinner
  | case3 => cases h
  | case4 span left right inner hinner ih => exact ih hinner
  | case5 => cases h
  | case6 kind start inner ih => exact ih h
  | case7 => cases h

/-- Whether names are landmarks, and references begin other landmarks than these. -/
structure Landmarks.Separates (marks : Landmarks) (names : List Identifier)
    (references : List Chain) : Prop where
  named : ∀ id ∈ names, id.chain ∈ marks.chains
  begun : ∀ chain ∈ references, marks.Begun chain
  apart : ∀ id ∈ names, ∀ chain ∈ references, id.span.start ≠ chain.span.start

namespace Landmarks

variable {text : Text} {lo hi : Nat} {a b : Landmarks} {names others : List Identifier}
  {references more : List Chain}

/-- A name of one part starts where no landmark of the other part begins. -/
theorem Apart.start_ne (h : a.Apart b) (ha : a.Placed text lo hi) (hb : b.Placed text lo hi)
    {id : Identifier} {chain : Chain} (hid : id.chain ∈ a.chains) (hchain : b.Begun chain) :
    id.span.start ≠ chain.span.start := by
  obtain ⟨whole, hwhole, hbegins⟩ := hchain
  have hapart := h.spans _ (mem_spans.mpr (Or.inl ⟨_, hid, rfl⟩)) _
    (mem_spans.mpr (Or.inl ⟨_, hwhole, rfl⟩))
  have hname := (ha.chains _ hid).start_lt_stop
  have hlt := (hb.chains _ hwhole).start_lt_stop
  rw [hbegins.start_eq]
  show id.chain.span.start ≠ whole.span.start
  rcases hapart with hapart | hapart <;> omega

theorem Apart.symm (h : a.Apart b) : b.Apart a :=
  ⟨fun s hs t ht => (h.spans t ht s hs).symm, h.clear_right, h.clear_left⟩

/-- Parts that are placed together are separated together. -/
theorem Separates.join (ha : a.Separates names references) (hb : b.Separates others more)
    (h : (a.join b).Placed text lo hi) :
    (a.join b).Separates (names ++ others) (references ++ more) := by
  obtain ⟨hplacedA, hplacedB, hapart⟩ := placed_join.mp h
  refine ⟨?_, ?_, ?_⟩
  · intro id hid
    exact (List.mem_append.mp hid).elim (fun hid => List.mem_append_left _ (ha.named id hid))
      fun hid => List.mem_append_right _ (hb.named id hid)
  · intro chain hchain
    exact (List.mem_append.mp hchain).elim (fun hchain => (ha.begun chain hchain).left)
      fun hchain => (hb.begun chain hchain).right
  · intro id hid chain hchain
    rcases List.mem_append.mp hid with hid | hid <;>
      rcases List.mem_append.mp hchain with hchain | hchain
    · exact ha.apart id hid chain hchain
    · exact hapart.start_ne hplacedA hplacedB (ha.named id hid) (hb.begun chain hchain)
    · exact hapart.symm.start_ne hplacedB hplacedA (hb.named id hid) (ha.begun chain hchain)
    · exact hb.apart id hid chain hchain

theorem separates_nil (marks : Landmarks) : marks.Separates [] [] := ⟨by simp, by simp, by simp⟩

theorem separates_name (id : Identifier) : (Landmarks.name id).Separates [id] [] :=
  ⟨fun _ h => List.mem_singleton.mp h ▸ List.mem_singleton_self _, by simp, by simp⟩

end Landmarks

/-- Where nothing is bound, nothing has to be separated. -/
private theorem Tree.separates_of_nil {tree : Tree} (h : tree.boundNames = []) :
    tree.landmarks.Separates tree.boundNames tree.references := by
  rw [h]
  exact ⟨by simp, Tree.references_begun tree, by simp⟩

/-- The chain that a tree is can be counted among its references. -/
private theorem Tree.separates_chain {tree : Tree}
    (h : tree.landmarks.Separates tree.boundNames tree.references) :
    tree.landmarks.Separates tree.boundNames (tree.chain?.toList ++ tree.references) := by
  cases hchain : tree.chain? with
  | none => exact h
  | some chain =>
    rw [Tree.boundNames_of_chain hchain]
    refine ⟨by simp, fun other hother => ?_, by simp⟩
    rcases List.mem_append.mp hother with hother | hother
    · obtain rfl := List.mem_singleton.mp hother
      exact Tree.begun_of_chain hchain
    · exact h.begun other hother

mutual

/-- No reference in a tree starts at a name that is bound there. -/
theorem Tree.separates {text : Text} : ∀ (tree : Tree) {lo hi : Nat},
    tree.landmarks.Placed text lo hi → tree.landmarks.Separates tree.boundNames tree.references
  | .leaf _ _, _, _, _ => Landmarks.separates_nil _
  | .text _ _, _, _, _ => Landmarks.separates_nil _
  | .identifier _ _, _, _, _ => Landmarks.separates_nil _
  | .binding id type, _, _, h =>
    (Landmarks.separates_name id).join (separatesAll type (Landmarks.placed_join.mp h).2.1) h
  | .member span object optional property, _, _, h => by
    cases hchain : object.chain? with
    | none =>
      simp only [Tree.landmarks, Tree.references, hchain] at h ⊢
      exact Tree.separates object h
    | some chain =>
      have hnone : object.boundNames = [] := Tree.boundNames_of_chain hchain
      exact Tree.separates_of_nil hnone
  | .call _ callee arguments typeArguments, _, _, h => by
    obtain ⟨_, hparts, _⟩ := Landmarks.placed_join.mp h
    obtain ⟨_, hinner, _⟩ := Landmarks.placed_join.mp hparts
    obtain ⟨hcallee, hrest, _⟩ := Landmarks.placed_join.mp hinner
    obtain ⟨harguments, htypes, _⟩ := Landmarks.placed_join.mp hrest
    have hseparates := (Landmarks.separates_nil { points := [_] }).join
      ((Landmarks.separates_nil (.ofCall _ callee)).join
        ((Tree.separates_chain (Tree.separates callee hcallee)).join
          ((separatesAll arguments harguments).join (separatesAll typeArguments htypes) hrest)
          hinner) hparts) h
    simpa [Tree.references, Tree.boundNames, Tree.landmarks, List.append_assoc] using hseparates
  | .qualified _ left right, _, _, h => by
    cases hchain : left.chain? with
    | none =>
      simp only [Tree.landmarks, Tree.references, hchain] at h ⊢
      exact Tree.separates left h
    | some chain =>
      have hnone : left.boundNames = [] := Tree.boundNames_of_chain hchain
      exact Tree.separates_of_nil hnone
  | .typeReference _ name arguments, _, _, h => by
    obtain ⟨hname, harguments, _⟩ := Landmarks.placed_join.mp h
    exact (Tree.separates_chain (Tree.separates name hname)).join
      (separatesAll arguments harguments) h
  | .heritage _ value arguments, _, _, h => by
    obtain ⟨hvalue, harguments, _⟩ := Landmarks.placed_join.mp h
    exact (Tree.separates_chain (Tree.separates value hvalue)).join
      (separatesAll arguments harguments) h
  | .declaration _ _ parts, _, _, h =>
    (Landmarks.separates_nil _).join (separatesAll parts (Landmarks.placed_join.mp h).2.1) h
  | .importDeclaration _, _, _, _ => Landmarks.separates_nil _
  | .importEquals _ _, _, _, _ => Tree.separates_of_nil rfl
  | .anchored _ _ inner, _, _, h =>
    (Landmarks.separates_nil _).join (Tree.separates inner (Landmarks.placed_join.mp h).2.1) h
  | .branch _ _ children, _, _, h => separatesAll children h

theorem separatesAll {text : Text} : ∀ (trees : List Tree) {lo hi : Nat},
    (allLandmarks trees).Placed text lo hi →
      (allLandmarks trees).Separates (allBoundNames trees) (allReferences trees)
  | [], _, _, _ => Landmarks.separates_nil _
  | tree :: rest, _, _, h => by
    obtain ⟨htree, hrest, _⟩ := Landmarks.placed_join.mp h
    exact (Tree.separates tree htree).join (separatesAll rest hrest) h

end

section Programs

variable {options : MigrationOptions} {dialect : Dialect} {body : Text} {program : Program}

/-- Every name that is bound in a file reads as before in the migrated file. -/
theorem finalDraft_reads_bound (hplaced : program.Placed body) {id : Identifier}
    (hid : id ∈ allBoundNames program.items) :
    (finalDraft options dialect body program).edits.Reads body id.span (body.slice id.span) := by
  have hseparates := separatesAll program.items hplaced.landmarks
  have hchain := hseparates.named id hid
  have hrewritten : (opened options body program).Continues
      ((allLandmarks program.items).Within (· ≠ id.chain)) .any
      (rewritten options dialect body program) := by
    refine continues_references hplaced
      (fun visit hstop => hplaced.landmarks.within_comment hstop.marked)
      fun chain hmem _ edit hpart => ?_
    obtain ⟨whole, hwhole, hbegins⟩ := hseparates.begun chain hmem
    have hwholePlaced := hplaced.landmarks.chains whole hwhole
    obtain ⟨hstart, hstop⟩ := hpart.inside (hbegins.placed hwholePlaced)
    refine .name hwhole ?_ (hbegins.start_eq ▸ hstart)
      (Nat.le_trans hstop (hbegins.stop_le hwholePlaced))
    rintro rfl
    exact hseparates.apart id hid chain hmem hbegins.start_eq.symm
  have huntouched := finalDraft_untouched hplaced hchain (hrewritten.forall_held
    (by rw [opened_edits]; exact fun _ h => absurd h List.not_mem_nil) fun _ h => h) []
  have hspan := (hplaced.landmarks.chains _ hchain).start_lt_stop
  rw [id.chain_span] at huntouched hspan
  exact (finalDraft_legacyEdits hplaced).2.reads_untouched body hspan huntouched

end Programs

/-! ## Other names for what is bound -/

mutual

/-- A tree in which variables and parameters are bound under the names that
`rename` gives them.  What refers to a name stays as it is. -/
def Tree.renameBound (rename : Identifier → String) : Tree → Tree
  | .leaf kind span => .leaf kind span
  | .text value span => .text value span
  | .identifier role id => .identifier role id
  | .binding id type => .binding ⟨rename id, id.span⟩ (renameAllBound rename type)
  | .member span object optional property =>
    .member span (object.renameBound rename) optional property
  | .call span callee arguments typeArguments =>
    .call span (callee.renameBound rename) (renameAllBound rename arguments)
      (renameAllBound rename typeArguments)
  | .qualified span left right => .qualified span (left.renameBound rename) right
  | .typeReference span name arguments =>
    .typeReference span (name.renameBound rename) (renameAllBound rename arguments)
  | .heritage span value arguments =>
    .heritage span (value.renameBound rename) (renameAllBound rename arguments)
  | .declaration kind id parts => .declaration kind id (renameAllBound rename parts)
  | .importDeclaration found => .importDeclaration found
  | .importEquals header module => .importEquals header module
  | .anchored kind start inner => .anchored kind start (inner.renameBound rename)
  | .branch kind span children => .branch kind span (renameAllBound rename children)

/-- Trees in which variables and parameters are bound under other names. -/
def renameAllBound (rename : Identifier → String) : List Tree → List Tree
  | [] => []
  | tree :: rest => tree.renameBound rename :: renameAllBound rename rest

end

/-- A program in which variables and parameters are bound under other names. -/
def Program.renameBound (program : Program) (rename : Identifier → String) : Program :=
  ⟨renameAllBound rename program.items⟩

/-- A call in which variables and parameters are bound under other names. -/
def CallSite.renameBound (rename : Identifier → String) (site : CallSite) : CallSite :=
  ⟨site.callee.renameBound rename, renameAllBound rename site.arguments, site.start⟩

/-- A stop in which variables and parameters are bound under other names. -/
def Visit.renameBound (rename : Identifier → String) : Visit → Visit
  | .call site around => .call (site.renameBound rename) around
  | .identifier id around => .identifier id around

section Renaming

variable {rename : Identifier → String}

theorem Program.items_renameBound (program : Program) :
    (program.renameBound rename).items = renameAllBound rename program.items := rfl

@[simp] theorem Tree.core_renameBound (tree : Tree) :
    (tree.renameBound rename).core = tree.core.renameBound rename := by cases tree <;> rfl

@[simp] theorem Tree.start_renameBound (tree : Tree) :
    (tree.renameBound rename).start = tree.start := by cases tree <;> rfl

@[simp] theorem length_renameAllBound (trees : List Tree) :
    (renameAllBound rename trees).length = trees.length := by
  induction trees with
  | nil => rfl
  | cons tree rest ih => rw [renameAllBound, List.length_cons, ih, List.length_cons]

/-- A chain binds nothing, so it stays the same. -/
@[simp] theorem Tree.chain?_renameBound (tree : Tree) :
    (tree.renameBound rename).chain? = tree.chain? := by
  fun_induction Tree.chain? tree with
  | case1 => rfl
  | case2 span object optional property inner hinner ih =>
    rw [Tree.renameBound, Tree.chain?, ih, hinner]
  | case3 span object optional property hinner ih =>
    rw [Tree.renameBound, Tree.chain?, ih, hinner]
  | case4 span left right inner hinner ih => rw [Tree.renameBound, Tree.chain?, ih, hinner]
  | case5 span left right hinner ih => rw [Tree.renameBound, Tree.chain?, ih, hinner]
  | case6 kind start inner ih => exact ih
  | case7 tree hidentifier hmember hqualified hanchored =>
    cases tree with
    | identifier role id => exact (hidentifier role id rfl).elim
    | member span object optional property => exact (hmember span object optional property rfl).elim
    | qualified span left right => exact (hqualified span left right rfl).elim
    | anchored kind start inner => exact (hanchored kind start inner rfl).elim
    | _ => rfl

/-! ## Walks -/

mutual

/-- A walk makes the same stops. -/
theorem Tree.visits_renameBound {consumes : CallSite → Bool}
    (hconsumes : ∀ site : CallSite, consumes (site.renameBound rename) = consumes site) :
    ∀ (tree : Tree) (around : List Nat), (tree.renameBound rename).visits consumes around =
      (tree.visits consumes around).map (Visit.renameBound rename)
  | .leaf _ _, _ => rfl
  | .text _ _, _ => rfl
  | .identifier _ _, _ => rfl
  | .binding _ type, around => visitsAll_renameBound hconsumes type around
  | .member _ object _ _, around => Tree.visits_renameBound hconsumes object around
  | .call span callee arguments typeArguments, around => by
    have hsite : consumes ⟨callee.renameBound rename, renameAllBound rename arguments, span.start⟩ =
        consumes ⟨callee, arguments, span.start⟩ := hconsumes ⟨callee, arguments, span.start⟩
    simp only [Tree.renameBound, Tree.visits, List.map_cons, List.map_append, hsite,
      Tree.visits_renameBound hconsumes callee around,
      visitsAll_renameBound hconsumes arguments around,
      visitsAll_renameBound hconsumes typeArguments around]
    split <;> rfl
  | .qualified _ left _, around => Tree.visits_renameBound hconsumes left around
  | .typeReference _ name arguments, around => by
    simp only [Tree.renameBound, Tree.visits, List.map_append,
      Tree.visits_renameBound hconsumes name around,
      visitsAll_renameBound hconsumes arguments around]
  | .heritage _ value arguments, around => by
    simp only [Tree.renameBound, Tree.visits, List.map_append,
      Tree.visits_renameBound hconsumes value around,
      visitsAll_renameBound hconsumes arguments around]
  | .declaration _ id parts, around => by
    simp only [Tree.renameBound, Tree.visits, List.map_cons,
      visitsAll_renameBound hconsumes parts around]
    rfl
  | .importDeclaration _, _ => rfl
  | .importEquals _ _, _ => rfl
  | .anchored _ start inner, around => Tree.visits_renameBound hconsumes inner (start :: around)
  | .branch _ _ children, around => visitsAll_renameBound hconsumes children around

theorem visitsAll_renameBound {consumes : CallSite → Bool}
    (hconsumes : ∀ site : CallSite, consumes (site.renameBound rename) = consumes site) :
    ∀ (trees : List Tree) (around : List Nat),
      visitsAll consumes around (renameAllBound rename trees) =
        (visitsAll consumes around trees).map (Visit.renameBound rename)
  | [], _ => rfl
  | tree :: rest, around => by
    simp only [renameAllBound, visitsAll, List.map_append,
      Tree.visits_renameBound hconsumes tree around, visitsAll_renameBound hconsumes rest around]

end

mutual

theorem Tree.typeChains_renameBound : ∀ tree : Tree,
    (tree.renameBound rename).typeChains = tree.typeChains
  | .leaf _ _ => rfl
  | .text _ _ => rfl
  | .identifier _ _ => rfl
  | .binding _ type => allTypeChains_renameBound type
  | .member _ object _ _ => Tree.typeChains_renameBound object
  | .call _ callee arguments typeArguments => by
    simp only [Tree.renameBound, Tree.typeChains, Tree.typeChains_renameBound callee,
      allTypeChains_renameBound arguments, allTypeChains_renameBound typeArguments]
  | .qualified _ left _ => Tree.typeChains_renameBound left
  | .typeReference _ name arguments => by
    simp only [Tree.renameBound, Tree.typeChains, Tree.chain?_renameBound,
      allTypeChains_renameBound arguments]
  | .heritage _ value arguments => by
    simp only [Tree.renameBound, Tree.typeChains, Tree.chain?_renameBound,
      Tree.typeChains_renameBound value, allTypeChains_renameBound arguments]
  | .declaration _ _ parts => allTypeChains_renameBound parts
  | .importDeclaration _ => rfl
  | .importEquals _ _ => rfl
  | .anchored _ _ inner => Tree.typeChains_renameBound inner
  | .branch _ _ children => allTypeChains_renameBound children

theorem allTypeChains_renameBound : ∀ trees : List Tree,
    allTypeChains (renameAllBound rename trees) = allTypeChains trees
  | [] => rfl
  | tree :: rest => by
    simp only [renameAllBound, allTypeChains, Tree.typeChains_renameBound tree,
      allTypeChains_renameBound rest]

end

@[simp] theorem Draft.rewriteEnumTree_renameBound (draft : Draft) (rules : EnumRules)
    (tree : Tree) :
    draft.rewriteEnumTree rules (tree.renameBound rename) = draft.rewriteEnumTree rules tree := by
  unfold Draft.rewriteEnumTree
  rw [Tree.chain?_renameBound]

@[simp] theorem Draft.rewriteWholeMember_renameBound (draft : Draft) (rules : EnumRules)
    (object : Tree) (property : Identifier) :
    draft.rewriteWholeMember rules (object.renameBound rename) property =
      draft.rewriteWholeMember rules object property := by
  unfold Draft.rewriteWholeMember
  rw [Tree.chain?_renameBound]

mutual

/-- The stage of enumerations passes over the names that are bound. -/
theorem Tree.rewriteEnums_renameBound (rules : EnumRules) : ∀ (tree : Tree) (draft : Draft),
    (tree.renameBound rename).rewriteEnums rules draft = tree.rewriteEnums rules draft
  | .leaf _ _, _ => rfl
  | .text _ _, _ => rfl
  | .identifier _ _, _ => rfl
  | .binding _ type, draft => rewriteAllEnums_renameBound rules type draft
  | .member _ object _ _, draft => by
    simp only [Tree.renameBound, Tree.rewriteEnums, Draft.rewriteWholeMember_renameBound,
      Draft.rewriteEnumTree_renameBound, Tree.rewriteEnums_renameBound rules object]
  | .call _ callee arguments typeArguments, draft => by
    simp only [Tree.renameBound, Tree.rewriteEnums, Tree.rewriteEnums_renameBound rules callee,
      rewriteAllEnums_renameBound rules arguments, rewriteAllEnums_renameBound rules typeArguments]
  | .qualified _ left _, draft => by
    simp only [Tree.renameBound, Tree.rewriteEnums, Draft.rewriteEnumTree_renameBound,
      Tree.rewriteEnums_renameBound rules left]
  | .typeReference _ name arguments, draft => by
    simp only [Tree.renameBound, Tree.rewriteEnums, Draft.rewriteEnumTree_renameBound,
      Tree.rewriteEnums_renameBound rules name, rewriteAllEnums_renameBound rules arguments]
  | .heritage _ value arguments, draft => by
    simp only [Tree.renameBound, Tree.rewriteEnums, Tree.rewriteEnums_renameBound rules value,
      rewriteAllEnums_renameBound rules arguments]
  | .declaration _ _ parts, draft => rewriteAllEnums_renameBound rules parts draft
  | .importDeclaration _, _ => rfl
  | .importEquals _ _, _ => rfl
  | .anchored _ _ inner, draft => Tree.rewriteEnums_renameBound rules inner draft
  | .branch _ _ children, draft => rewriteAllEnums_renameBound rules children draft

theorem rewriteAllEnums_renameBound (rules : EnumRules) : ∀ (trees : List Tree) (draft : Draft),
    rewriteAllEnums rules (renameAllBound rename trees) draft = rewriteAllEnums rules trees draft
  | [], _ => rfl
  | tree :: rest, draft => by
    simp only [renameAllBound, rewriteAllEnums, Tree.rewriteEnums_renameBound rules tree,
      rewriteAllEnums_renameBound rules rest]

end

mutual

theorem Tree.mentions_renameBound (name : String) : ∀ tree : Tree,
    (tree.renameBound rename).mentions name = tree.mentions name
  | .leaf _ _ => rfl
  | .text _ _ => rfl
  | .identifier _ _ => rfl
  | .binding _ type => anyMentions_renameBound name type
  | .member _ object _ _ => Tree.mentions_renameBound name object
  | .call _ callee arguments typeArguments => by
    simp only [Tree.renameBound, Tree.mentions, Tree.mentions_renameBound name callee,
      anyMentions_renameBound name arguments, anyMentions_renameBound name typeArguments]
  | .qualified _ left _ => Tree.mentions_renameBound name left
  | .typeReference _ reference arguments => by
    simp only [Tree.renameBound, Tree.mentions, Tree.mentions_renameBound name reference,
      anyMentions_renameBound name arguments]
  | .heritage _ value arguments => by
    simp only [Tree.renameBound, Tree.mentions, Tree.mentions_renameBound name value,
      anyMentions_renameBound name arguments]
  | .declaration _ _ parts => anyMentions_renameBound name parts
  | .importDeclaration _ => rfl
  | .importEquals _ _ => rfl
  | .anchored _ _ inner => Tree.mentions_renameBound name inner
  | .branch _ _ children => anyMentions_renameBound name children

theorem anyMentions_renameBound (name : String) : ∀ trees : List Tree,
    anyMentions name (renameAllBound rename trees) = anyMentions name trees
  | [] => rfl
  | tree :: rest => by
    simp only [renameAllBound, anyMentions, Tree.mentions_renameBound name tree,
      anyMentions_renameBound name rest]

end

mutual

/-- A name that no variable gets and none loses is declared as before. -/
theorem Tree.declares_renameBound {name : String}
    (hname : ∀ id : Identifier, rename id = name ↔ id.name = name) : ∀ tree : Tree,
    (tree.renameBound rename).declares name = tree.declares name
  | .leaf _ _ => rfl
  | .text _ _ => rfl
  | .identifier _ _ => rfl
  | .binding id type => by
    have hbound : (rename id == name) = (id.name == name) := by
      rw [Bool.eq_iff_iff, beq_iff_eq, beq_iff_eq]
      exact hname id
    simp only [Tree.renameBound, Tree.declares, hbound, anyDeclares_renameBound hname type]
  | .member _ object _ _ => Tree.declares_renameBound hname object
  | .call _ callee arguments typeArguments => by
    simp only [Tree.renameBound, Tree.declares, Tree.declares_renameBound hname callee,
      anyDeclares_renameBound hname arguments, anyDeclares_renameBound hname typeArguments]
  | .qualified _ left _ => Tree.declares_renameBound hname left
  | .typeReference _ reference arguments => by
    simp only [Tree.renameBound, Tree.declares, Tree.declares_renameBound hname reference,
      anyDeclares_renameBound hname arguments]
  | .heritage _ value arguments => by
    simp only [Tree.renameBound, Tree.declares, Tree.declares_renameBound hname value,
      anyDeclares_renameBound hname arguments]
  | .declaration _ _ parts => by
    simp only [Tree.renameBound, Tree.declares, anyDeclares_renameBound hname parts]
  | .importDeclaration _ => rfl
  | .importEquals _ _ => rfl
  | .anchored _ _ inner => Tree.declares_renameBound hname inner
  | .branch _ _ children => anyDeclares_renameBound hname children

theorem anyDeclares_renameBound {name : String}
    (hname : ∀ id : Identifier, rename id = name ↔ id.name = name) : ∀ trees : List Tree,
    anyDeclares name (renameAllBound rename trees) = anyDeclares name trees
  | [] => rfl
  | tree :: rest => by
    simp only [renameAllBound, anyDeclares, Tree.declares_renameBound hname tree,
      anyDeclares_renameBound hname rest]

end

/-- A walk through a program makes the same stops. -/
theorem Program.visits_renameBound (program : Program) {consumes : CallSite → Bool}
    (hconsumes : ∀ site : CallSite, consumes (site.renameBound rename) = consumes site) :
    (program.renameBound rename).visits consumes =
      (program.visits consumes).map (Visit.renameBound rename) :=
  visitsAll_renameBound hconsumes program.items []

/-! ## Stages -/

namespace Draft

variable (draft : Draft) (text : Text) (program : Program)

theorem rewriteCall_renameBound (lookups : Lookups) (visit : Visit) :
    rewriteCall text lookups draft (visit.renameBound rename) =
      rewriteCall text lookups draft visit := by
  cases visit with
  | identifier id around => rfl
  | call site around =>
    simp only [Visit.renameBound, CallSite.renameBound, rewriteCall, flagCall,
      Tree.chain?_renameBound, length_renameAllBound]

theorem rewriteCalls_renameBound (rules : List Rule) :
    draft.rewriteCalls text (program.renameBound rename) rules =
      draft.rewriteCalls text program rules := by
  unfold rewriteCalls
  split
  · rfl
  · have hstops : (program.renameBound rename).visits
          (fun site => ((Lookups.build draft.bindings rules).1.forCall? site).isSome) =
        (program.visits fun site =>
          ((Lookups.build draft.bindings rules).1.forCall? site).isSome).map
            (Visit.renameBound rename) := by
      refine program.visits_renameBound fun site => ?_
      simp only [Lookups.forCall?, CallSite.renameBound, Tree.chain?_renameBound]
    simp only [hstops, List.foldl_map, rewriteCall_renameBound]

theorem rewriteTypes_renameBound (rules : List Rule) :
    draft.rewriteTypes (program.renameBound rename) rules = draft.rewriteTypes program rules := by
  simp only [rewriteTypes, Program.renameBound, allTypeChains_renameBound]

theorem rewriteEnums_renameBound (rules : List Rule) :
    draft.rewriteEnums text (program.renameBound rename) rules =
      draft.rewriteEnums text program rules := by
  simp only [rewriteEnums, Program.renameBound, rewriteAllEnums_renameBound]

theorem rewriteReferences_renameBound (mappings : MappingTable) (dialect : Dialect) :
    draft.rewriteReferences mappings dialect text (program.renameBound rename) =
      draft.rewriteReferences mappings dialect text program := by
  simp only [rewriteReferences, rewriteCalls_renameBound, rewriteTypes_renameBound,
    rewriteEnums_renameBound]

theorem flagLeftovers_renameBound :
    draft.flagLeftovers text (program.renameBound rename) = draft.flagLeftovers text program := by
  have hstops : (program.renameBound rename).visits (fun _ => false) = _ :=
    program.visits_renameBound fun _ => rfl
  have hflag : ∀ (dropped : List (String × Nat)) (state : Leftovers) (visit : Visit),
      state.flag text dropped (visit.renameBound rename) = state.flag text dropped visit := by
    intro dropped state visit
    cases visit <;> rfl
  unfold flagLeftovers
  split
  · rfl
  · rw [hstops, List.foldl_map]
    simp only [hflag]

end Draft

/-! ## Files -/

theorem ImportSites.foldl_renameBound (module : String) (items : List Tree) (sites : ImportSites) :
    (renameAllBound rename items).foldl (addItem module) sites =
      items.foldl (addItem module) sites := by
  have hitem : ∀ (sites : ImportSites) (item : Tree),
      addItem module sites (item.renameBound rename) = addItem module sites item := by
    intro sites item
    unfold addItem
    rw [Tree.core_renameBound]
    cases item.core <;> rfl
  induction items generalizing sites with
  | nil => rfl
  | cons item rest ih => rw [renameAllBound, List.foldl_cons, hitem, ih, List.foldl_cons]

/-- A load of the module is found by its callee and its first argument, which are
told by words that bind nothing. -/
theorem opaqueLoad?_renameBound (text : Text) (module : String) (visit : Visit) :
    opaqueLoad? text module (visit.renameBound rename) = opaqueLoad? text module visit := by
  have hkind : ∀ site : CallSite, (site.renameBound rename).loadKind? = site.loadKind? := by
    intro site
    simp only [CallSite.loadKind?, CallSite.renameBound, Tree.core_renameBound]
    cases site.callee.core <;> rfl
  have hfirst : ∀ arguments : List Tree,
      firstText? (renameAllBound rename arguments) = firstText? arguments := by
    intro arguments
    cases arguments with
    | nil => rfl
    | cons first rest =>
      simp only [firstText?, renameAllBound, Tree.core_renameBound]
      cases first.core <;> rfl
  cases visit with
  | identifier id around => rfl
  | call site around =>
    simp only [opaqueLoad?, Visit.renameBound, hkind]
    simp only [CallSite.renameBound, hfirst]

theorem Program.importSites_renameBound (program : Program) (text : Text) (module : String)
    {globalName : String}
    (hglobal : ∀ id : Identifier, rename id = globalName ↔ id.name = globalName) :
    (program.renameBound rename).importSites text module globalName =
      program.importSites text module globalName := by
  have hstops : (program.renameBound rename).visits (fun _ => false) = _ :=
    program.visits_renameBound fun _ => rfl
  have hfirst : (renameAllBound rename program.items).head?.map Tree.start =
      program.items.head?.map Tree.start := by
    cases program.items with
    | nil => rfl
    | cons item rest => simp [renameAllBound]
  have hload : opaqueLoad? text module ∘ Visit.renameBound rename = opaqueLoad? text module :=
    funext (opaqueLoad?_renameBound text module)
  unfold Program.importSites
  simp only [hstops, List.filterMap_map, hload, Program.items_renameBound, hfirst,
    anyMentions_renameBound, anyDeclares_renameBound hglobal, ImportSites.foldl_renameBound]

/-- What variables and parameters are called does not matter to a migration, as
long as the global name of the module is given to none and taken from none. -/
theorem migrateProgram_renameBound (options : MigrationOptions) (dialect : Dialect) (text : Text)
    (program : Program)
    (hglobal : ∀ id : Identifier, rename id = options.globalName ↔ id.name = options.globalName) :
    migrateProgram options dialect text (program.renameBound rename) =
      migrateProgram options dialect text program := by
  have hsites := program.importSites_renameBound text options.module hglobal
  have hreferences : referenceDraft options dialect text (program.renameBound rename) =
      referenceDraft options dialect text program := by
    simp only [referenceDraft, hsites, Draft.rewriteReferences_renameBound]
  simp only [migrateProgram, finalDraft, hsites, hreferences, Draft.flagLeftovers_renameBound]

end Renaming

/-! ## References behind a parameter -/

/-- The parameters of a function that are plain names, and its body. -/
structure FunctionParts where
  parameters : List Identifier
  body : List Tree

/-- Whether a branch holds the parameters of a function and its body. -/
def BranchKind.isFunction : BranchKind → Bool
  | .function | .arrow | .method | .accessor => true
  | _ => false

/-- The name of a parameter that is a plain name, with or without decorators. -/
def Tree.parameter? : Tree → Option Identifier
  | .binding id _ => some id
  | .branch .parameter _ parts =>
    match parts.getLast? with
    | some (.binding id _) => some id
    | _ => none
  | _ => none

/-- Whether a part of a function is its body: a block, or an expression behind an
arrow. -/
def Tree.isBody (kind : BranchKind) : Tree → Bool
  | .branch .block _ _ => true
  | .anchored .expression _ _ => kind == .arrow
  | _ => false

mutual

/-- The functions in a tree. -/
def Tree.functions : Tree → List FunctionParts
  | .leaf _ _ => []
  | .text _ _ => []
  | .identifier _ _ => []
  | .binding _ type => allFunctions type
  | .member _ object _ _ => object.functions
  | .call _ callee arguments typeArguments =>
    callee.functions ++ allFunctions arguments ++ allFunctions typeArguments
  | .qualified _ left _ => left.functions
  | .typeReference _ name arguments => name.functions ++ allFunctions arguments
  | .heritage _ value arguments => value.functions ++ allFunctions arguments
  | .declaration _ _ parts => allFunctions parts
  | .importDeclaration _ => []
  | .importEquals _ _ => []
  | .anchored _ _ inner => inner.functions
  | .branch kind _ children =>
    (if kind.isFunction then
      [⟨children.filterMap Tree.parameter?, children.filter (Tree.isBody kind)⟩]
    else []) ++ allFunctions children

/-- The functions in trees. -/
def allFunctions : List Tree → List FunctionParts
  | [] => []
  | tree :: rest => tree.functions ++ allFunctions rest

end

/-- Whether a migrated file leaves alone what starts with the name of a parameter in
the body of the function, where the module or one of its exports is bound to
that name. -/
def RespectsShadowing (options : MigrationOptions) (dialect : Dialect) (body : Text)
    (program : Program) : Prop :=
  ∀ function ∈ allFunctions program.items, ∀ parameter ∈ function.parameters,
    (opened options body program).bindings.tracks parameter.name = true →
    ∀ chain ∈ allReferences function.body, chain.root = parameter.name →
      (finalDraft options dialect body program).edits.Reads body chain.span
        (body.slice chain.span)

/-- A file with a function whose parameter has the name of an import. -/
private def shadowFile : Text :=
  ("import \x7b getContext \x7d from \"@microsoft/teams-js\";\n" ++
    "function f(getContext) \x7b\n  getContext();\n\x7d\n").toList

private theorem shadowFile_facts :
    ∀ program ∈ Program.read? ⟨true, false, true⟩ shadowFile,
      ∃ function ∈ allFunctions program.items, ∃ parameter ∈ function.parameters,
        (opened {} shadowFile program).bindings.tracks parameter.name = true ∧
        ∃ chain ∈ allReferences function.body, chain.root = parameter.name ∧
          ¬ (finalDraft {} ⟨true, false, true⟩ shadowFile program).edits.Reads shadowFile
            chain.span (shadowFile.slice chain.span) := by
  decide +kernel

/-- The call of the parameter in the file is rewritten. -/
theorem shadowFile_not_respected :
    ∃ program, Program.read? ⟨true, false, true⟩ shadowFile = some program ∧
      ¬ RespectsShadowing {} ⟨true, false, true⟩ shadowFile program := by
  have hreads : (Program.read? ⟨true, false, true⟩ shadowFile).isSome = true := by decide +kernel
  obtain ⟨program, hread⟩ := Option.isSome_iff_exists.mp hreads
  obtain ⟨function, hfunction, parameter, hparameter, htracks, chain, hchain, hroot, hother⟩ :=
    shadowFile_facts program hread
  exact ⟨program, hread, fun hrespects =>
    hother (hrespects function hfunction parameter hparameter htracks chain hchain hroot)⟩

/-! ## What is made of a parameter -/

/-- In every migrated file all names that are bound read as before, and the file is
the same whatever variables and parameters are called, the global name of the
module apart.  So a reference in the body of a function is migrated and marked
whether or not a parameter of the function has the name that it starts with. -/
theorem transform_ignores_bound_names {options : MigrationOptions} {location : String}
    {mediaType : MediaType} {text : Text} {file : MigratedFile}
    (h : transform options location mediaType text = .ok file) :
    let body := Program.withoutMark text
    ∃ dialect program, mediaType.dialect? = some dialect ∧
      Program.read? dialect body = some program ∧
      (∀ id ∈ allBoundNames program.items,
        (finalDraft options dialect body program).edits.Reads body id.span
          (body.slice id.span)) ∧
      ∀ rename : Identifier → String,
        (∀ id, rename id = options.globalName ↔ id.name = options.globalName) →
        migrateProgram options dialect body (program.renameBound rename) = file := by
  intro body
  obtain ⟨dialect, program, hdialect, hread, rfl⟩ := transform_eq_ok h
  refine ⟨dialect, program, hdialect, hread, ?_, ?_⟩
  · exact fun id => finalDraft_reads_bound (Program.placed_of_read hread)
  · exact fun rename => migrateProgram_renameBound options dialect body program

/-- What the file is migrated to, with the call behind the parameter rewritten. -/
private def shadowFileAfter : Text :=
  ("import \x7b app \x7d from \"@microsoft/teams-js\";\n" ++
    "function f(getContext) \x7b\n  app.getContext();\n\x7d\n").toList

private theorem shadowFile_text :
    (transform {} "file:///mod.ts" .typeScript shadowFile).toOption.map (·.text) =
      some shadowFileAfter := by
  decide +kernel

/-- The file is migrated in the same way when its parameter has another name. -/
theorem shadowFile_ignores_parameter :
    ∃ program file, Program.read? ⟨true, false, true⟩ shadowFile = some program ∧
      transform {} "file:///mod.ts" .typeScript shadowFile = .ok file ∧
      file.text = shadowFileAfter ∧
      migrateProgram {} ⟨true, false, true⟩ shadowFile (program.renameBound fun id =>
        if id.name = "getContext" then "other" else id.name) = file := by
  have htext := shadowFile_text
  cases hfile : transform {} "file:///mod.ts" .typeScript shadowFile with
  | error e =>
    rw [hfile] at htext
    cases htext
  | ok file =>
    rw [hfile] at htext
    obtain ⟨dialect, program, hdialect, hread, -, hsame⟩ := transform_ignores_bound_names hfile
    obtain rfl := Option.some.inj hdialect
    refine ⟨program, file, hread, rfl, Option.some.inj htext, hsame _ fun id => ?_⟩
    split
    · rename_i hname
      rw [hname]
      decide
    · exact Iff.rfl

end SdkMigration
