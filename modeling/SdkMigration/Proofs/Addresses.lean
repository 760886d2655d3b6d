import SdkMigration.Migration.Chain
import SdkMigration.Proofs.Grammar.NamedReaders

/-!
# Addresses of nodes

A node of a program is found by its address: the item that it is in, and from there on the part
that it is in (`Program.spot?`).  What the parts of a node take from it, the nodes at all
addresses inside it do (`Tree.spot?_inherits`).  So no call stands in a chain or in the name of a
module.
-/

namespace SdkMigration

/-! ## Parts of nodes -/

namespace Tree

/-- The nodes right inside a node, in the order in which they are visited. -/
def parts : Tree → List Tree
  | .leaf _ _ => []
  | .text _ _ => []
  | .identifier _ _ => []
  | .binding _ type => type
  | .member _ object _ _ => [object]
  | .call _ callee arguments typeArguments => callee :: (arguments ++ typeArguments)
  | .qualified _ left _ => [left]
  | .typeReference _ name arguments => name :: arguments
  | .heritage _ value arguments => value :: arguments
  | .declaration _ _ parts => parts
  | .importDeclaration _ => []
  | .importEquals _ module => [module]
  | .anchored _ _ inner => [inner]
  | .branch _ _ children => children

theorem sizeOf_lt_of_mem_parts {tree part : Tree} (h : part ∈ tree.parts) :
    sizeOf part < sizeOf tree := by
  have hlist : ∀ {trees : List Tree}, part ∈ trees → sizeOf part < sizeOf trees :=
    List.sizeOf_lt_of_mem
  cases tree with
  | leaf | text | identifier | importDeclaration => cases h
  | member | qualified | importEquals | anchored =>
    obtain rfl := List.mem_singleton.mp h
    simp only [member.sizeOf_spec, qualified.sizeOf_spec, importEquals.sizeOf_spec,
      anchored.sizeOf_spec]
    omega
  | binding | declaration | branch =>
    have hpart := hlist h
    simp only [parts, binding.sizeOf_spec, declaration.sizeOf_spec, branch.sizeOf_spec] at hpart ⊢
    omega
  | typeReference | heritage =>
    simp only [typeReference.sizeOf_spec, heritage.sizeOf_spec]
    rcases List.mem_cons.mp h with rfl | h
    · omega
    · have hpart := hlist h
      omega
  | call =>
    simp only [call.sizeOf_spec]
    rcases List.mem_cons.mp h with rfl | h
    · omega
    · rcases List.mem_append.mp h with h | h
      · have hpart := hlist h
        omega
      · have hpart := hlist h
        omega

/-- What holds of a node when it holds of its parts holds of every node. -/
theorem induction_parts {motive : Tree → Prop}
    (step : ∀ tree, (∀ part ∈ tree.parts, motive part) → motive tree) (tree : Tree) :
    motive tree :=
  step tree fun part _ => induction_parts step part
termination_by sizeOf tree
decreasing_by exact sizeOf_lt_of_mem_parts ‹_›

end Tree

/-! ## Nodes at addresses -/

/-- The way to a node: the item that it is in, and from there on the part that it is in. -/
abbrev Address := List Nat

/-- A node, and where the nodes around it start, outermost first. -/
structure Spot where
  node : Tree
  anchors : List Nat

/-- Where a node starts, if a comment line can stand before it. -/
def Tree.anchor : Tree → List Nat
  | .anchored _ start _ => [start]
  | _ => []

/-- The node at an address inside a tree. -/
def Tree.spot? : Tree → List Nat → Address → Option Spot
  | tree, anchors, [] => some ⟨tree, anchors⟩
  | tree, anchors, index :: rest =>
    match tree.parts[index]? with
    | some part => part.spot? (anchors ++ tree.anchor) rest
    | none => none

/-- The node at an address inside trees. -/
def spotIn? (anchors : List Nat) (trees : List Tree) : Address → Option Spot
  | [] => none
  | index :: rest =>
    match trees[index]? with
    | some tree => tree.spot? anchors rest
    | none => none

/-- The node at an address of a program. -/
def Program.spot? (program : Program) : Address → Option Spot := spotIn? [] program.items

namespace Tree

variable {tree : Tree} {anchors : List Nat} {address more : Address} {spot : Spot}

/-- The node at an address inside the node at another one. -/
theorem spot?_append (h : tree.spot? anchors address = some spot) (more : Address) :
    tree.spot? anchors (address ++ more) = spot.node.spot? spot.anchors more := by
  induction address generalizing tree anchors with
  | nil =>
    cases h
    rfl
  | cons index rest ih =>
    rw [List.cons_append, Tree.spot?]
    rw [Tree.spot?] at h
    split at h
    · exact ih h
    · cases h

/-- What parts take from a node is so at all addresses inside it. -/
theorem spot?_inherits {p : Tree → Prop}
    (hparts : ∀ {tree part : Tree}, p tree → part ∈ tree.parts → p part) (htree : p tree)
    (h : tree.spot? anchors address = some spot) : p spot.node := by
  induction address generalizing tree anchors with
  | nil =>
    cases h
    exact htree
  | cons index rest ih =>
    rw [Tree.spot?] at h
    split at h
    · exact ih (hparts htree (List.mem_of_getElem? ‹_›)) h
    · cases h

end Tree

theorem spotIn?_append {anchors : List Nat} {trees : List Tree} {address : Address} {spot : Spot}
    (h : spotIn? anchors trees address = some spot) (more : Address) :
    spotIn? anchors trees (address ++ more) = spot.node.spot? spot.anchors more := by
  cases address with
  | nil => cases h
  | cons index rest =>
    rw [List.cons_append, spotIn?]
    rw [spotIn?] at h
    split at h
    · exact Tree.spot?_append h more
    · cases h

theorem spotIn?_inherits {p : Tree → Prop}
    (hparts : ∀ {tree part : Tree}, p tree → part ∈ tree.parts → p part) {trees : List Tree}
    (htrees : ∀ tree ∈ trees, p tree) {anchors : List Nat} {address : Address} {spot : Spot}
    (h : spotIn? anchors trees address = some spot) : p spot.node := by
  cases address with
  | nil => cases h
  | cons index rest =>
    rw [spotIn?] at h
    split at h
    · exact Tree.spot?_inherits hparts (htrees _ (List.mem_of_getElem? ‹_›)) h
    · cases h

/-! ## Nodes inside names -/

/-- Whether a node is a call. -/
def Tree.isCall : Tree → Bool
  | .call _ _ _ _ => true
  | _ => false

namespace Tree

variable {tree part : Tree} {anchors : List Nat} {address : Address} {spot : Spot}

theorem chain?_of_mem_parts (h : tree.chain?.isSome = true) (hpart : part ∈ tree.parts) :
    part.chain?.isSome = true := by
  cases tree with
  | identifier => cases hpart
  | member | qualified =>
    obtain rfl := List.mem_singleton.mp hpart
    rw [chain?] at h
    split at h
    · rename_i hobject
      rw [hobject]
      rfl
    · cases h
  | anchored =>
    obtain rfl := List.mem_singleton.mp hpart
    exact h
  | _ => cases h

theorem isCall_of_chain? (h : tree.chain?.isSome = true) : tree.isCall = false := by
  cases tree with
  | call => cases h
  | _ => rfl

/-- No call stands in a chain. -/
theorem isCall_in_chain (h : tree.chain?.isSome = true)
    (hspot : tree.spot? anchors address = some spot) : spot.node.isCall = false :=
  isCall_of_chain? (spot?_inherits chain?_of_mem_parts h hspot)

theorem IsModuleName.of_mem_parts (h : tree.IsModuleName) (hpart : part ∈ tree.parts) :
    part.IsModuleName := by
  rcases h with ⟨value, span, rfl⟩ | h
  · cases hpart
  · cases tree with
    | identifier => cases hpart
    | qualified =>
      obtain rfl := List.mem_singleton.mp hpart
      exact .inr h
    | _ => exact h.elim

theorem IsModuleName.isCall (h : tree.IsModuleName) : tree.isCall = false := by
  rcases h with ⟨value, span, rfl⟩ | h
  · rfl
  · cases tree with
    | call => exact h.elim
    | _ => rfl

theorem IsModuleName.wellNamed (h : tree.IsModuleName) : tree.WellNamed := by
  rcases h with ⟨value, span, rfl⟩ | h
  · trivial
  · exact h.wellNamed

/-- The parts of a tree that is named well are so. -/
theorem WellNamed.of_mem_parts (h : tree.WellNamed) (hpart : part ∈ tree.parts) :
    part.WellNamed := by
  cases tree with
  | leaf | text | identifier | importDeclaration => cases hpart
  | binding | declaration | branch => exact allWellNamed_iff.mp h part hpart
  | member | qualified | anchored =>
    obtain rfl := List.mem_singleton.mp hpart
    exact h
  | importEquals =>
    obtain rfl := List.mem_singleton.mp hpart
    exact IsModuleName.wellNamed h
  | typeReference =>
    rcases List.mem_cons.mp hpart with rfl | hpart
    · exact h.1.wellNamed
    · exact allWellNamed_iff.mp h.2 part hpart
  | heritage =>
    rcases List.mem_cons.mp hpart with rfl | hpart
    · exact h.1
    · exact allWellNamed_iff.mp h.2 part hpart
  | call =>
    rcases List.mem_cons.mp hpart with rfl | hpart
    · exact h.1
    · rcases List.mem_append.mp hpart with hpart | hpart
      · exact allWellNamed_iff.mp h.2.1 part hpart
      · exact allWellNamed_iff.mp h.2.2 part hpart

end Tree

/-- No call stands in an `import name = …` declaration that is named well. -/
theorem Tree.WellNamed.isCall_in_importEquals {header : ImportEquals} {module : Tree}
    (h : (Tree.importEquals header module).WellNamed) {anchors : List Nat} {address : Address}
    {spot : Spot} (hspot : (Tree.importEquals header module).spot? anchors address = some spot) :
    spot.node.isCall = false := by
  cases address with
  | nil =>
    cases hspot
    rfl
  | cons index rest =>
    rw [Tree.spot?] at hspot
    split at hspot
    · rename_i part hpart
      obtain rfl := List.mem_singleton.mp (List.mem_of_getElem? hpart)
      exact (spot?_inherits IsModuleName.of_mem_parts h hspot).isCall
    · cases hspot

end SdkMigration
