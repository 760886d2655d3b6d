import SdkMigration.Proofs.Grammar.Readers

/-!
# Trees that are named well

A reference to a type names the type by a dotted name, and an `import name = …`
declaration names its module by a text or by a dotted name.  A tree could hold
any tree in these two places.  `Tree.WellNamed` says that it does not.

`Reader.NamesWell` says of a reader that what it returns is named well.  It
follows the steps of the reader: what one step has returned is named well for
those behind it.
-/

namespace SdkMigration

/-! ## Trees -/

/-- Whether a tree is a name, or a name behind a dotted name. -/
def Tree.IsDottedName : Tree → Prop
  | .identifier _ _ => True
  | .qualified _ left _ => left.IsDottedName
  | _ => False

/-- Whether a tree names a module. -/
def Tree.IsModuleName (module : Tree) : Prop :=
  (∃ value span, module = .text value span) ∨ module.IsDottedName

mutual

/-- Whether the names of types and modules are names, wherever they are in a tree. -/
def Tree.WellNamed : Tree → Prop
  | .leaf _ _ => True
  | .text _ _ => True
  | .identifier _ _ => True
  | .binding _ type => AllWellNamed type
  | .member _ object _ _ => object.WellNamed
  | .call _ callee arguments typeArguments =>
    callee.WellNamed ∧ AllWellNamed arguments ∧ AllWellNamed typeArguments
  | .qualified _ left _ => left.WellNamed
  | .typeReference _ name arguments => name.IsDottedName ∧ AllWellNamed arguments
  | .heritage _ value arguments => value.WellNamed ∧ AllWellNamed arguments
  | .declaration _ _ parts => AllWellNamed parts
  | .importDeclaration _ => True
  | .importEquals _ module => module.IsModuleName
  | .anchored _ _ inner => inner.WellNamed
  | .branch _ _ children => AllWellNamed children

/-- Whether all of several trees are named well. -/
def AllWellNamed : List Tree → Prop
  | [] => True
  | tree :: rest => tree.WellNamed ∧ AllWellNamed rest

end

theorem allWellNamed_iff {trees : List Tree} :
    AllWellNamed trees ↔ ∀ tree ∈ trees, tree.WellNamed := by
  induction trees with
  | nil => simp [AllWellNamed]
  | cons tree rest ih => simp [AllWellNamed, ih]

theorem Tree.IsDottedName.wellNamed {tree : Tree} (h : tree.IsDottedName) : tree.WellNamed := by
  fun_induction Tree.IsDottedName tree with
  | case1 => trivial
  | case2 span left right ih => exact ih h
  | case3 => exact h.elim

/-! ## What readers return -/

/-- What it means for what a reader returns to be named well. -/
class Names (α : Type) where
  WellNamed : α → Prop

/-- Most things hold no trees. -/
instance (priority := low) Names.plain {α : Type} : Names α := ⟨fun _ => True⟩

instance : Names Tree := ⟨Tree.WellNamed⟩

instance : Names (List Tree) := ⟨AllWellNamed⟩

instance : Names (List (List Tree)) := ⟨fun lists => ∀ trees ∈ lists, AllWellNamed trees⟩

instance : Names (Option (List Tree)) := ⟨fun found => ∀ trees ∈ found, AllWellNamed trees⟩

instance : Names (Option (Reader Tree)) :=
  ⟨fun found => ∀ reader ∈ found, Reader.Returns Tree.WellNamed reader⟩

/-- Whether a thing is named well. -/
class WellNamed {α : Type} [Names α] (found : α) : Prop where
  holds : Names.WellNamed found

namespace Reader

/-- Whether what a reader returns is named well. -/
class NamesWell {α : Type} [Names α] (reader : Reader α) : Prop where
  returns : Returns Names.WellNamed reader

end Reader

/-! ## Putting trees together -/

section Trees

variable {tree : Tree} {first second : List Tree}

instance (kind : LeafKind) (span : Span) : WellNamed (Tree.leaf kind span) := ⟨trivial⟩

instance (value : String) (span : Span) : WellNamed (Tree.text value span) := ⟨trivial⟩

instance (role : Role) (id : Identifier) : WellNamed (Tree.identifier role id) := ⟨trivial⟩

instance (found : ImportDeclaration) : WellNamed (Tree.importDeclaration found) := ⟨trivial⟩

instance (id : Identifier) [h : WellNamed first] : WellNamed (Tree.binding id first) := ⟨h.holds⟩

instance (span : Span) (optional : Bool) (property : Identifier) [h : WellNamed tree] :
    WellNamed (Tree.member span tree optional property) := ⟨h.holds⟩

instance (span : Span) [hcallee : WellNamed tree] [hfirst : WellNamed first]
    [hsecond : WellNamed second] : WellNamed (Tree.call span tree first second) :=
  ⟨hcallee.holds, hfirst.holds, hsecond.holds⟩

instance (span : Span) (right : Identifier) [h : WellNamed tree] :
    WellNamed (Tree.qualified span tree right) := ⟨h.holds⟩

instance (span : Span) [hvalue : WellNamed tree] [hfirst : WellNamed first] :
    WellNamed (Tree.heritage span tree first) := ⟨hvalue.holds, hfirst.holds⟩

instance (kind : DeclarationKind) (id : Identifier) [h : WellNamed first] :
    WellNamed (Tree.declaration kind id first) := ⟨h.holds⟩

instance (kind : AnchorKind) (start : Nat) [h : WellNamed tree] :
    WellNamed (Tree.anchored kind start tree) := ⟨h.holds⟩

instance (kind : BranchKind) (span : Span) [h : WellNamed first] :
    WellNamed (Tree.branch kind span first) := ⟨h.holds⟩

instance : WellNamed ([] : List Tree) := ⟨trivial⟩

instance [htree : WellNamed tree] [hfirst : WellNamed first] : WellNamed (tree :: first) :=
  ⟨htree.holds, hfirst.holds⟩

instance [hfirst : WellNamed first] [hsecond : WellNamed second] :
    WellNamed (first ++ second) := by
  refine ⟨allWellNamed_iff.mpr fun tree htree => ?_⟩
  rcases List.mem_append.mp htree with h | h
  · exact allWellNamed_iff.mp hfirst.holds tree h
  · exact allWellNamed_iff.mp hsecond.holds tree h

instance [h : WellNamed first] (count : Nat) : WellNamed (first.take count) :=
  ⟨allWellNamed_iff.mpr fun tree htree =>
    allWellNamed_iff.mp h.holds tree (List.mem_of_mem_take htree)⟩

instance [h : WellNamed first] (count : Nat) : WellNamed (first.drop count) :=
  ⟨allWellNamed_iff.mpr fun tree htree =>
    allWellNamed_iff.mp h.holds tree (List.mem_of_mem_drop htree)⟩

instance (condition : Prop) [Decidable condition] [WellNamed first] [WellNamed second] :
    WellNamed (if condition then first else second) := by
  split <;> assumption

instance : WellNamed ([] : List (List Tree)) := ⟨nofun⟩

instance {lists : List (List Tree)} [hfirst : WellNamed first] [hlists : WellNamed lists] :
    WellNamed (first :: lists) :=
  ⟨List.forall_mem_cons.mpr ⟨hfirst.holds, hlists.holds⟩⟩

instance {lists : List (List Tree)} [h : WellNamed lists] : WellNamed lists.flatten := by
  refine ⟨allWellNamed_iff.mpr fun tree htree => ?_⟩
  obtain ⟨trees, htrees, hmem⟩ := List.mem_flatten.mp htree
  exact allWellNamed_iff.mp (h.holds trees htrees) tree hmem

instance [htree : WellNamed tree] [hfirst : WellNamed first] : WellNamed (tree.annotate first) := by
  constructor
  unfold Tree.annotate
  split
  · exact hfirst.holds
  · rename_i kind span children
    have hchildren : WellNamed children := ⟨htree.holds⟩
    exact (inferInstance : WellNamed (children ++ first)).holds
  · exact htree.holds

instance [h : WellNamed first] : WellNamed (some first) := by
  refine ⟨?_⟩
  rintro _ ⟨⟩
  exact h.holds

instance : WellNamed (none : Option (List Tree)) := ⟨nofun⟩

instance (reader : Reader Tree) [h : Reader.NamesWell reader] : WellNamed (some reader) := by
  refine ⟨?_⟩
  rintro _ ⟨⟩
  exact h.returns

instance : WellNamed (none : Option (Reader Tree)) := ⟨nofun⟩

instance (condition : Prop) [Decidable condition] (yes no : Option (Reader Tree)) [WellNamed yes]
    [WellNamed no] : WellNamed (if condition then yes else no) := by
  split <;> assumption

theorem WellNamed.of_eq_some {found : Option (List Tree)} [h : WellNamed found]
    (hfound : found = some first) : WellNamed first :=
  ⟨h.holds first hfound⟩

theorem Reader.NamesWell.of_eq_some {found : Option (Reader Tree)} {reader : Reader Tree}
    [h : WellNamed found] (hfound : found = some reader) : Reader.NamesWell reader :=
  ⟨h.holds reader hfound⟩

end Trees

/-! ## Steps of readers -/

namespace Reader

variable {α β : Type}

instance (priority := low) (reader : Reader α) : @NamesWell α .plain reader :=
  ⟨fun _ _ _ _ => trivial⟩

variable [Names α] [Names β]

/-- What a step returns is told to the steps behind it as a value together with
the fact that it is named well. -/
instance (found : {found : α // Names.WellNamed found}) : WellNamed found.val :=
  ⟨found.property⟩

instance (reader : Reader α) (rest : α → Reader β) [h : NamesWell reader]
    [hrest : ∀ found : {found : α // Names.WellNamed found}, NamesWell (rest found.val)] :
    NamesWell (reader >>= rest) :=
  ⟨.bindOf h.returns fun found hfound => (hrest ⟨found, hfound⟩).returns⟩

theorem NamesWell.bind {reader : Reader α} {rest : α → Reader β} [NamesWell reader]
    (h : ∀ found : {found : α // Names.WellNamed found}, NamesWell (rest found.val)) :
    NamesWell (reader >>= rest) := inferInstance

instance (found : α) [h : WellNamed found] : NamesWell (pure found : Reader α) :=
  ⟨.pure h.holds⟩

instance : NamesWell (failure : Reader α) := ⟨.failure⟩

instance (condition : Prop) [Decidable condition] (yes no : Reader α) [hyes : NamesWell yes]
    [hno : NamesWell no] : NamesWell (if condition then yes else no) :=
  ⟨.ite hyes.returns hno.returns⟩

theorem NamesWell.ite {condition : Prop} [Decidable condition] {yes no : Reader α}
    (hyes : NamesWell yes) (hno : NamesWell no) : NamesWell (if condition then yes else no) :=
  inferInstance

instance (first second : Reader α) [hfirst : NamesWell first] [hsecond : NamesWell second] :
    NamesWell (first <|> second) := ⟨.orElse hfirst.returns hsecond.returns⟩

end Reader

end SdkMigration
