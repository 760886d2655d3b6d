import SdkMigration.Proofs.Grammar.NamedReaders
import SdkMigration.Proofs.OpaqueLoads
import SdkMigration.Proofs.Stages.Calls

/-!
# What the stage of types does at each name of a type

A type is named by a type reference and by an entry of a clause in which a class or an interface
names what it builds on.  The stage of types comes to every such name once, also to those in the
type arguments of others, whatever was done there (`Program.typeNames_eq`).  What it does at a
name depends on the name alone: no edit of the stage of calls is in its way and none of its own
(`Draft.rewriteTypes_replaces_names`).
-/

namespace SdkMigration

/-! ## Names of types -/

/-- The chain by which a type reference, or an entry of a clause of a class or an interface,
names a type. -/
def Tree.typeName? : Tree → Option Chain
  | .typeReference _ name _ => name.chain?
  | .heritage _ value _ => value.chain?
  | _ => none

/-- The chains by which the nodes of a program name types, at any depth, in the order of their
trees. -/
def Program.typeNames (program : Program) : List Chain :=
  (nodesOf [] program.items).filterMap fun node => node.1.typeName?

/-- The chains by which nodes name types. -/
private def typeNamesAmong (nodes : List (Tree × List Nat)) : List Chain :=
  nodes.filterMap fun node => node.1.typeName?

section Names

variable {tree : Tree} {around : List Nat}

private theorem typeNamesAmong_append (nodes more : List (Tree × List Nat)) :
    typeNamesAmong (nodes ++ more) = typeNamesAmong nodes ++ typeNamesAmong more :=
  List.filterMap_append

private theorem typeNamesAmong_cons (nodes : List (Tree × List Nat)) :
    typeNamesAmong ((tree, around) :: nodes) = tree.typeName?.toList ++ typeNamesAmong nodes := by
  rw [typeNamesAmong, List.filterMap_cons]
  cases tree.typeName? <;> rfl

/-- The name of a type has no types inside. -/
private theorem Tree.IsDottedName.typeNamesAmong_eq (h : tree.IsDottedName) :
    typeNamesAmong ((tree, around) :: tree.inside around) = [] := by
  fun_induction Tree.IsDottedName tree with
  | case1 => rfl
  | case2 span left right ih =>
    rw [typeNamesAmong_cons, Tree.inside]
    exact ih h
  | case3 => exact h.elim

mutual

private theorem Tree.typeChains_eq (around : List Nat) : (tree : Tree) → tree.WellNamed →
    tree.typeChains = typeNamesAmong ((tree, around) :: tree.inside around)
  | .leaf _ _, _ => rfl
  | .text _ _, _ => rfl
  | .identifier _ _, _ => rfl
  | .binding _ type, h => allTypeChains_eq around type h
  | .member _ object _ _, h => object.typeChains_eq around h
  | .call _ callee arguments typeArguments, h => by
    rw [Tree.typeChains, callee.typeChains_eq around h.1, allTypeChains_eq around arguments h.2.1,
      allTypeChains_eq around typeArguments h.2.2, ← typeNamesAmong_append,
      ← typeNamesAmong_append]
    rfl
  | .qualified _ left _, h => left.typeChains_eq around h
  | .typeReference _ name arguments, h => by
    rw [typeNamesAmong_cons, Tree.inside, typeNamesAmong_append, h.1.typeNamesAmong_eq,
      List.nil_append, ← allTypeChains_eq around arguments h.2]
    rfl
  | .heritage _ value arguments, h => by
    rw [typeNamesAmong_cons, Tree.inside, typeNamesAmong_append, ← value.typeChains_eq around h.1,
      ← allTypeChains_eq around arguments h.2, ← List.append_assoc]
    rfl
  | .declaration _ _ parts, h => allTypeChains_eq around parts h
  | .importDeclaration _, _ => rfl
  | .importEquals _ _, _ => rfl
  | .anchored _ start inner, h => inner.typeChains_eq (start :: around) h
  | .branch _ _ children, h => allTypeChains_eq around children h

private theorem allTypeChains_eq (around : List Nat) : (trees : List Tree) → AllWellNamed trees →
    allTypeChains trees = typeNamesAmong (nodesOf around trees)
  | [], _ => rfl
  | tree :: rest, h => by
    rw [allTypeChains, tree.typeChains_eq around h.1, allTypeChains_eq around rest h.2,
      ← typeNamesAmong_append]
    rfl

end

/-- The stage of types comes to every name of a type. -/
theorem Program.typeNames_eq {program : Program} (h : AllWellNamed program.items) :
    program.typeNames = allTypeChains program.items :=
  (allTypeChains_eq [] program.items h).symm

end Names

/-! ## What is done at a name -/

/-- The first replacement that a chain is the source of. -/
def Chain.typeReplacement? (chain : Chain) (bindings : Bindings) (rules : List Rule) :
    Option Replacement :=
  (replacements bindings rules).find? (·.isFor chain.names)

/-- The edit that puts the target of that replacement in the place of the chain, unless it has
the names that the chain has. -/
def Chain.typeEdit? (chain : Chain) (bindings : Bindings) (rules : List Rule) : Option Edit :=
  ((chain.typeReplacement? bindings rules).filter fun found => !found.isIdentity).map fun found =>
    ⟨chain.span, found.target.dotted.toList⟩

/-- Bindings that have recorded matches, each with the binding that its replacement goes
through. -/
def Bindings.recordMatches (bindings : Bindings) (found : List Replacement) : Bindings :=
  found.foldl (fun bindings replacement =>
    bindings.recordMatch replacement.origin replacement.target.first) bindings

/-- A report that counts the matches that change something. -/
def Report.afterTypes (report : Report) (found : List Replacement) : Report :=
  { report with
    rewrittenTypes := report.rewrittenTypes + found.countP fun replacement =>
      !replacement.isIdentity }

/-- Without dots in names, the replacement for a chain is the first one whose source has the
names of the chain. -/
theorem Chain.typeReplacement?_eq {bindings : Bindings} {rules : List Rule}
    (hdots : NoDots bindings rules) {chain : Chain} {body : Text} {lo hi : Nat}
    (hchain : chain.Placed body lo hi) :
    chain.typeReplacement? bindings rules = chain.replacement? bindings rules :=
  Lookups.find?_build_eq_find?.symm.trans (Draft.find?_eq_replacement? hdots hchain)

theorem Chain.span_of_typeEdit? {chain : Chain} {bindings : Bindings} {rules : List Rule}
    {edit : Edit} (h : chain.typeEdit? bindings rules = some edit) : edit.span = chain.span := by
  obtain ⟨found, -, rfl⟩ := Option.map_eq_some_iff.mp h
  rfl

namespace Draft

variable {draft : Draft} {body : Text} {program : Program} {lo hi : Nat} {marks : Landmarks}
  {bindings : Bindings} {rules : List Rule}

/-- At a name that no edit overlaps, the replacement is carried out and recorded. -/
theorem rewriteType_of_free (bindings : Bindings) (rules : List Rule) {chain : Chain}
    (hfree : ∀ held ∈ draft.edits.held, ∀ newText,
      held.overlaps ⟨chain.span, newText⟩ = false) :
    let found := (chain.typeReplacement? bindings rules).toList
    let after := draft.rewriteType (Lookups.build bindings rules).1 chain
    after.edits.held = draft.edits.held ++ (chain.typeEdit? bindings rules).toList ∧
      after.bindings = draft.bindings.recordMatches found ∧
      after.report = draft.report.afterTypes found := by
  have hlookup : (Lookups.build bindings rules).1.find? chain.names =
      chain.typeReplacement? bindings rules := Lookups.find?_build_eq_find?
  simp only [rewriteType, hlookup, Chain.typeEdit?]
  cases chain.typeReplacement? bindings rules with
  | none => simp [Bindings.recordMatches, Report.afterTypes]
  | some replacement =>
    cases hidentity : replacement.isIdentity with
    | true =>
      simp [hidentity, recordMatch, addNotes, Bindings.recordMatches, Report.afterTypes]
    | false =>
      simp [Option.filter, hidentity, tryEdit_of_free fun held hheld => hfree held hheld _,
        recordMatch, addNotes, count, Edits.append, Bindings.recordMatches, Report.afterTypes]

/-! ## All names -/

theorem recordMatches_append (bindings : Bindings) (found more : List Replacement) :
    bindings.recordMatches (found ++ more) = (bindings.recordMatches found).recordMatches more :=
  List.foldl_append

theorem afterTypes_append (report : Report) (found more : List Replacement) :
    report.afterTypes (found ++ more) = (report.afterTypes found).afterTypes more := by
  simp only [Report.afterTypes, List.countP_append, Nat.add_assoc]

/-- The edit at a chain touches no other one. -/
theorem within_typeEdit? {chain : Chain} (hmem : chain ∈ marks.chains) {edit : Edit}
    (h : chain.typeEdit? bindings rules = some edit) : marks.Within (· = chain) edit := by
  have hspan := Chain.span_of_typeEdit? h
  exact .name hmem rfl (by rw [hspan]) (by rw [hspan])

/-- Different names that no edit has touched are dealt with one after the other. -/
theorem foldl_rewriteType (draft : Draft) (bindings : Bindings) (rules : List Rule)
    (hplaced : marks.Placed body lo hi) {chains : List Chain}
    (hchains : ∀ chain ∈ chains, chain ∈ marks.chains)
    (hnodup : chains.Nodup)
    (hfree : ∀ chain ∈ chains, ∀ held ∈ draft.edits.held, marks.Within (· ≠ chain) held) :
    let found := chains.filterMap (·.typeReplacement? bindings rules)
    let after := chains.foldl (rewriteType (Lookups.build bindings rules).1) draft
    after.edits.held = draft.edits.held ++ chains.filterMap (·.typeEdit? bindings rules) ∧
      after.bindings = draft.bindings.recordMatches found ∧
      after.report = draft.report.afterTypes found := by
  induction chains generalizing draft with
  | nil => exact ⟨(List.append_nil _).symm, rfl, rfl⟩
  | cons chain rest ih =>
    obtain ⟨hnew, hrest⟩ := List.nodup_cons.mp hnodup
    have hmem := hchains chain (.head rest)
    obtain ⟨hedits, hbindings, hreport⟩ := rewriteType_of_free bindings rules
      fun held hheld newText =>
        hplaced.not_overlaps_chain hmem (hfree chain (.head rest) held hheld) newText
    -- What was done at the chain is no obstacle for the others.
    have hlater : ∀ other ∈ rest, ∀ held ∈
        (draft.rewriteType (Lookups.build bindings rules).1 chain).edits.held,
        marks.Within (· ≠ other) held := by
      intro other hother held hheld
      rw [hedits] at hheld
      rcases List.mem_append.mp hheld with hheld | hheld
      · exact hfree other (.tail chain hother) held hheld
      · refine within_imp (within_typeEdit? hmem (Option.mem_toList.mp hheld)) ?_
        rintro _ rfl rfl
        exact hnew hother
    obtain ⟨hheld, hrecorded, hcounted⟩ :=
      ih _ (fun other hother => hchains other (.tail chain hother)) hrest hlater
    simp only [List.filterMap_eq_flatMap_toList, List.flatMap_cons, recordMatches_append,
      afterTypes_append, ← List.append_assoc] at hheld hrecorded hcounted ⊢
    rw [List.foldl_cons, hheld, hrecorded, hcounted, hedits, hbindings, hreport]
    exact ⟨rfl, rfl, rfl⟩

/-- Among edits at names and others that do not touch a name, the name reads as its edit says, or
as before when it has none. -/
theorem reads_typeName (hplaced : marks.Placed body lo hi) {edits : Edits}
    (hconsistent : edits.Consistent) {others : List Edit} {chains : List Chain}
    (hheld : edits.held = others ++ chains.filterMap (·.typeEdit? bindings rules))
    (hchains : ∀ chain ∈ chains, chain ∈ marks.chains) {chain : Chain} (hchain : chain ∈ chains)
    (hfree : ∀ edit ∈ others, marks.Within (· ≠ chain) edit) :
    edits.Reads body chain.span
      (((chain.typeEdit? bindings rules).map Edit.newText).getD (body.slice chain.span)) := by
  have hmem := hchains chain hchain
  have hspan := (hplaced.chains chain hmem).start_lt_stop
  cases hedit : chain.typeEdit? bindings rules with
  | some edit =>
    have hin : edit ∈ edits.held := by
      rw [hheld]
      exact List.mem_append_right _ (List.mem_filterMap.mpr ⟨chain, hchain, hedit⟩)
    have hsame := Chain.span_of_typeEdit? hedit
    rw [← hsame] at hspan ⊢
    exact hconsistent.reads_held body hin hspan
  | none =>
    refine hconsistent.reads_untouched body hspan fun edit hin => ?_
    refine hplaced.not_overlaps_chain hmem ?_ []
    rw [hheld] at hin
    rcases List.mem_append.mp hin with hin | hin
    · exact hfree edit hin
    · obtain ⟨other, hother, hedited⟩ := List.mem_filterMap.mp hin
      refine within_imp (within_typeEdit? (hchains other hother) hedited) ?_
      rintro _ rfl rfl
      rw [hedit] at hedited
      cases hedited

end Draft

/-! ## The stage -/

section Stage

variable {draft : Draft} {body : Text} {program : Program} {functions rules : List Rule}

namespace Draft

/-- Behind the stage of calls, no edit touches a name of a type. -/
theorem within_other_type (hplaced : program.Placed body) (hedits : draft.edits.held = [])
    {chain : Chain} (hchain : chain ∈ allTypeChains program.items) {edit : Edit}
    (hheld : edit ∈ (draft.rewriteCalls body program functions).edits.held) :
    (allLandmarks program.items).Within (· ≠ chain) edit := by
  have hstage : draft.Continues
      ((allLandmarks program.items).Within (· ∈ allCallChains program.items)) .any
      (draft.rewriteCalls body program functions) :=
    continues_rewriteCalls_within hplaced.landmarks (allows_any functions)
      fun other hother _ _ _ => hother
  have hcalls := hstage.forall_held (by simp [hedits]) (fun _ h => h) edit hheld
  refine within_imp hcalls fun other hother => ?_
  rintro rfl
  exact not_type_of_call hplaced.landmarks hother hchain

/-- **What the stage of types does.**  Let the stage of calls have dealt with a program that was
read from a text.  Then the stage of types adds the edits at the names of types, in their order
and none of them refused; the bindings record the matches, and the report counts those that change
something.  Every name reads as the target of its replacement, or as before where there is none
or it changes nothing.  Where no bound name and no source of a rule has a dot, the replacement is
the first one whose source has the names of the chain. -/
theorem rewriteTypes_replaces_names {dialect : Dialect}
    (hread : Program.read? dialect body = some program) (hedits : draft.edits.held = [])
    (functions rules : List Rule) :
    let called := draft.rewriteCalls body program functions
    let after := called.rewriteTypes program rules
    let found := program.typeNames.filterMap (·.typeReplacement? called.bindings rules)
    after.edits.held =
        called.edits.held ++ program.typeNames.filterMap (·.typeEdit? called.bindings rules) ∧
      after.edits.Consistent ∧
      after.bindings = called.bindings.recordMatches found ∧
      (∀ replacement ∈ found, after.bindings.Recorded replacement.origin) ∧
      after.report = called.report.afterTypes found ∧
      (∀ chain ∈ program.typeNames, after.edits.Reads body chain.span
        (((chain.typeEdit? called.bindings rules).map Edit.newText).getD
          (body.slice chain.span))) ∧
      (NoDots called.bindings rules → ∀ chain ∈ program.typeNames,
        chain.typeReplacement? called.bindings rules =
          chain.replacement? called.bindings rules) := by
  intro called after found
  have hplaced := Program.placed_of_read hread
  have hnames := Program.typeNames_eq (Program.allWellNamed_of_read hread)
  have hmem : ∀ chain ∈ program.typeNames, chain ∈ (allLandmarks program.items).chains :=
    fun chain hchain => mem_chains_of_type (hnames ▸ hchain)
  have hnodup : program.typeNames.Nodup :=
    hnames ▸ (List.nodup_append.mp (nodup_sites hplaced.landmarks)).2.1
  have hfree : ∀ chain ∈ program.typeNames, ∀ held ∈ called.edits.held,
      (allLandmarks program.items).Within (· ≠ chain) held :=
    fun chain hchain held hheld => within_other_type hplaced hedits (hnames ▸ hchain) hheld
  have hafter : after = program.typeNames.foldl
      (rewriteType (Lookups.build called.bindings rules).1)
      (called.addNotes (Lookups.build called.bindings rules).2) := by
    rw [hnames]
    exact rewriteTypes_eq_foldl
  obtain ⟨hheld, hbindings, hreport⟩ := foldl_rewriteType
    (called.addNotes (Lookups.build called.bindings rules).2) called.bindings rules
    hplaced.landmarks hmem hnodup hfree
  rw [← hafter] at hheld hbindings hreport
  have hstage : called.Continues ((allLandmarks program.items).Within fun _ => True) .any after :=
    continues_rewriteTypes_within (allows_any rules) fun _ _ _ _ _ => trivial
  have hconsistent : after.edits.Consistent := hstage.consistent
    (consistent_rewriteCalls functions hplaced (Edits.consistent_of_held_eq_nil hedits))
  have hrecorded : ∀ replacement ∈ found, after.bindings.Recorded replacement.origin := by
    intro replacement hreplacement
    obtain ⟨chain, hchain, hfound⟩ := List.mem_filterMap.mp hreplacement
    exact (rewriteTypes_replaces hplaced.landmarks (allows_any rules) (hnames ▸ hchain)
      (Lookups.find?_build_eq_find?.trans hfound) (hfree chain hchain)).1
  exact ⟨hheld, hconsistent, hbindings, hrecorded, hreport,
    fun chain hchain =>
      reads_typeName hplaced.landmarks hconsistent hheld hmem hchain (hfree chain hchain),
    fun hdots chain hchain =>
      Chain.typeReplacement?_eq hdots (hplaced.landmarks.chains chain (hmem chain hchain))⟩

end Draft

end Stage

/-- A file with types in the type arguments of others, of which some are known. -/
private def nestedTypes : Text :=
  ("let a: Map<teams.Context, teams.X<teams.FrameContext>> = teams.getContext();\n" ++
    "class B implements teams.Context \x7b\x7d\n").toList

/-- The file with its types and its call replaced. -/
private def replacedTypes : Text :=
  ("let a: Map<teams.app.Context, teams.X<teams.FrameInfo>> = teams.app.getContext();\n" ++
    "class B implements teams.app.Context \x7b\x7d\n").toList

private theorem nestedTypes_facts :
    ∃ program ∈ Program.read? ⟨true, false, true⟩ nestedTypes,
      let called := namespaceDraft.rewriteCalls nestedTypes program BuiltIn.functions
      let after := called.rewriteTypes program BuiltIn.interfaces
      after.report = { rewrittenCalls := 1, rewrittenTypes := 3 } ∧
        after.edits.apply nestedTypes = replacedTypes := by
  decide +kernel

/-- Three names of types are replaced, two of them in the type arguments of types that are not
known. -/
theorem nestedTypes_replaced :
    ∃ program, Program.read? ⟨true, false, true⟩ nestedTypes = some program ∧
      namespaceDraft.edits.held = [] ∧
      let called := namespaceDraft.rewriteCalls nestedTypes program BuiltIn.functions
      let after := called.rewriteTypes program BuiltIn.interfaces
      let found := program.typeNames.filterMap
        (·.typeReplacement? called.bindings BuiltIn.interfaces)
      after.edits.held = called.edits.held ++
          program.typeNames.filterMap (·.typeEdit? called.bindings BuiltIn.interfaces) ∧
        (∀ replacement ∈ found, after.bindings.Recorded replacement.origin) ∧
        after.report = called.report.afterTypes found ∧
        after.report = { rewrittenCalls := 1, rewrittenTypes := 3 } ∧
        after.edits.apply nestedTypes = replacedTypes := by
  obtain ⟨program, hread, hreport, htext⟩ := nestedTypes_facts
  have hedits : namespaceDraft.edits.held = [] := rfl
  obtain ⟨hheld, -, -, hrecorded, hcounted, -, -⟩ :=
    Draft.rewriteTypes_replaces_names hread hedits BuiltIn.functions BuiltIn.interfaces
  exact ⟨program, hread, hedits, hheld, hrecorded, hcounted, hreport, htext⟩

end SdkMigration
