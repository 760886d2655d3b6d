import SdkMigration.Proofs.References
import SdkMigration.Proofs.Stages.Enums

/-!
# References that match no rule

Where no reference of a file matches a rule, the stages that rewrite references record
no match, and the stage of leftovers finds nothing to look for.  The file is left with
the bindings that its declarations make (`Program.Unmatched.bindings_finalDraft`), an
alias for the global name being dropped again.

The stage of enumerations walks over the tree, so `Tree.rewriteEnums_unmatched` has a
case for every form of a tree.  The other two stages walk over lists.
-/

namespace SdkMigration

theorem enumSite_iff {bindings : Bindings} {rules : List Rule} {chain : Chain} :
    EnumSite bindings rules chain ↔
      (∃ replacement ∈ (Lookups.build bindings rules).1.find? chain.names,
        replacement.isIdentity = false) ∨
      (∃ rule ∈ rules, rule.source.last = chain.last.name ∧ chain.rest ≠ [] ∧
        ∃ whole ∈ bindings.whole, whole.name = chain.root) ∨
      ∃ rule ∈ rules, rule.source.rest ≠ [] ∧ chain.rest = [] ∧
        ∃ named ∈ bindings.named, rule.source.last = named.exported ∧
          named.localName = chain.root := by
  constructor
  · intro h
    cases h with
    | exact found changes => exact Or.inl ⟨_, found, changes⟩
    | aliased mem last behind bound name =>
      exact Or.inr (Or.inl ⟨_, mem, last, behind, _, bound, name⟩)
    | named mem longer last single bound name =>
      exact Or.inr (Or.inr ⟨_, mem, longer, single, _, bound, last, name⟩)
  · rintro (⟨_, found, changes⟩ | ⟨_, mem, last, behind, _, bound, name⟩ |
      ⟨_, mem, longer, single, _, bound, last, name⟩)
    · exact .exact found changes
    · exact .aliased mem last behind bound name
    · exact .named mem longer last single bound name

instance (bindings : Bindings) (rules : List Rule) (chain : Chain) :
    Decidable (EnumSite bindings rules chain) := decidable_of_iff _ enumSite_iff.symm

/-- Whether no reference of a program matches a rule: no call and no name of a type is
looked up with success, and none names an enumeration.  The last two are asked only
where the dialect has types. -/
structure Program.Unmatched (program : Program) (dialect : Dialect) (bindings : Bindings)
    (mappings : MappingTable) : Prop where
  calls : ∀ chain ∈ allCallChains program.items,
    (Lookups.build bindings mappings.functions).1.find? chain.names = none
  types : dialect.types = true → ∀ chain ∈ allTypeChains program.items,
    (Lookups.build bindings mappings.interfaces).1.find? chain.names = none
  enums : dialect.types = true → ∀ chain ∈ allReferences program.items,
    ¬EnumSite bindings mappings.enums chain

instance (program : Program) (dialect : Dialect) (bindings : Bindings) (mappings : MappingTable) :
    Decidable (program.Unmatched dialect bindings mappings) :=
  decidable_of_iff
    ((∀ chain ∈ allCallChains program.items,
        (Lookups.build bindings mappings.functions).1.find? chain.names = none) ∧
      (dialect.types = true → ∀ chain ∈ allTypeChains program.items,
        (Lookups.build bindings mappings.interfaces).1.find? chain.names = none) ∧
      (dialect.types = true → ∀ chain ∈ allReferences program.items,
        ¬EnumSite bindings mappings.enums chain))
    ⟨fun ⟨hcalls, htypes, henums⟩ => ⟨hcalls, htypes, henums⟩,
      fun h => ⟨h.calls, h.types, h.enums⟩⟩

namespace Draft

variable {draft : Draft} {body : Text} {rules : List Rule} {chain : Chain} {program : Program}

/-! ## Calls and types -/

theorem bindings_rewriteCall {lookups : Lookups} {visit : Visit}
    (h : ∀ chain, visit.chain? = some chain → lookups.find? chain.names = none) :
    (draft.rewriteCall body lookups visit).bindings = draft.bindings := by
  cases visit with
  | identifier id around => rfl
  | call site around =>
    cases hchain : site.callee.chain? with
    | none => simp only [rewriteCall, hchain]
    | some chain =>
      simp only [rewriteCall, hchain, h chain hchain]
      split <;> rfl

theorem bindings_rewriteCalls (body : Text) (h : ∀ chain ∈ allCallChains program.items,
      (Lookups.build draft.bindings rules).1.find? chain.names = none) :
    (draft.rewriteCalls body program rules).bindings = draft.bindings := by
  unfold rewriteCalls
  split
  · rfl
  · refine List.foldlRecOn (motive := fun later : Draft => later.bindings = draft.bindings) _ _ rfl
      fun later hlater visit hvisit => ?_
    refine (bindings_rewriteCall fun chain hchain => h chain ?_).trans hlater
    rw [← stops_chains (Lookups.build draft.bindings rules).1 program]
    exact List.mem_filterMap.mpr ⟨visit, hvisit, hchain⟩

theorem bindings_rewriteTypes (h : ∀ chain ∈ allTypeChains program.items,
      (Lookups.build draft.bindings rules).1.find? chain.names = none) :
    (draft.rewriteTypes program rules).bindings = draft.bindings := by
  unfold rewriteTypes
  split
  · rfl
  · refine List.foldlRecOn (motive := fun later : Draft => later.bindings = draft.bindings) _ _ rfl
      fun later hlater chain hchain => ?_
    change (rewriteType (Lookups.build draft.bindings rules).1 later chain).bindings = _
    rw [rewriteType, h chain hchain]
    exact hlater

/-! ## Enumerations -/

theorem rewriteExactEnum_unmatched (body : Text)
    (h : ∀ replacement, (Lookups.build draft.bindings rules).1.find? chain.names =
      some replacement → replacement.isIdentity = true) :
    (draft.rewriteExactEnum (enumRules body draft.bindings rules) chain).1 = draft := by
  unfold rewriteExactEnum
  split
  · cases hfound : (Lookups.build draft.bindings rules).1.find? chain.names with
    | none => rfl
    | some replacement => simp only [h replacement hfound, if_true]
  · rfl

/-- A chain that names no enumeration is the source of no rule that changes it. -/
theorem isIdentity_of_not_enumSite {bindings : Bindings} (h : ¬EnumSite bindings rules chain)
    (replacement : Replacement)
    (hfound : (Lookups.build bindings rules).1.find? chain.names = some replacement) :
    replacement.isIdentity = true := by
  rw [← Bool.not_eq_false]
  exact fun hidentity => h (.exact hfound hidentity)

theorem rewriteAliasedEnum_unmatched (h : ¬EnumSite draft.bindings rules chain) {index : Nat}
    (hindex : draft.bindings.wholeIndex? chain.root = some index) :
    (draft.rewriteAliasedEnum (enumRules body draft.bindings rules) chain index).1 = draft := by
  unfold rewriteAliasedEnum
  cases hrest : chain.rest with
  | nil => rfl
  | cons second others =>
    cases hrule : ruleEndingWith? rules chain.last.name with
    | none => rfl
    | some rule =>
      obtain ⟨hmem, hlast⟩ := mem_of_ruleEndingWith? hrule
      obtain ⟨whole, hwhole, hname⟩ := Bindings.whole_of_wholeIndex? hindex
      exact absurd (.aliased hmem hlast (by simp [hrest]) (List.mem_of_getElem? hwhole) hname) h

theorem rewriteNamedEnum_unmatched (h : ¬EnumSite draft.bindings rules chain) :
    (draft.rewriteNamedEnum (enumRules body draft.bindings rules) chain).1 = draft := by
  unfold rewriteNamedEnum
  split
  case h_2 => rfl
  case h_1 index hrest hindex =>
    obtain ⟨named, hnamed, hname⟩ := Bindings.named_of_namedIndex? hindex
    simp only [hnamed, Option.map_some, Option.bind_some]
    cases hrule : ruleEndingWith? rules named.exported with
    | none => rfl
    | some rule =>
      obtain ⟨hmem, hlast⟩ := mem_of_ruleEndingWith? hrule
      simp only
      split
      · rfl
      · rename_i hlonger
        have hlonger' : rule.source.rest ≠ [] := by simpa using hlonger
        exact absurd (.named hmem hlonger' hlast hrest (List.mem_of_getElem? hnamed) hname) h

theorem rewriteEnum_unmatched (h : ¬EnumSite draft.bindings rules chain) :
    (draft.rewriteEnum (enumRules body draft.bindings rules) chain).1 = draft := by
  unfold rewriteEnum
  split
  · have hexact := rewriteExactEnum_unmatched body (isIdentity_of_not_enumSite h)
    generalize draft.rewriteExactEnum (enumRules body draft.bindings rules) chain = result
      at hexact ⊢
    obtain ⟨next, done⟩ := result
    obtain rfl : next = draft := hexact
    cases done with
    | true => rfl
    | false =>
      simp only [Bool.false_eq_true, if_false]
      cases hindex : next.bindings.wholeIndex? chain.root with
      | some index => exact rewriteAliasedEnum_unmatched h hindex
      | none => exact rewriteNamedEnum_unmatched h
  · rfl

theorem rewriteEnumTree_unmatched (body : Text) {tree : Tree}
    (h : ∀ chain ∈ tree.chain?.toList, ¬EnumSite draft.bindings rules chain) :
    (draft.rewriteEnumTree (enumRules body draft.bindings rules) tree).1 = draft := by
  unfold rewriteEnumTree
  cases hchain : tree.chain? with
  | none => rfl
  | some chain => exact rewriteEnum_unmatched (h chain (Option.mem_toList.mpr hchain))

theorem rewriteWholeMember_unmatched {span : Span} {object : Tree} {optional : Bool}
    {property : Identifier}
    (h : ∀ chain ∈ (Tree.member span object optional property).references,
      ¬EnumSite draft.bindings rules chain) :
    (draft.rewriteWholeMember (enumRules body draft.bindings rules) object property).1 =
      draft := by
  unfold rewriteWholeMember
  cases hchain : object.chain? with
  | none => rfl
  | some chain =>
    -- The question mark before the last name does not count for its names.
    have hnames : (chain.extend ⟨property.name, property.span, false⟩).names =
        (chain.extend ⟨property.name, property.span, optional⟩).names := by
      simp [Chain.names_eq, Chain.identifiers_extend]
    refine rewriteExactEnum_unmatched body fun replacement hfound => ?_
    rw [hnames] at hfound
    refine isIdentity_of_not_enumSite (h _ ?_) replacement hfound
    simp only [Tree.references, hchain]
    exact List.mem_cons_self

/-- The stage at an object goes on into its parts, which change nothing either. -/
private theorem unless_settled {result : Draft × Bool} (inner : Draft → Draft)
    (hresult : result.1 = draft) (hinner : inner draft = draft) :
    (if result.2 then result.1 else inner result.1) = draft := by
  rw [hresult]
  split
  · rfl
  · exact hinner

end Draft

variable {body : Text} {rules : List Rule}

open Draft

mutual

/-- The stage leaves the draft alone at a tree whose references name no enumeration. -/
theorem Tree.rewriteEnums_unmatched :
    ∀ (tree : Tree) (draft : Draft),
      (∀ chain ∈ tree.references, ¬EnumSite draft.bindings rules chain) →
      tree.rewriteEnums (enumRules body draft.bindings rules) draft = draft
  | .leaf _ _, _, _ => rfl
  | .text _ _, _, _ => rfl
  | .identifier _ _, _, _ => rfl
  | .binding _ type, draft, h => rewriteAllEnums_unmatched type draft h
  | .member span object optional property, draft, h => by
    have hparts := List.forall_mem_append.mp fun chain hmem =>
      h chain (references_object_subset span object optional property hmem)
    -- The access is tried as a whole, then its object, then the parts of the object.
    have hsecond := unless_settled (object.rewriteEnums (enumRules body draft.bindings rules))
      (rewriteEnumTree_unmatched body hparts.1)
      (Tree.rewriteEnums_unmatched object draft hparts.2)
    exact unless_settled (fun first =>
      if (first.rewriteEnumTree (enumRules body draft.bindings rules) object).2 then
        (first.rewriteEnumTree (enumRules body draft.bindings rules) object).1
      else object.rewriteEnums (enumRules body draft.bindings rules)
        (first.rewriteEnumTree (enumRules body draft.bindings rules) object).1)
      (rewriteWholeMember_unmatched h) hsecond
  | .call _ callee arguments typeArguments, draft, h => by
    obtain ⟨hrest, htypes⟩ := List.forall_mem_append.mp h
    obtain ⟨hrest, harguments⟩ := List.forall_mem_append.mp hrest
    obtain ⟨-, hcallee⟩ := List.forall_mem_append.mp hrest
    rw [Tree.rewriteEnums, Tree.rewriteEnums_unmatched callee draft hcallee,
      rewriteAllEnums_unmatched arguments draft harguments,
      rewriteAllEnums_unmatched typeArguments draft htypes]
  | .qualified _ left _, draft, h => by
    obtain ⟨hchain, hleft⟩ := List.forall_mem_append.mp h
    exact unless_settled (left.rewriteEnums _) (rewriteEnumTree_unmatched body hchain)
      (Tree.rewriteEnums_unmatched left draft hleft)
  | .typeReference _ name arguments, draft, h => by
    obtain ⟨hrest, harguments⟩ := List.forall_mem_append.mp h
    obtain ⟨hchain, hname⟩ := List.forall_mem_append.mp hrest
    have hsame := unless_settled (name.rewriteEnums _)
      (rewriteEnumTree_unmatched body hchain)
      (Tree.rewriteEnums_unmatched name draft hname)
    rw [Tree.rewriteEnums]
    simp only
    rw [hsame, rewriteAllEnums_unmatched arguments draft harguments]
  | .heritage _ value arguments, draft, h => by
    obtain ⟨hrest, harguments⟩ := List.forall_mem_append.mp h
    obtain ⟨-, hvalue⟩ := List.forall_mem_append.mp hrest
    rw [Tree.rewriteEnums, Tree.rewriteEnums_unmatched value draft hvalue,
      rewriteAllEnums_unmatched arguments draft harguments]
  | .declaration _ _ parts, draft, h => rewriteAllEnums_unmatched parts draft h
  | .importDeclaration _, _, _ => rfl
  | .importEquals _ module, draft, h => Tree.rewriteEnums_unmatched module draft h
  | .anchored _ _ inner, draft, h => Tree.rewriteEnums_unmatched inner draft h
  | .branch _ _ children, draft, h => rewriteAllEnums_unmatched children draft h

theorem rewriteAllEnums_unmatched :
    ∀ (trees : List Tree) (draft : Draft),
      (∀ chain ∈ allReferences trees, ¬EnumSite draft.bindings rules chain) →
      rewriteAllEnums (enumRules body draft.bindings rules) trees draft = draft
  | [], _, _ => rfl
  | tree :: rest, draft, h => by
    obtain ⟨htree, hrest⟩ := List.forall_mem_append.mp h
    rw [rewriteAllEnums, Tree.rewriteEnums_unmatched tree draft htree,
      rewriteAllEnums_unmatched rest draft hrest]

end

theorem Draft.bindings_rewriteEnums {draft : Draft} {program : Program}
    (h : ∀ chain ∈ allReferences program.items, ¬EnumSite draft.bindings rules chain) :
    (draft.rewriteEnums body program rules).bindings = draft.bindings := by
  unfold Draft.rewriteEnums
  split
  · rfl
  · have hnoted := @rewriteAllEnums_unmatched body rules program.items
      (draft.addNotes (Lookups.build draft.bindings rules).2) h
    change (rewriteAllEnums (enumRules body draft.bindings rules) program.items
      (draft.addNotes (Lookups.build draft.bindings rules).2)).bindings = draft.bindings
    exact (congrArg Draft.bindings hnoted).trans rfl

/-! ## The bindings in the end -/

theorem Bindings.settle_eq_self {bindings : Bindings}
    (h : ∀ whole ∈ bindings.whole, whole.tentative = false) : bindings.settle = bindings := by
  unfold settle
  rw [List.filter_eq_self.mpr fun whole hwhole => by rw [h whole hwhole]; rfl]

theorem droppedNames_eq_nil {named : List NamedImport} (h : ∀ entry ∈ named, entry.target = none)
    (index : Nat) : droppedNames index named = [] := by
  induction named generalizing index with
  | nil => rfl
  | cons first rest ih =>
    have hfirst : first.dropsLocalBinding = false := by
      rw [NamedImport.dropsLocalBinding, h first List.mem_cons_self]
    rw [droppedNames, hfirst]
    exact ih (fun entry hentry => h entry (List.mem_cons_of_mem _ hentry)) _

namespace Program.Unmatched

variable {options : MigrationOptions} {dialect : Dialect} {program : Program}

/-- The stages that rewrite references teach the bindings nothing. -/
theorem bindings_rewritten
    (h : program.Unmatched dialect (opened options body program).bindings options.mappings) :
    (rewritten options dialect body program).bindings =
      (opened options body program).bindings := by
  have hcalled := bindings_rewriteCalls body h.calls
  unfold rewritten rewriteReferences
  simp only
  split
  · rename_i htypes
    have htyped : ((opened options body program).rewriteCalls body program
        options.mappings.functions |>.rewriteTypes program options.mappings.interfaces).bindings =
          (opened options body program).bindings :=
      (bindings_rewriteTypes (hcalled.symm ▸ h.types htypes)).trans hcalled
    exact (bindings_rewriteEnums (htyped.symm ▸ h.enums htypes)).trans htyped
  · exact hcalled

/-- An alias for the global name is dropped again, so the file binds what it bound. -/
theorem bindings_referenceDraft
    (h : program.Unmatched dialect (opened options body program).bindings options.mappings) :
    (referenceDraft options dialect body program).bindings =
      (program.importSites body options.module options.globalName).bindings := by
  have hfound : ∀ whole ∈ (program.importSites body options.module
      options.globalName).bindings.whole, whole.tentative = false :=
    fun whole hwhole => (freshWhole_importSites hwhole).tentative
  -- The alias was never used, so it is dropped, and nothing else is tentative.
  have hsettled : (opened options body program).bindings.settle =
      (program.importSites body options.module options.globalName).bindings := by
    rcases @opened_bindings options body program with hsame | ⟨-, -, hadded⟩
    · rw [hsame, Bindings.settle_eq_self hfound]
    · rw [hadded, ← Bindings.settle_eq_self hfound]
      simp [Bindings.settle, Bindings.addWhole]
  simp only [referenceDraft]
  split
  · show (rewritten options dialect body program).bindings.settle = _
    rw [h.bindings_rewritten, hsettled]
  · rename_i huses
    rw [h.bindings_rewritten]
    exact opened_bindings.resolve_right fun hadded => huses hadded.1

/-- The file binds in the end what its declarations bind. -/
theorem bindings_finalDraft
    (h : program.Unmatched dialect (opened options body program).bindings options.mappings) :
    (finalDraft options dialect body program).bindings =
      (program.importSites body options.module options.globalName).bindings := by
  have htargets : ∀ named ∈ (referenceDraft options dialect body program).bindings.named,
      named.target = none := by
    rw [h.bindings_referenceDraft]
    exact fun named hnamed => (fresh_importSites hnamed).target
  rw [finalDraft_bindings, flagLeftovers, droppedNames_eq_nil htargets]
  exact h.bindings_referenceDraft

end Program.Unmatched

end SdkMigration
