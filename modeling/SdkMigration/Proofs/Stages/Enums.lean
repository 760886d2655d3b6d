import SdkMigration.Migration.Enums
import SdkMigration.Proofs.Stages.References

/-!
# The stage of enumerations

The stage goes through the trees of a program and looks at references.  It
replaces something only where a reference names an enumeration: the whole
chain, or the end of it behind an alias.
-/

namespace SdkMigration

/-- Whether a chain names an enumeration: it is the source of a rule, its last
name behind an alias is the last name of a rule's source, or it is a single
export whose name is the last name of a longer source. -/
inductive EnumSite (bindings : Bindings) (rules : List Rule) (chain : Chain) : Prop where
  | exact {replacement : Replacement}
    (found : (Lookups.build bindings rules).1.find? chain.names = some replacement)
    (changes : replacement.isIdentity = false)
  | aliased {rule : Rule} {whole : WholeImport} (mem : rule ∈ rules)
    (last : rule.source.last = chain.last.name) (behind : chain.rest ≠ [])
    (bound : whole ∈ bindings.whole) (name : whole.name = chain.root)
  | named {rule : Rule} {named : NamedImport} (mem : rule ∈ rules)
    (longer : rule.source.rest ≠ []) (last : rule.source.last = named.exported)
    (single : chain.rest = []) (bound : named ∈ bindings.named)
    (name : named.localName = chain.root)

/-- Whether a span is that of a chain or of an end of the chain that leaves its
first name out. -/
inductive Chain.HasPart (chain : Chain) : Span → Prop where
  | whole : HasPart chain chain.span
  | tail {segment : Segment} (mem : segment ∈ chain.rest) :
    HasPart chain (Span.between segment.span.start chain.span.stop)

/-- A part of a chain lies inside it. -/
theorem Chain.HasPart.inside {chain : Chain} {span : Span} (h : chain.HasPart span) {body : Text}
    {lo hi : Nat} (hplaced : chain.Placed body lo hi) :
    chain.span.start ≤ span.start ∧ span.stop ≤ chain.span.stop := by
  cases h with
  | whole => exact ⟨Nat.le_refl _, Nat.le_refl _⟩
  | @tail segment mem =>
    have hsegment : segment ∈ chain.segments := List.mem_cons_of_mem _ mem
    have hstop := (hplaced.to_stop.segment hsegment).2.2
    have hlt := segment.span.start_le_stop
    exact ⟨hplaced.head_le hsegment, Nat.max_le.mpr ⟨by omega, Nat.le_refl _⟩⟩

/-- A part of a chain is not empty. -/
theorem Chain.HasPart.start_lt_stop {chain : Chain} {span : Span} (h : chain.HasPart span)
    {body : Text} {lo hi : Nat} (hplaced : chain.Placed body lo hi) : span.start < span.stop := by
  cases h with
  | whole => exact hplaced.start_lt_stop
  | @tail segment mem =>
    obtain ⟨hname, -, hstop⟩ := hplaced.to_stop.segment (List.mem_cons_of_mem _ mem)
    have hlt := hname.start_lt_stop
    exact Nat.lt_of_lt_of_le (Nat.lt_of_lt_of_le hlt hstop) (Nat.le_max_right _ _)

/-- Whether the targets of rules for enumerations are ones that an export may
learn, also when the name of the export is the last of a longer source. -/
structure AllowsEnums (lessons : Lessons) (rules : List Rule) : Prop where
  first : Allows lessons rules
  last : ∀ rule ∈ rules, rule.source.rest ≠ [] → lessons.targets rule.source.last rule.target.first

theorem allowsEnums_any (rules : List Rule) : AllowsEnums .any rules :=
  ⟨allows_any rules, fun _ _ _ => trivial⟩

namespace Bindings

theorem whole_of_wholeIndex? {bindings : Bindings} {name : String} {index : Nat}
    (h : bindings.wholeIndex? name = some index) :
    ∃ whole, bindings.whole[index]? = some whole ∧ whole.name = name := by
  obtain ⟨hindex, hname, _⟩ := List.findIdx?_eq_some_iff_getElem.mp h
  exact ⟨bindings.whole[index], List.getElem?_eq_getElem hindex, beq_iff_eq.mp hname⟩

theorem named_of_namedIndex? {bindings : Bindings} {name : String} {index : Nat}
    (h : bindings.namedIndex? name = some index) :
    ∃ named, bindings.named[index]? = some named ∧ named.localName = name := by
  obtain ⟨hindex, hname, _⟩ := List.findIdx?_eq_some_iff_getElem.mp h
  exact ⟨bindings.named[index], List.getElem?_eq_getElem hindex, beq_iff_eq.mp hname⟩

end Bindings

theorem mem_of_ruleEndingWith? {rules : List Rule} {name : String} {rule : Rule}
    (h : ruleEndingWith? rules name = some rule) : rule ∈ rules ∧ rule.source.last = name :=
  ⟨List.mem_of_find?_eq_some h, by simpa using List.find?_some h⟩

namespace Draft

section Chains

variable {lessons : Lessons} {allowed : Edit → Prop} {body : Text}
  {bindings : Bindings} {rules : List Rule} {draft : Draft} {chain : Chain}

/-- What the stage looks up in a file with the given bindings. -/
abbrev enumRules (body : Text) (bindings : Bindings) (rules : List Rule) : EnumRules :=
  ⟨body, (Lookups.build bindings rules).1, rules⟩

theorem continues_replaceEnum {span : Span} {newText : Text} {origin : Origin}
    {target : NamePath} (hallowed : allowed ⟨span, newText⟩)
    (hmoves : ∀ index named, origin = .named index → draft.bindings.named[index]? = some named →
      lessons.targets named.exported target.first) :
    draft.Continues allowed lessons (draft.replaceEnum body span newText origin target).1 := by
  unfold replaceEnum
  split
  · exact .refl draft
  · have hedited : draft.Continues allowed lessons (draft.tryEdit ⟨span, newText⟩).1 :=
      continues_tryEdit hallowed
    have hbindings : (draft.tryEdit ⟨span, newText⟩).1.bindings = draft.bindings := by
      unfold tryEdit
      split <;> rfl
    generalize draft.tryEdit ⟨span, newText⟩ = result at hedited hbindings ⊢
    obtain ⟨edited, done⟩ := result
    cases done with
    | false => exact hedited
    | true =>
      simp only [if_true]
      refine hedited.trans ((continues_count _).trans (continues_recordMatch ?_))
      intro index named horigin hnamed
      have hnamed' : edited.bindings.named[index]? = some named := hnamed
      rw [hbindings] at hnamed'
      exact hmoves index named horigin hnamed'

theorem continues_rewriteExactEnum (hallows : AllowsEnums lessons rules)
    (hlearns : bindings.Learns lessons draft.bindings)
    (hreplace : ∀ replacement,
      (Lookups.build bindings rules).1.find? chain.names = some replacement →
      replacement.isIdentity = false →
      allowed ⟨chain.span, chain.render replacement.target⟩) :
    draft.Continues allowed lessons
      (draft.rewriteExactEnum (enumRules body bindings rules) chain).1 := by
  unfold rewriteExactEnum
  split
  · cases hfound : (Lookups.build bindings rules).1.find? chain.names with
    | none => exact .refl draft
    | some replacement =>
      simp only
      cases hidentity : replacement.isIdentity with
      | true => exact .refl draft
      | false =>
        simp only [Bool.false_eq_true, if_false]
        refine continues_replaceEnum (hreplace replacement hfound hidentity) fun _ _ => ?_
        exact moves_of_replacement hallows.first (Lookups.mem_of_find?_build hfound) hlearns
  · exact .refl draft

/-- The end of a chain that a rule stands for leaves out the first name. -/
theorem hasPart_suffix (hrest : chain.rest ≠ []) (rule : Rule) :
    chain.HasPart (Span.between (suffixStart chain rule) chain.span.stop) := by
  unfold suffixStart
  have hindex : 1 ≤ max (chain.names.length - rule.source.names.length) 1 := Nat.le_max_right _ _
  generalize max (chain.names.length - rule.source.names.length) 1 = index at hindex ⊢
  show chain.HasPart (Span.between ((chain.segments[index]?).getD chain.last).span.start _)
  refine .tail ?_
  obtain ⟨before, rfl⟩ := Nat.exists_eq_add_of_le' hindex
  show (chain.rest[before]?).getD (chain.rest.getLast?.getD chain.head) ∈ chain.rest
  cases hsegment : chain.rest[before]? with
  | some segment => exact List.mem_of_getElem? hsegment
  | none =>
    rw [List.getLast?_eq_some_getLast hrest]
    exact List.getLast_mem hrest

theorem continues_rewriteAliasedEnum {index : Nat}
    (hlearns : bindings.Learns lessons draft.bindings)
    (hindex : draft.bindings.wholeIndex? chain.root = some index)
    (hallowed : EnumSite bindings rules chain → ∀ edit : Edit, chain.HasPart edit.span →
      allowed edit) :
    draft.Continues allowed lessons
      (draft.rewriteAliasedEnum (enumRules body bindings rules) chain index).1 := by
  unfold rewriteAliasedEnum
  cases hrest : chain.rest with
  | nil => exact .refl draft
  | cons second others =>
    cases hrule : ruleEndingWith? rules chain.last.name with
    | none => exact .refl draft
    | some rule =>
      simp only
      split
      · exact .refl draft
      · obtain ⟨hmem, hlast⟩ := mem_of_ruleEndingWith? hrule
        obtain ⟨learned, hlearned, hname⟩ := Bindings.whole_of_wholeIndex? hindex
        obtain ⟨whole, hwhole, hsame⟩ := hlearns.whole_before hlearned
        have hbehind : chain.rest ≠ [] := by simp [hrest]
        have hsite : EnumSite bindings rules chain :=
          .aliased hmem hlast hbehind (List.mem_of_getElem? hwhole) (hsame.name.symm.trans hname)
        exact continues_replaceEnum (hallowed hsite _ (hasPart_suffix hbehind rule))
          fun _ _ h => by cases h

theorem continues_rewriteNamedEnum (hallows : AllowsEnums lessons rules)
    (hlearns : bindings.Learns lessons draft.bindings)
    (hallowed : EnumSite bindings rules chain → ∀ edit : Edit, chain.HasPart edit.span →
      allowed edit) :
    draft.Continues allowed lessons
      (draft.rewriteNamedEnum (enumRules body bindings rules) chain).1 := by
  unfold rewriteNamedEnum
  split
  case h_2 => exact .refl draft
  case h_1 index hrest hindex =>
    obtain ⟨learned, hlearned, hname⟩ := Bindings.named_of_namedIndex? hindex
    obtain ⟨named, hnamed, hsame⟩ := hlearns.named_before hlearned
    simp only [hlearned, Option.map_some, Option.bind_some]
    cases hrule : ruleEndingWith? rules learned.exported with
    | none => exact .refl draft
    | some rule =>
      obtain ⟨hmem, hlast⟩ := mem_of_ruleEndingWith? hrule
      simp only
      split
      · exact .refl draft
      · rename_i hlonger
        have hlonger' : rule.source.rest ≠ [] := by simpa using hlonger
        have hsite : EnumSite bindings rules chain :=
          .named hmem hlonger' (hlast.trans hsame.exported) hrest (List.mem_of_getElem? hnamed)
            (hsame.localName.symm.trans hname)
        refine continues_replaceEnum (hallowed hsite _ .whole) fun other found horigin hfound => ?_
        obtain rfl := Origin.named.inj horigin
        rw [hlearned] at hfound
        obtain rfl := Option.some.inj hfound
        rw [← hlast]
        exact hallows.last rule hmem hlonger'

theorem continues_rewriteEnum (hallows : AllowsEnums lessons rules)
    (hlearns : bindings.Learns lessons draft.bindings)
    (hallowed : EnumSite bindings rules chain → ∀ edit : Edit, chain.HasPart edit.span →
      allowed edit) :
    draft.Continues allowed lessons
      (draft.rewriteEnum (enumRules body bindings rules) chain).1 := by
  unfold rewriteEnum
  split
  · have hexact : draft.Continues allowed lessons
        (draft.rewriteExactEnum (enumRules body bindings rules) chain).1 :=
      continues_rewriteExactEnum hallows hlearns fun _ hfound hidentity =>
        hallowed (.exact hfound hidentity) _ .whole
    generalize draft.rewriteExactEnum (enumRules body bindings rules) chain = result at hexact ⊢
    obtain ⟨next, done⟩ := result
    cases done with
    | true => exact hexact
    | false =>
      simp only [Bool.false_eq_true, if_false]
      have hnext := hlearns.trans hexact.bindings
      cases hindex : next.bindings.wholeIndex? chain.root with
      | some index =>
        exact hexact.trans (continues_rewriteAliasedEnum hnext hindex hallowed)
      | none => exact hexact.trans (continues_rewriteNamedEnum hallows hnext hallowed)
  · exact .refl draft

end Chains

/-! ## Trees -/

section Trees

variable {lessons : Lessons} {allowed : Edit → Prop} {body : Text} {bindings : Bindings}
  {rules : List Rule} {draft : Draft}

/-- Whether parts of chains that name an enumeration may be replaced. -/
def MayReplace (allowed : Edit → Prop) (bindings : Bindings) (rules : List Rule)
    (chains : List Chain) : Prop :=
  ∀ chain ∈ chains, EnumSite bindings rules chain → ∀ edit : Edit, chain.HasPart edit.span →
    allowed edit

theorem MayReplace.mono {chains others : List Chain}
    (h : MayReplace allowed bindings rules others) (hsubset : chains ⊆ others) :
    MayReplace allowed bindings rules chains :=
  fun chain hchain => h chain (hsubset hchain)

theorem MayReplace.left {chains others : List Chain}
    (h : MayReplace allowed bindings rules (chains ++ others)) :
    MayReplace allowed bindings rules chains := h.mono (List.subset_append_left _ _)

theorem MayReplace.right {chains others : List Chain}
    (h : MayReplace allowed bindings rules (chains ++ others)) :
    MayReplace allowed bindings rules others := h.mono (List.subset_append_right _ _)

theorem continues_rewriteEnumTree (body : Text) (hallows : AllowsEnums lessons rules) {tree : Tree}
    (hmay : MayReplace allowed bindings rules tree.chain?.toList)
    (hlearns : bindings.Learns lessons draft.bindings) :
    draft.Continues allowed lessons
      (draft.rewriteEnumTree (enumRules body bindings rules) tree).1 := by
  unfold rewriteEnumTree
  cases hchain : tree.chain? with
  | none => exact .refl draft
  | some chain =>
    exact continues_rewriteEnum hallows hlearns (hmay chain (Option.mem_toList.mpr hchain))

theorem continues_rewriteWholeMember (body : Text) (hallows : AllowsEnums lessons rules)
    {span : Span} {object : Tree} {optional : Bool} {property : Identifier}
    (hmay : MayReplace allowed bindings rules
      (Tree.member span object optional property).references)
    (hlearns : bindings.Learns lessons draft.bindings) :
    draft.Continues allowed lessons
      (draft.rewriteWholeMember (enumRules body bindings rules) object property).1 := by
  unfold rewriteWholeMember
  cases hchain : object.chain? with
  | none => exact .refl draft
  | some chain =>
    -- The question mark before the last name counts neither for its names nor for its place.
    have hnames : (chain.extend ⟨property.name, property.span, false⟩).names =
        (chain.extend ⟨property.name, property.span, optional⟩).names := by
      simp [Chain.names_eq, Chain.identifiers_extend]
    have hspan : (chain.extend ⟨property.name, property.span, false⟩).span =
        (chain.extend ⟨property.name, property.span, optional⟩).span := by
      simp [Chain.span, Chain.extend, Chain.last]
    refine continues_rewriteExactEnum hallows hlearns fun replacement hfound hidentity => ?_
    rw [hnames] at hfound
    refine hmay _ ?_ (.exact hfound hidentity) _ ?_
    · simp only [Tree.references, hchain]
      exact List.mem_cons_self
    · rw [hspan]
      exact .whole

/-- The stage at an object goes on into its parts unless the object is settled. -/
private theorem continues_unless_settled {allowed : Edit → Prop} {draft : Draft}
    {result : Draft × Bool} (inner : Draft → Draft)
    (hresult : draft.Continues allowed lessons result.1)
    (hinner : result.1.Continues allowed lessons (inner result.1)) :
    draft.Continues allowed lessons (if result.2 then result.1 else inner result.1) := by
  split
  · exact hresult
  · exact hresult.trans hinner

end Trees

end Draft

variable {lessons : Lessons} {allowed : Edit → Prop} {body : Text} {bindings : Bindings}
  {rules : List Rule}

open Draft

/-- The references of an object are references of an access to it, and so is the object
itself. -/
theorem references_object_subset (span : Span) (object : Tree) (optional : Bool)
    (property : Identifier) : object.chain?.toList ++ object.references ⊆
      (Tree.member span object optional property).references := by
  simp only [Tree.references]
  split
  · rename_i chain hfound
    rw [hfound]
    exact List.subset_cons_self _ _
  · rename_i hnone
    rw [hnone]
    exact List.Subset.refl _

mutual

/-- The stage deals with a tree by replacing parts of its references. -/
theorem Tree.continues_rewriteEnums (hallows : AllowsEnums lessons rules) :
    ∀ (tree : Tree) (draft : Draft), MayReplace allowed bindings rules tree.references →
      bindings.Learns lessons draft.bindings →
      draft.Continues allowed lessons
        (tree.rewriteEnums (enumRules body bindings rules) draft)
  | .leaf _ _, draft, _, _ => .refl draft
  | .text _ _, draft, _, _ => .refl draft
  | .identifier _ _, draft, _, _ => .refl draft
  | .binding _ type, draft, hmay, hlearns =>
    continues_rewriteAllEnums hallows type draft hmay hlearns
  | .member span object optional property, draft, hmay, hlearns => by
    have hfirst := continues_rewriteWholeMember body hallows hmay hlearns
    have hobject := hmay.mono (references_object_subset span object optional property)
    have hsecond := continues_rewriteEnumTree body hallows hobject.left
      (hlearns.trans hfirst.bindings)
    have hrest := Tree.continues_rewriteEnums hallows object _ hobject.right
      (hlearns.trans (hfirst.bindings.trans hsecond.bindings))
    exact continues_unless_settled (fun first =>
      if (first.rewriteEnumTree (enumRules body bindings rules) object).2 then
        (first.rewriteEnumTree (enumRules body bindings rules) object).1
      else object.rewriteEnums (enumRules body bindings rules)
        (first.rewriteEnumTree (enumRules body bindings rules) object).1)
      hfirst (continues_unless_settled (object.rewriteEnums _) hsecond hrest)
  | .call _ callee arguments typeArguments, draft, hmay, hlearns => by
    have hcallee := Tree.continues_rewriteEnums hallows callee draft hmay.left.left.right hlearns
    have harguments := continues_rewriteAllEnums hallows arguments _ hmay.left.right
      (hlearns.trans hcallee.bindings)
    have htypes := continues_rewriteAllEnums hallows typeArguments _ hmay.right
      (hlearns.trans (hcallee.bindings.trans harguments.bindings))
    exact hcallee.trans (harguments.trans htypes)
  | .qualified _ left _, draft, hmay, hlearns => by
    have hfirst := continues_rewriteEnumTree body hallows hmay.left hlearns
    have hrest := Tree.continues_rewriteEnums hallows left _ hmay.right
      (hlearns.trans hfirst.bindings)
    exact continues_unless_settled (left.rewriteEnums _) hfirst hrest
  | .typeReference _ name arguments, draft, hmay, hlearns => by
    have hfirst := continues_rewriteEnumTree body hallows hmay.left.left hlearns
    have hrest := Tree.continues_rewriteEnums hallows name _ hmay.left.right
      (hlearns.trans hfirst.bindings)
    have hname := continues_unless_settled (name.rewriteEnums _) hfirst hrest
    exact hname.trans (continues_rewriteAllEnums hallows arguments _ hmay.right
      (hlearns.trans hname.bindings))
  | .heritage _ value arguments, draft, hmay, hlearns => by
    have hvalue := Tree.continues_rewriteEnums hallows value draft hmay.left.right hlearns
    exact hvalue.trans (continues_rewriteAllEnums hallows arguments _ hmay.right
      (hlearns.trans hvalue.bindings))
  | .declaration _ _ parts, draft, hmay, hlearns =>
    continues_rewriteAllEnums hallows parts draft hmay hlearns
  | .importDeclaration _, draft, _, _ => .refl draft
  | .importEquals _ module, draft, hmay, hlearns =>
    Tree.continues_rewriteEnums hallows module draft hmay hlearns
  | .anchored _ _ inner, draft, hmay, hlearns =>
    Tree.continues_rewriteEnums hallows inner draft hmay hlearns
  | .branch _ _ children, draft, hmay, hlearns =>
    continues_rewriteAllEnums hallows children draft hmay hlearns

theorem continues_rewriteAllEnums (hallows : AllowsEnums lessons rules) :
    ∀ (trees : List Tree) (draft : Draft),
      MayReplace allowed bindings rules (allReferences trees) →
      bindings.Learns lessons draft.bindings →
      draft.Continues allowed lessons
        (rewriteAllEnums (enumRules body bindings rules) trees draft)
  | [], draft, _, _ => .refl draft
  | tree :: rest, draft, hmay, hlearns => by
    have htree := Tree.continues_rewriteEnums hallows tree draft hmay.left hlearns
    exact htree.trans (continues_rewriteAllEnums hallows rest _ hmay.right
      (hlearns.trans htree.bindings))

end

/-- The stage of enumerations replaces parts of references that name an
enumeration. -/
theorem Draft.continues_rewriteEnums {program : Program} {draft : Draft}
    (hallows : AllowsEnums lessons rules)
    (hmay : MayReplace allowed draft.bindings rules (allReferences program.items)) :
    draft.Continues allowed lessons (draft.rewriteEnums body program rules) := by
  unfold Draft.rewriteEnums
  split
  · exact .refl draft
  · have hnoted : draft.Continues allowed lessons
        (draft.addNotes (Lookups.build draft.bindings rules).2) := continues_addNotes _
    exact hnoted.trans (continues_rewriteAllEnums hallows program.items _ hmay hnoted.bindings)

/-- The edits of the stage lie inside the chains of which a beginning names an
enumeration. -/
theorem Draft.continues_rewriteEnums_within {program : Program} {draft : Draft} {lo hi : Nat}
    {inside : Chain → Prop} (hplaced : (allLandmarks program.items).Placed body lo hi)
    (hallows : AllowsEnums lessons rules)
    (hinside : ∀ chain ∈ (allLandmarks program.items).chains, ∀ beginning : Chain,
      beginning.Begins chain → EnumSite draft.bindings rules beginning → inside chain) :
    draft.Continues ((allLandmarks program.items).Within inside) lessons
      (draft.rewriteEnums body program rules) := by
  refine Draft.continues_rewriteEnums hallows fun chain hchain hsite edit hpart => ?_
  obtain ⟨whole, hwhole, hbegins⟩ := allReferences_begun program.items chain hchain
  have hwholePlaced := hplaced.chains whole hwhole
  obtain ⟨hstart, hstop⟩ := hpart.inside (hbegins.placed hwholePlaced)
  refine .name hwhole (hinside whole hwhole chain hbegins hsite) ?_ ?_
  · rw [← hbegins.start_eq]
    exact hstart
  · exact Nat.le_trans hstop (hbegins.stop_le hwholePlaced)

end SdkMigration
