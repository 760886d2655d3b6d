import SdkMigration.Proofs.Checked.References
import SdkMigration.Proofs.TouchedText

/-!
# The stage of enumerations, with its checks

Every reference that the stage looks at stands in the text, name behind name.  So its place
can be read, and so can the place of the end that a rule stands for: that end starts with
one of the names behind the alias.  What is recorded is recorded for a binding that the
lookups were built from, or that is found by its name right before.
-/

namespace SdkMigration

/-! ## Chains -/

namespace Draft

/-- Where the end of a chain starts that a rule stands for. -/
def suffixStart? (chain : Chain) (rule : Rule) : Option Nat :=
  let index := max (chain.names.length - rule.source.names.length) 1
  if 1 ≤ index then (chain.segments[index]?).map (·.span.start) else none

/-- Replaces the part of a chain at a span, unless it reads like the new text already. -/
def replaceEnum? (draft : Draft) (text : Text) (span : Span) (newText : Text) (origin : Origin)
    (target : NamePath) : Option (Draft × Bool) := do
  let present ← text.slice? span.start span.stop
  if present = newText then return (draft, true)
  else
    let (edited, done) := draft.tryEdit ⟨span, newText⟩
    if done then
      let recorded ← (edited.count fun report =>
        { report with rewrittenEnums := report.rewrittenEnums + 1 }).recordMatch? origin target
      return (recorded, true)
    else return (edited, false)

/-- Replaces a chain that is the source of a rule. -/
def rewriteExactEnum? (draft : Draft) (rules : EnumRules) (chain : Chain) :
    Option (Draft × Bool) := do
  let root ← chain.root?
  if draft.bindings.tracks root then
    match rules.lookups.find? chain.names with
    | none => return (draft, false)
    | some replacement =>
      if replacement.isIdentity then return (draft, true)
      else
        let span ← chain.span?
        let newText ← chain.render? replacement.target
        draft.replaceEnum? rules.text span newText replacement.origin replacement.target
  else return (draft, false)

/-- Replaces the end of a chain behind an alias. -/
def rewriteAliasedEnum? (draft : Draft) (rules : EnumRules) (chain : Chain) (index : Nat) :
    Option (Draft × Bool) :=
  match chain.rest with
  | [] => some (draft, false)
  | _ => do
    let name ← chain.lastName?
    match ruleEndingWith? rules.rules name with
    | none => return (draft, false)
    | some rule =>
      let behind ← chain.names.tail?
      if rule.target.names.isSuffixOf behind then return (draft, false)
      else
        let start ← suffixStart? chain rule
        let whole ← chain.span?
        let span ← Span.ordered? start whole.stop
        draft.replaceEnum? rules.text span rule.target.dotted.toList (.whole index) rule.target

/-- Replaces a single name that is bound to the last name of a longer source. -/
def rewriteNamedEnum? (draft : Draft) (rules : EnumRules) (chain : Chain) :
    Option (Draft × Bool) :=
  match chain.rest, draft.bindings.namedIndex? chain.root with
  | [], some index =>
    let exported := (draft.bindings.named[index]?).map (·.exported)
    match exported.bind (ruleEndingWith? rules.rules) with
    | some rule =>
      if rule.source.rest.isEmpty then some (draft, false)
      else do
        let span ← chain.span?
        let newText ← chain.render? rule.target
        draft.replaceEnum? rules.text span newText (.named index) rule.target
    | none => some (draft, false)
  | _, _ => some (draft, false)

/-- Deals with a chain that may name an enumeration. -/
def rewriteEnum? (draft : Draft) (rules : EnumRules) (chain : Chain) : Option (Draft × Bool) := do
  let root ← chain.root?
  if draft.bindings.tracks root then
    let (next, done) ← draft.rewriteExactEnum? rules chain
    if done then return (next, true)
    else
      match next.bindings.wholeIndex? root with
      | some index => next.rewriteAliasedEnum? rules chain index
      | none => next.rewriteNamedEnum? rules chain
  else return (draft, false)

/-- Deals with the chain that a tree is, if it is one. -/
def rewriteEnumTree? (draft : Draft) (rules : EnumRules) (tree : Tree) : Option (Draft × Bool) :=
  match tree.chain? with
  | some chain => draft.rewriteEnum? rules chain
  | none => some (draft, false)

/-- Deals with an access as a whole. -/
def rewriteWholeMember? (draft : Draft) (rules : EnumRules) (object : Tree)
    (property : Identifier) : Option (Draft × Bool) :=
  match object.chain? with
  | some chain =>
    draft.rewriteExactEnum? rules (chain.extend ⟨property.name, property.span, false⟩)
  | none => some (draft, false)

end Draft

mutual

/-- Deals with the enumerations in a tree. -/
def Tree.rewriteEnums? (rules : EnumRules) : Tree → Draft → Option Draft
  | .leaf _ _, draft => some draft
  | .text _ _, draft => some draft
  | .identifier _ _, draft => some draft
  | .binding _ type, draft => rewriteAllEnums? rules type draft
  | .member _ object _ property, draft => do
    let (first, settled) ← draft.rewriteWholeMember? rules object property
    if settled then return first
    else
      let (second, settled) ← first.rewriteEnumTree? rules object
      if settled then return second else object.rewriteEnums? rules second
  | .call _ callee arguments typeArguments, draft => do
    let first ← callee.rewriteEnums? rules draft
    let second ← rewriteAllEnums? rules arguments first
    rewriteAllEnums? rules typeArguments second
  | .qualified _ left _, draft => do
    let (next, settled) ← draft.rewriteEnumTree? rules left
    if settled then return next else left.rewriteEnums? rules next
  | .typeReference _ name arguments, draft => do
    let (next, settled) ← draft.rewriteEnumTree? rules name
    let named ← if settled then some next else name.rewriteEnums? rules next
    rewriteAllEnums? rules arguments named
  | .heritage _ value arguments, draft => do
    let first ← value.rewriteEnums? rules draft
    rewriteAllEnums? rules arguments first
  | .declaration _ _ parts, draft => rewriteAllEnums? rules parts draft
  | .importDeclaration _, draft => some draft
  | .importEquals _ module, draft => module.rewriteEnums? rules draft
  | .anchored _ _ inner, draft => inner.rewriteEnums? rules draft
  | .branch _ _ children, draft => rewriteAllEnums? rules children draft

/-- Deals with the enumerations in trees. -/
def rewriteAllEnums? (rules : EnumRules) : List Tree → Draft → Option Draft
  | [], draft => some draft
  | tree :: rest, draft => do
    let next ← tree.rewriteEnums? rules draft
    rewriteAllEnums? rules rest next

end

/-- Deals with all enumerations in a program. -/
def Draft.rewriteEnums? (draft : Draft) (text : Text) (program : Program) (rules : List Rule) :
    Option Draft :=
  if draft.bindings.isEmpty then some draft
  else do
    let (lookups, notes) ← Lookups.build? draft.bindings rules
    rewriteAllEnums? ⟨text, lookups, rules⟩ program.items (draft.addNotes notes)

/-! ## The checks hold at a chain -/

section Chains

variable {body : Text} {bindings : Bindings} {rules : List Rule} {draft : Draft}
  {chain : Chain} {lo hi : Nat}

namespace Draft

/-- Behind the alias there is a name where the end starts. -/
theorem suffixStart?_eq (hrest : chain.rest ≠ []) (rule : Rule) :
    suffixStart? chain rule = some (suffixStart chain rule) := by
  have hcount : chain.segments.length = chain.rest.length + 1 := List.length_cons
  have hnames : chain.names.length = chain.segments.length := List.length_map _
  have hbehind : 0 < chain.rest.length := List.length_pos_iff.mpr hrest
  have hsource : 0 < rule.source.names.length := Nat.succ_pos _
  have hindex : max (chain.names.length - rule.source.names.length) 1 < chain.segments.length := by
    omega
  simp only [suffixStart?, suffixStart, Nat.le_max_right, if_true,
    List.getElem?_eq_getElem hindex]
  rfl

/-- The end that a rule stands for starts where it stops or before. -/
theorem suffixStart_le (hplaced : chain.Placed body lo hi) (hrest : chain.rest ≠ [])
    (rule : Rule) : suffixStart chain rule ≤ chain.span.stop := by
  have hspan := (hasPart_suffix hrest rule).inside hplaced
  exact Nat.le_trans (Nat.le_max_left _ _) hspan.2

theorem replaceEnum?_eq {span : Span} (hspan : span.stop ≤ body.length) (newText : Text)
    {origin : Origin} (hhas : draft.bindings.Has origin) (target : NamePath) :
    draft.replaceEnum? body span newText origin target =
      some (draft.replaceEnum body span newText origin target) := by
  have hbindings : (draft.tryEdit ⟨span, newText⟩).1.bindings = draft.bindings :=
    tryEdit_bindings draft _ _
  simp only [replaceEnum?, replaceEnum, Text.slice?_span hspan, Option.bind_eq_bind,
    Option.bind_some]
  split
  · rfl
  · generalize draft.tryEdit ⟨span, newText⟩ = result at hbindings ⊢
    obtain ⟨edited, done⟩ := result
    cases done with
    | false => rfl
    | true =>
      have hthere : (edited.count fun report =>
          { report with rewrittenEnums := report.rewrittenEnums + 1 }).bindings.Has origin := by
        show edited.bindings.Has origin
        rw [hbindings]
        exact hhas
      simp only [if_true, recordMatch?_eq hthere]
      rfl

theorem rewriteExactEnum?_eq (hlearns : bindings.Learns .any draft.bindings)
    (hplaced : chain.Placed body lo hi) (hinside : chain.span.stop ≤ body.length) :
    draft.rewriteExactEnum? (enumRules body bindings rules) chain =
      some (draft.rewriteExactEnum (enumRules body bindings rules) chain) := by
  simp only [rewriteExactEnum?, rewriteExactEnum, chain.root?_eq, Option.bind_eq_bind,
    Option.bind_some]
  split
  · cases hfound : (Lookups.build bindings rules).1.find? chain.names with
    | none => rfl
    | some replacement =>
      simp only [Chain.span?_eq hplaced, Chain.render?_eq, Option.bind_some]
      split
      · rfl
      · exact replaceEnum?_eq hinside _
          (hlearns.has (has_origin (Lookups.mem_of_find?_build hfound))) _
  · rfl

theorem rewriteAliasedEnum?_eq {index : Nat}
    (hindex : draft.bindings.wholeIndex? chain.root = some index)
    (hplaced : chain.Placed body lo hi) (hinside : chain.span.stop ≤ body.length) :
    draft.rewriteAliasedEnum? (enumRules body bindings rules) chain index =
      some (draft.rewriteAliasedEnum (enumRules body bindings rules) chain index) := by
  have htail : chain.names.tail? = some chain.names.tail := rfl
  unfold rewriteAliasedEnum? rewriteAliasedEnum
  cases hrest : chain.rest with
  | nil => rfl
  | cons second others =>
    have hbehind : chain.rest ≠ [] := by simp [hrest]
    simp only [chain.lastName?_eq, htail, Option.bind_eq_bind, Option.bind_some]
    cases ruleEndingWith? rules chain.last.name with
    | none => rfl
    | some rule =>
      have hle := suffixStart_le hplaced hbehind rule
      simp only [suffixStart?_eq hbehind, Chain.span?_eq hplaced, Span.ordered?_eq hle,
        Option.bind_some]
      split
      · rfl
      · obtain ⟨whole, hwhole, -⟩ := Bindings.whole_of_wholeIndex? hindex
        have hhas : draft.bindings.Has (.whole index) := ⟨whole, hwhole⟩
        exact replaceEnum?_eq ((Nat.max_eq_right hle).trans_le hinside) _ hhas _

theorem rewriteNamedEnum?_eq (hplaced : chain.Placed body lo hi)
    (hinside : chain.span.stop ≤ body.length) :
    draft.rewriteNamedEnum? (enumRules body bindings rules) chain =
      some (draft.rewriteNamedEnum (enumRules body bindings rules) chain) := by
  unfold rewriteNamedEnum? rewriteNamedEnum
  cases chain.rest with
  | cons => rfl
  | nil =>
    cases hindex : draft.bindings.namedIndex? chain.root with
    | none => rfl
    | some index =>
      obtain ⟨named, hnamed, -⟩ := Bindings.named_of_namedIndex? hindex
      have hhas : draft.bindings.Has (.named index) := ⟨named, hnamed⟩
      simp only [hnamed, Option.map_some, Chain.span?_eq hplaced, Chain.render?_eq,
        Option.bind_eq_bind, Option.bind_some]
      cases ruleEndingWith? rules named.exported with
      | none => rfl
      | some rule =>
        simp only
        split
        · rfl
        · exact replaceEnum?_eq hinside _ hhas _

theorem rewriteEnum?_eq (hlearns : bindings.Learns .any draft.bindings)
    (hplaced : chain.Placed body lo hi) (hinside : chain.span.stop ≤ body.length) :
    draft.rewriteEnum? (enumRules body bindings rules) chain =
      some (draft.rewriteEnum (enumRules body bindings rules) chain) := by
  simp only [rewriteEnum?, rewriteEnum, chain.root?_eq,
    rewriteExactEnum?_eq hlearns hplaced hinside, Option.bind_eq_bind, Option.bind_some]
  split
  · split
    · rfl
    · cases hindex : (draft.rewriteExactEnum (enumRules body bindings rules)
          chain).1.bindings.wholeIndex? chain.root with
      | some index => exact rewriteAliasedEnum?_eq hindex hplaced hinside
      | none => exact rewriteNamedEnum?_eq hplaced hinside
  · rfl

end Draft

end Chains

/-! ## The checks hold at a tree -/

/-- Whether chains stand in a text. -/
def ChainsPlaced (body : Text) (chains : List Chain) : Prop :=
  ∀ chain ∈ chains, chain.Placed body 0 body.length

section Trees

variable {body : Text} {bindings : Bindings} {rules : List Rule} {draft : Draft}

theorem ChainsPlaced.left {chains others : List Chain} (h : ChainsPlaced body (chains ++ others)) :
    ChainsPlaced body chains := fun chain hchain => h chain (List.mem_append_left _ hchain)

theorem ChainsPlaced.right {chains others : List Chain} (h : ChainsPlaced body (chains ++ others)) :
    ChainsPlaced body others := fun chain hchain => h chain (List.mem_append_right _ hchain)

private theorem mayReplace_any (chains : List Chain) :
    Draft.MayReplace (fun _ => True) bindings rules chains := fun _ _ _ _ _ => trivial

namespace Draft

theorem rewriteEnumTree?_eq (rules : List Rule) (hlearns : bindings.Learns .any draft.bindings)
    {tree : Tree} (h : ChainsPlaced body tree.chain?.toList) :
    draft.rewriteEnumTree? (enumRules body bindings rules) tree =
        some (draft.rewriteEnumTree (enumRules body bindings rules) tree) ∧
      bindings.Learns .any
        (draft.rewriteEnumTree (enumRules body bindings rules) tree).1.bindings := by
  refine ⟨?_, hlearns.trans (continues_rewriteEnumTree body (allowsEnums_any rules)
    (mayReplace_any _) hlearns).bindings⟩
  unfold rewriteEnumTree? rewriteEnumTree
  cases hchain : tree.chain? with
  | none => rfl
  | some chain =>
    have hplaced := h chain (Option.mem_toList.mpr hchain)
    exact rewriteEnum?_eq hlearns hplaced hplaced.le_hi

theorem rewriteWholeMember?_eq (rules : List Rule)
    (hlearns : bindings.Learns .any draft.bindings) {span : Span} {object : Tree}
    {optional : Bool} {property : Identifier}
    (h : ChainsPlaced body (Tree.member span object optional property).references) :
    draft.rewriteWholeMember? (enumRules body bindings rules) object property =
        some (draft.rewriteWholeMember (enumRules body bindings rules) object property) ∧
      bindings.Learns .any
        (draft.rewriteWholeMember (enumRules body bindings rules) object property).1.bindings := by
  refine ⟨?_, hlearns.trans (@continues_rewriteWholeMember _ _ _ _ _ body
    (allowsEnums_any rules) span object optional property (mayReplace_any _) hlearns).bindings⟩
  unfold rewriteWholeMember? rewriteWholeMember
  cases hchain : object.chain? with
  | none => rfl
  | some chain =>
    have hplaced : (chain.extend ⟨property.name, property.span, false⟩).Placed body 0
        body.length := by
      have hmember := h (chain.extend ⟨property.name, property.span, optional⟩)
        (by simp only [Tree.references, hchain]; exact List.mem_cons_self)
      unfold Chain.Placed at hmember ⊢
      rw [Chain.identifiers_extend] at hmember ⊢
      exact hmember
    exact rewriteExactEnum?_eq hlearns hplaced hplaced.le_hi

end Draft

open Draft

mutual

/-- The stage keeps to its checks in a tree. -/
theorem Tree.rewriteEnums?_eq : ∀ (tree : Tree) (draft : Draft),
    ChainsPlaced body tree.references → bindings.Learns .any draft.bindings →
    tree.rewriteEnums? (enumRules body bindings rules) draft =
        some (tree.rewriteEnums (enumRules body bindings rules) draft) ∧
      bindings.Learns .any (tree.rewriteEnums (enumRules body bindings rules) draft).bindings
  | .leaf _ _, draft, _, hlearns => ⟨rfl, hlearns⟩
  | .text _ _, draft, _, hlearns => ⟨rfl, hlearns⟩
  | .identifier _ _, draft, _, hlearns => ⟨rfl, hlearns⟩
  | .binding _ type, draft, h, hlearns => rewriteAllEnums?_eq type draft h hlearns
  | .member span object optional property, draft, h, hlearns => by
    have hobject : ChainsPlaced body (object.chain?.toList ++ object.references) :=
      fun chain hchain => h chain (references_object_subset span object optional property hchain)
    obtain ⟨hfirst, hlearns⟩ := rewriteWholeMember?_eq rules hlearns h
    simp only [Tree.rewriteEnums?, Tree.rewriteEnums, hfirst, Option.bind_eq_bind,
      Option.bind_some]
    split
    · exact ⟨rfl, hlearns⟩
    · obtain ⟨hsecond, hlearns⟩ := rewriteEnumTree?_eq rules hlearns hobject.left
      simp only [hsecond, Option.bind_some]
      split
      · exact ⟨rfl, hlearns⟩
      · exact Tree.rewriteEnums?_eq object _ hobject.right hlearns
  | .call _ callee arguments typeArguments, draft, h, hlearns => by
    obtain ⟨hcallee, hlearns⟩ := Tree.rewriteEnums?_eq callee draft h.left.left.right hlearns
    obtain ⟨harguments, hlearns⟩ := rewriteAllEnums?_eq arguments _ h.left.right hlearns
    simp only [Tree.rewriteEnums?, hcallee, harguments, Option.bind_eq_bind, Option.bind_some]
    exact rewriteAllEnums?_eq typeArguments _ h.right hlearns
  | .qualified _ left _, draft, h, hlearns => by
    obtain ⟨hfirst, hlearns⟩ := rewriteEnumTree?_eq rules hlearns h.left
    simp only [Tree.rewriteEnums?, Tree.rewriteEnums, hfirst, Option.bind_eq_bind,
      Option.bind_some]
    split
    · exact ⟨rfl, hlearns⟩
    · exact Tree.rewriteEnums?_eq left _ h.right hlearns
  | .typeReference _ name arguments, draft, h, hlearns => by
    obtain ⟨hfirst, hlearns⟩ := rewriteEnumTree?_eq rules hlearns h.left.left
    simp only [Tree.rewriteEnums?, Tree.rewriteEnums, hfirst, Option.bind_eq_bind,
      Option.bind_some]
    split
    · exact rewriteAllEnums?_eq arguments _ h.right hlearns
    · obtain ⟨hname, hlearns⟩ := Tree.rewriteEnums?_eq name _ h.left.right hlearns
      rw [hname]
      exact rewriteAllEnums?_eq arguments _ h.right hlearns
  | .heritage _ value arguments, draft, h, hlearns => by
    obtain ⟨hvalue, hlearns⟩ := Tree.rewriteEnums?_eq value draft h.left.right hlearns
    simp only [Tree.rewriteEnums?, hvalue, Option.bind_eq_bind, Option.bind_some]
    exact rewriteAllEnums?_eq arguments _ h.right hlearns
  | .declaration _ _ parts, draft, h, hlearns => rewriteAllEnums?_eq parts draft h hlearns
  | .importDeclaration _, draft, _, hlearns => ⟨rfl, hlearns⟩
  | .importEquals _ module, draft, h, hlearns => Tree.rewriteEnums?_eq module draft h hlearns
  | .anchored _ _ inner, draft, h, hlearns => Tree.rewriteEnums?_eq inner draft h hlearns
  | .branch _ _ children, draft, h, hlearns => rewriteAllEnums?_eq children draft h hlearns

theorem rewriteAllEnums?_eq : ∀ (trees : List Tree) (draft : Draft),
    ChainsPlaced body (allReferences trees) → bindings.Learns .any draft.bindings →
    rewriteAllEnums? (enumRules body bindings rules) trees draft =
        some (rewriteAllEnums (enumRules body bindings rules) trees draft) ∧
      bindings.Learns .any
        (rewriteAllEnums (enumRules body bindings rules) trees draft).bindings
  | [], draft, _, hlearns => ⟨rfl, hlearns⟩
  | tree :: rest, draft, h, hlearns => by
    obtain ⟨htree, hlearns⟩ := Tree.rewriteEnums?_eq tree draft h.left hlearns
    simp only [rewriteAllEnums?, htree, Option.bind_eq_bind, Option.bind_some]
    exact rewriteAllEnums?_eq rest _ h.right hlearns

end

/-- The stage of enumerations keeps to its checks. -/
theorem Draft.rewriteEnums?_eq {program : Program} (hplaced : program.Placed body)
    (draft : Draft) (rules : List Rule) : draft.rewriteEnums? body program rules =
      some (draft.rewriteEnums body program rules) := by
  unfold Draft.rewriteEnums? Draft.rewriteEnums
  split
  · rfl
  · have hnoted : draft.bindings.Learns .any
        (draft.addNotes (Lookups.build draft.bindings rules).2).bindings := .refl draft.bindings
    simp only [Lookups.build?_eq, Option.bind_eq_bind, Option.bind_some]
    exact (rewriteAllEnums?_eq program.items _ (fun _ => hplaced.reference) hnoted).1

end Trees

end SdkMigration
