import SdkMigration.Proofs.References
import SdkMigration.Proofs.Stages.Beside

/-!
# An alias that only one of two runs knows

A run that knows one more alias of the module looks up the same as another one for every
chain that starts with another name, and the other run finds nothing for a chain that
starts with the name of the alias.  So the stage of enumerations either keeps the two
runs beside each other, or it replaces a part of a reference through the alias, and the
alias learns of that (`Draft.together_rewriteEnums`).

Where a chain through the alias is settled without an edit, the run that knows it leaves
out the parts of the chain.  The other run goes through them, but they start with the same
name, so it does nothing there.
-/

namespace SdkMigration

/-! ## Looking up -/

theorem Chain.names_ne_nil (chain : Chain) : chain.names ≠ [] := List.cons_ne_nil _ _

/-- Whether a chain names the source of a rule behind a name. -/
def Chain.NamesSource (chain : Chain) (name : String) (rules : List Rule) : Prop :=
  ∃ rule ∈ rules, chain.names = name :: rule.source.names

section Lookup

variable {bindings : Bindings} {extra : WholeImport} {rules : List Rule} {chain : Chain}

theorem wholeReplacements_append (rule : Rule) (start : Nat) (list more : List WholeImport) :
    wholeReplacements rule start (list ++ more) =
      wholeReplacements rule start list ++ wholeReplacements rule (start + list.length) more := by
  induction list generalizing start with
  | nil => rfl
  | cons first rest ih =>
    have hstart : start + 1 + rest.length = start + (rest.length + 1) := by omega
    simp only [List.cons_append, wholeReplacements, ih, List.length_cons, hstart]

theorem Bindings.localNames_withAliases (bindings : Bindings) (more : List WholeImport) :
    (bindings.withAliases more).localNames = bindings.localNames ++ more.map (·.name) := by
  simp [Bindings.localNames, Bindings.withAliases]

theorem NoDots.of_withAliases {more : List WholeImport}
    (h : NoDots (bindings.withAliases more) rules) : NoDots bindings rules := by
  refine ⟨fun name hname => h.localNames name ?_, h.sources⟩
  rw [Bindings.localNames_withAliases]
  exact List.mem_append_left _ hname

/-- A chain that starts with another name is looked up as without the alias. -/
theorem find?_withAlias_of_ne (hdots : NoDots (bindings.withAliases [extra]) rules)
    (hfree : ∀ name ∈ chain.names, DotFree name) (hroot : chain.root ≠ extra.name) :
    (Lookups.build (bindings.withAliases [extra]) rules).1.find? chain.names =
      (Lookups.build bindings rules).1.find? chain.names := by
  rw [Lookups.find?_build hdots.replacements chain.names_ne_nil hfree,
    Lookups.find?_build hdots.of_withAliases.replacements chain.names_ne_nil hfree]
  unfold replacements
  rw [List.find?_flatMap, List.find?_flatMap]
  congr 1
  funext rule
  -- The alias adds one replacement a rule, which is for other names.
  have hother : ((extra.sees bindings.whole.length rule).source.names == chain.names) = false :=
    beq_eq_false_iff_ne.mpr fun h => hroot (List.cons.inj h).1.symm
  rw [Bindings.withAliases, wholeReplacements_append, ← List.append_assoc, List.find?_append]
  simp only [wholeReplacements, Nat.zero_add]
  rw [List.find?_cons]
  unfold WholeImport.sees at hother
  rw [hother]
  simp

variable (hnew : extra.name ∉ bindings.localNames)
include hnew

/-- What is looked up through the alias is a rule as seen through it. -/
theorem sees_of_find?_alias (hdots : NoDots (bindings.withAliases [extra]) rules)
    (hfree : ∀ name ∈ chain.names, DotFree name) (hroot : chain.root = extra.name)
    {replacement : Replacement}
    (hfound : (Lookups.build (bindings.withAliases [extra]) rules).1.find? chain.names =
      some replacement) :
    ∃ rule ∈ rules, replacement = extra.sees bindings.whole.length rule ∧
      chain.names = extra.name :: rule.source.names := by
  have hmem := Lookups.mem_of_find?_build hfound
  rw [Lookups.find?_build hdots.replacements chain.names_ne_nil hfree] at hfound
  have hsame : replacement.source.names = chain.names := by simpa using List.find?_some hfound
  obtain ⟨rule, hrule, hseen⟩ := mem_replacements hmem
  rcases hseen with ⟨index, named, hnamed, -, rfl⟩ | ⟨index, whole, hwhole, rfl⟩
  · have hname : named.localName = extra.name := (List.cons.inj hsame).1.trans hroot
    rw [← hname] at hnew
    exact absurd (List.mem_append_left _ (List.mem_map_of_mem (List.mem_of_getElem? hnamed))) hnew
  · have hname : whole.name = extra.name := (List.cons.inj hsame).1.trans hroot
    have hwhole' : (bindings.whole ++ [extra])[index]? = some whole := hwhole
    by_cases hindex : index < bindings.whole.length
    · rw [List.getElem?_append_left hindex] at hwhole'
      rw [← hname] at hnew
      exact absurd (List.mem_append_right _
        (List.mem_map_of_mem (List.mem_of_getElem? hwhole'))) hnew
    · rw [List.getElem?_append_right (by omega), List.getElem?_singleton] at hwhole'
      split at hwhole'
      · obtain rfl := Option.some.inj hwhole'
        have hlast : index = bindings.whole.length := by omega
        subst hlast
        exact ⟨rule, hrule, rfl, hsame.symm⟩
      · cases hwhole'

/-- A chain through the alias is looked up with success exactly when it names the source
of a rule. -/
theorem find?_alias_isSome_iff (hdots : NoDots (bindings.withAliases [extra]) rules)
    (hfree : ∀ name ∈ chain.names, DotFree name) (hroot : chain.root = extra.name) :
    (∃ replacement, (Lookups.build (bindings.withAliases [extra]) rules).1.find? chain.names =
      some replacement) ↔ chain.NamesSource extra.name rules := by
  constructor
  · rintro ⟨replacement, hfound⟩
    obtain ⟨rule, hrule, -, hnames⟩ := sees_of_find?_alias hnew hdots hfree hroot hfound
    exact ⟨rule, hrule, hnames⟩
  · rintro ⟨rule, hrule, hnames⟩
    rw [← Option.isSome_iff_exists,
      Lookups.find?_build hdots.replacements chain.names_ne_nil hfree, List.find?_isSome]
    refine ⟨extra.sees bindings.whole.length rule, ?_, beq_iff_eq.mpr hnames.symm⟩
    refine List.mem_flatMap.mpr ⟨rule, hrule, List.mem_append_right _ ?_⟩
    rw [Bindings.withAliases, wholeReplacements_append, Nat.zero_add]
    exact List.mem_append_right _ List.mem_cons_self

/-- No chain through the alias is looked up with success in the other run. -/
theorem find?_other_eq_none (hdots : NoDots (bindings.withAliases [extra]) rules)
    (hfree : ∀ name ∈ chain.names, DotFree name) (hroot : chain.root = extra.name) :
    (Lookups.build bindings rules).1.find? chain.names = none := by
  rw [← Option.not_isSome_iff_eq_none, Option.isSome_iff_exists]
  rintro ⟨replacement, hfound⟩
  have htracks := Lookups.tracks_of_find?_build hdots.of_withAliases.localNames
    (hfree _ List.mem_cons_self) hfound
  rw [Bindings.tracks_iff] at htracks
  rw [← hroot] at hnew
  exact hnew htracks

/-- A chain that names no source of a rule through the alias is looked up as without
it. -/
theorem find?_withAlias (hdots : NoDots (bindings.withAliases [extra]) rules)
    (hfree : ∀ name ∈ chain.names, DotFree name)
    (hother : ¬chain.NamesSource extra.name rules) :
    (Lookups.build (bindings.withAliases [extra]) rules).1.find? chain.names =
      (Lookups.build bindings rules).1.find? chain.names := by
  by_cases hroot : chain.root = extra.name
  · rw [find?_other_eq_none hnew hdots hfree hroot, ← Option.not_isSome_iff_eq_none,
      Option.isSome_iff_exists, find?_alias_isSome_iff hnew hdots hfree hroot]
    exact hother
  · exact find?_withAlias_of_ne hdots hfree hroot

/-- A chain that names the source of a rule through the alias is looked up as a reference
through it. -/
theorem find?_through (hdots : NoDots (bindings.withAliases [extra]) rules)
    (hfree : ∀ name ∈ chain.names, DotFree name)
    (h : chain.NamesSource extra.name rules) :
    ∃ replacement, (Lookups.build (bindings.withAliases [extra]) rules).1.find? chain.names =
        some replacement ∧ replacement.origin = .whole bindings.whole.length := by
  have hroot : chain.root = extra.name := by
    obtain ⟨rule, -, hnames⟩ := h
    exact (List.cons.inj hnames).1
  obtain ⟨replacement, hfound⟩ := (find?_alias_isSome_iff hnew hdots hfree hroot).mpr h
  obtain ⟨rule, -, rfl, -⟩ := sees_of_find?_alias hnew hdots hfree hroot hfound
  exact ⟨_, hfound, rfl⟩

end Lookup

namespace Bindings

variable {bindings base : Bindings} {extra : WholeImport} {name : String} {lessons : Lessons}

theorem wholeIndex?_withAlias_of_ne (hname : name ≠ extra.name) :
    (bindings.withAliases [extra]).wholeIndex? name = bindings.wholeIndex? name := by
  have hother : (extra.name == name) = false := beq_eq_false_iff_ne.mpr (Ne.symm hname)
  unfold wholeIndex? withAliases
  simp only
  rw [List.findIdx?_append]
  simp [List.findIdx?_cons, hother]

theorem wholeIndex?_alias (hnew : extra.name ∉ bindings.localNames) :
    (bindings.withAliases [extra]).wholeIndex? extra.name = some bindings.whole.length := by
  have hnone : bindings.whole.findIdx? (fun found => found.name == extra.name) = none := by
    rw [List.findIdx?_eq_none_iff]
    intro whole hwhole
    refine beq_eq_false_iff_ne.mpr fun hsame => hnew ?_
    rw [← hsame]
    exact List.mem_append_right _ (List.mem_map_of_mem hwhole)
  unfold wholeIndex? withAliases
  simp only
  rw [List.findIdx?_append, hnone]
  simp [List.findIdx?_cons]

theorem tracks_withAlias_of_ne (hname : name ≠ extra.name) :
    (bindings.withAliases [extra]).tracks name = bindings.tracks name := by
  unfold tracks isAlias
  rw [wholeIndex?_withAlias_of_ne hname]
  rfl

/-- Bindings learn beside more aliases what they learn without them. -/
theorem Learns.withAliases (h : base.Learns lessons bindings) (more : List WholeImport) :
    (base.withAliases more).Learns lessons (bindings.withAliases more) := by
  have hlength : bindings.whole.length = base.whole.length := by
    simpa using congrArg List.length h.map_name
  refine ⟨h.named, fun index => ?_⟩
  show Option.Rel _ (base.whole ++ more)[index]? (bindings.whole ++ more)[index]?
  by_cases hindex : index < base.whole.length
  · rw [List.getElem?_append_left hindex, List.getElem?_append_left (hlength ▸ hindex)]
    exact h.whole index
  · rw [List.getElem?_append_right (by omega), List.getElem?_append_right (by omega), hlength]
    have hmore : Bindings.Learns lessons ⟨[], more⟩ ⟨[], more⟩ := .refl _
    exact hmore.whole _

end Bindings

/-! ## The stage of enumerations -/

/-- Whether a part of a reference through an alias has been replaced, which the alias at
an index has learned. -/
structure Draft.Moved (base : Bindings) (extra : WholeImport) (chains : List Chain)
    (draft : Draft) : Prop where
  learns : (base.withAliases [extra]).Learns .any draft.bindings
  recorded : draft.bindings.Recorded (.whole base.whole.length)
  replaced : ∃ chain ∈ chains, chain.root = extra.name ∧
    ∃ edit ∈ draft.edits.held, chain.HasPart edit.span

/-- Whether two runs are beside each other, or the one with the alias has moved a
reference through it. -/
def Draft.Together (base : Bindings) (extra : WholeImport) (chains : List Chain)
    (draft other : Draft) : Prop :=
  draft.Beside base [extra] other ∨ draft.Moved base extra chains

namespace Draft

variable {base : Bindings} {extra : WholeImport} {chains : List Chain} {draft other : Draft}
  {body : Text} {rules : List Rule} {chain : Chain}

/-- What was moved stays moved. -/
theorem Moved.continues {allowed : Edit → Prop} {after : Draft}
    (h : draft.Moved base extra chains) (hafter : draft.Continues allowed .any after) :
    after.Moved base extra chains := by
  obtain ⟨chain, hchain, hroot, edit, hedit, hpart⟩ := h.replaced
  exact ⟨h.learns.trans hafter.bindings, hafter.bindings.recorded h.recorded,
    chain, hchain, hroot, edit, hafter.kept edit hedit, hpart⟩

theorem Beside.replaceEnum {more : List WholeImport} (h : draft.Beside base more other)
    (span : Span) (newText : Text) {origin : Origin} (horigin : base.Has origin)
    (target : NamePath) :
    Alike base more (draft.replaceEnum body span newText origin target)
      (other.replaceEnum body span newText origin target) := by
  unfold Draft.replaceEnum
  split
  · exact ⟨rfl, h⟩
  · obtain ⟨htold, htried⟩ := h.tryEdit ⟨span, newText⟩ Edits.append
    simp only [htold]
    split
    · exact ⟨rfl, (htried.count _ _).recordMatch horigin target⟩
    · exact ⟨rfl, htried⟩

/-- A part of a chain through the alias is replaced, or nothing happens. -/
theorem Beside.replaceEnum_through (h : draft.Beside base [extra] other) (hchain : chain ∈ chains)
    (hroot : chain.root = extra.name) {span : Span} (hpart : chain.HasPart span)
    (newText : Text) (target : NamePath) :
    (draft.replaceEnum body span newText (.whole base.whole.length) target).1.Together
      base extra chains other := by
  unfold Draft.replaceEnum Draft.tryEdit
  split
  · exact Or.inl h
  · cases draft.edits.conflict? ⟨span, newText⟩ with
    | some existing => exact Or.inl ⟨h.edits, h.bindings, h.learns⟩
    | none =>
      have hlearns : (base.withAliases [extra]).Learns .any draft.bindings :=
        h.bindings ▸ h.learns.withAliases [extra]
      have hhas : draft.bindings.Has (.whole base.whole.length) :=
        hlearns.has ⟨extra, by simp [Bindings.withAliases]⟩
      have hrecorded : draft.bindings.Learns .any
          (draft.bindings.recordMatch (.whole base.whole.length) target.first) :=
        Bindings.learns_recordMatch _ fun _ _ _ _ => trivial
      exact Or.inr ⟨hlearns.trans hrecorded, Bindings.recorded_recordMatch hhas target.first, chain,
        hchain, hroot, ⟨span, newText⟩, List.mem_append_right _ (List.mem_singleton_self _), hpart⟩

/-- What a run with the alias looks up, and what one without it does. -/
abbrev rulesWith (body : Text) (base : Bindings) (extra : WholeImport) (rules : List Rule) :
    EnumRules := enumRules body (base.withAliases [extra]) rules

/-! ### Chains that start with another name -/

section Others

variable (hdots : NoDots (base.withAliases [extra]) rules)
  (hfree : ∀ name ∈ chain.names, DotFree name) (hroot : chain.root ≠ extra.name)
include hdots hfree hroot

theorem Beside.rewriteExactEnum (h : draft.Beside base [extra] other) :
    Alike base [extra] (draft.rewriteExactEnum (rulesWith body base extra rules) chain)
      (other.rewriteExactEnum (enumRules body base rules) chain) := by
  unfold Draft.rewriteExactEnum
  rw [h.bindings, Bindings.tracks_withAlias_of_ne hroot]
  simp only [find?_withAlias_of_ne hdots hfree hroot]
  split
  · split
    · exact ⟨rfl, h⟩
    · rename_i replacement hfound
      split
      · exact ⟨rfl, h⟩
      · exact h.replaceEnum _ _ (has_origin (Lookups.mem_of_find?_build hfound)) _
  · exact ⟨rfl, h⟩

omit hdots hfree hroot in
theorem Beside.rewriteAliasedEnum (h : draft.Beside base [extra] other) {index : Nat}
    (hindex : other.bindings.wholeIndex? chain.root = some index) :
    Alike base [extra] (draft.rewriteAliasedEnum (rulesWith body base extra rules) chain index)
      (other.rewriteAliasedEnum (enumRules body base rules) chain index) := by
  obtain ⟨learned, hlearned, -⟩ := Bindings.whole_of_wholeIndex? hindex
  obtain ⟨whole, hwhole, -⟩ := h.learns.whole_before hlearned
  have hhas : base.Has (.whole index) := ⟨whole, hwhole⟩
  unfold Draft.rewriteAliasedEnum
  cases chain.rest with
  | nil => exact ⟨rfl, h⟩
  | cons second more =>
    cases ruleEndingWith? rules chain.last.name with
    | none => exact ⟨rfl, h⟩
    | some rule =>
      simp only
      split
      · exact ⟨rfl, h⟩
      · exact h.replaceEnum _ _ hhas _

omit hdots hfree hroot in
theorem Beside.rewriteNamedEnum (h : draft.Beside base [extra] other) :
    Alike base [extra] (draft.rewriteNamedEnum (rulesWith body base extra rules) chain)
      (other.rewriteNamedEnum (enumRules body base rules) chain) := by
  have hnamed : draft.bindings.named = other.bindings.named := by rw [h.bindings]; rfl
  unfold Draft.rewriteNamedEnum Bindings.namedIndex?
  rw [hnamed]
  split
  · rename_i index _ hindex
    obtain ⟨learned, hlearned, -⟩ := Bindings.named_of_namedIndex? hindex
    obtain ⟨named, hnamed, -⟩ := h.learns.named_before hlearned
    have hhas : base.Has (.named index) := ⟨named, hnamed⟩
    simp only
    split
    · split
      · exact ⟨rfl, h⟩
      · exact h.replaceEnum _ _ hhas _
    · exact ⟨rfl, h⟩
  · exact ⟨rfl, h⟩

theorem Beside.rewriteEnum (h : draft.Beside base [extra] other) :
    Alike base [extra] (draft.rewriteEnum (rulesWith body base extra rules) chain)
      (other.rewriteEnum (enumRules body base rules) chain) := by
  obtain ⟨htold, hexact⟩ := @Beside.rewriteExactEnum _ _ _ _ body _ _ hdots hfree hroot h
  unfold Draft.rewriteEnum
  rw [h.bindings, Bindings.tracks_withAlias_of_ne hroot]
  split
  · simp only [htold]
    split
    · exact ⟨rfl, hexact⟩
    · rw [hexact.bindings, Bindings.wholeIndex?_withAlias_of_ne hroot]
      cases hindex : Bindings.wholeIndex? _ chain.root with
      | some index => exact hexact.rewriteAliasedEnum hindex
      | none => exact hexact.rewriteNamedEnum
  · exact ⟨rfl, h⟩

end Others

/-! ### Chains that start with the name of the alias -/

section Through

variable (hnew : extra.name ∉ base.localNames) (hdots : NoDots (base.withAliases [extra]) rules)
  (hfree : ∀ name ∈ chain.names, DotFree name) (hroot : chain.root = extra.name)
include hnew

theorem Beside.untracked (h : draft.Beside base [extra] other) :
    other.bindings.tracks extra.name = false := by
  rw [← Bool.not_eq_true, Bindings.tracks_iff, h.learns.localNames]
  exact hnew

include hdots hfree hroot

/-- `reference` is the chain as it is listed among the references. -/
theorem Beside.rewriteExactEnum_through (h : draft.Beside base [extra] other)
    {reference : Chain} (hreference : reference ∈ chains) (hsame : reference.root = extra.name)
    (hpart : reference.HasPart chain.span) :
    (draft.rewriteExactEnum (rulesWith body base extra rules) chain).1.Together
      base extra chains other := by
  unfold Draft.rewriteExactEnum
  split
  · cases hfound : (Lookups.build (base.withAliases [extra]) rules).1.find? chain.names with
    | none => exact Or.inl h
    | some replacement =>
      obtain ⟨rule, -, rfl, -⟩ := sees_of_find?_alias hnew hdots hfree hroot hfound
      simp only
      split
      · exact Or.inl h
      · exact h.replaceEnum_through hreference hsame hpart _ _
  · exact Or.inl h

theorem Beside.rewriteEnum_through (h : draft.Beside base [extra] other)
    (hchain : chain ∈ chains) :
    (draft.rewriteEnum (rulesWith body base extra rules) chain).1.Together
      base extra chains other := by
  have hexact := @Beside.rewriteExactEnum_through _ _ _ _ _ body _ _ hnew hdots hfree hroot h _
    hchain hroot .whole
  unfold Draft.rewriteEnum
  split
  · generalize draft.rewriteExactEnum (rulesWith body base extra rules) chain = result
      at hexact ⊢
    obtain ⟨next, done⟩ := result
    simp only
    split
    · exact hexact
    · rcases hexact with hexact | hexact
      · have hnew' : extra.name ∉ other.bindings.localNames := by
          rwa [h.learns.localNames]
        have hlength : other.bindings.whole.length = base.whole.length := by
          simpa using congrArg List.length h.learns.map_name
        rw [hexact.bindings, hroot, Bindings.wholeIndex?_alias hnew', hlength]
        -- Behind the alias the end of the chain may tell the enumeration.
        simp only [Draft.rewriteAliasedEnum]
        split
        · exact Or.inl hexact
        · rename_i hrest
          split
          · exact Or.inl hexact
          · split
            · exact Or.inl hexact
            · exact hexact.replaceEnum_through hchain hroot
                (hasPart_suffix hrest _) _ _
      · have hallows := allowsEnums_any rules
        cases hindex : next.bindings.wholeIndex? chain.root with
        | some index =>
          have hcontinues : next.Continues (fun _ => True) .any
              (next.rewriteAliasedEnum (rulesWith body base extra rules) chain index).1 :=
            continues_rewriteAliasedEnum hexact.learns hindex fun _ _ _ => trivial
          exact Or.inr (hexact.continues hcontinues)
        | none =>
          have hcontinues : next.Continues (fun _ => True) .any
              (next.rewriteNamedEnum (rulesWith body base extra rules) chain).1 :=
            continues_rewriteNamedEnum hallows hexact.learns fun _ _ _ => trivial
          exact Or.inr (hexact.continues hcontinues)
  · exact Or.inl h

end Through

/-! ### Trees -/

theorem rewriteExactEnum_untracked (h : draft.bindings.tracks chain.root = false)
    (rules : EnumRules) : draft.rewriteExactEnum rules chain = (draft, false) := by
  simp only [rewriteExactEnum, h, Bool.false_eq_true, if_false]

theorem rewriteEnum_untracked (h : draft.bindings.tracks chain.root = false)
    (rules : EnumRules) : draft.rewriteEnum rules chain = (draft, false) := by
  simp only [rewriteEnum, h, Bool.false_eq_true, if_false]

/-- Nothing happens inside a chain that starts with a name that is not bound. -/
theorem rewriteEnums_untracked {tree : Tree}
    (hchain : tree.chain? = some chain) (h : draft.bindings.tracks chain.root = false)
    (rules : EnumRules) : tree.rewriteEnums rules draft = draft := by
  fun_induction Tree.chain? tree generalizing chain with
  | case1 => rfl
  | case2 span object optional property inner hinner ih =>
    obtain rfl := Option.some.inj hchain
    have hroot : draft.bindings.tracks inner.root = false := h
    have hextended : draft.bindings.tracks
        (inner.extend ⟨property.name, property.span, false⟩).root = false := hroot
    have hwhole := rewriteExactEnum_untracked hextended rules
    simp only [Tree.rewriteEnums, rewriteWholeMember, hinner, hwhole, rewriteEnumTree,
      rewriteEnum_untracked hroot, Bool.false_eq_true, if_false, ih hinner hroot]
  | case3 => cases hchain
  | case4 span left right inner hinner ih =>
    obtain rfl := Option.some.inj hchain
    have hroot : draft.bindings.tracks inner.root = false := h
    simp only [Tree.rewriteEnums, hinner, rewriteEnumTree, rewriteEnum_untracked hroot,
      Bool.false_eq_true, if_false, ih hinner hroot]
  | case5 => cases hchain
  | case6 kind start inner ih => exact ih hchain h
  | case7 => cases hchain

/-- What the stage does to a part of a reference, which it goes into unless the part is
settled. -/
def rewriteEnumPart (draft : Draft) (rules : EnumRules) (tree : Tree) : Draft :=
  let (next, settled) := draft.rewriteEnumTree rules tree
  if settled then next else tree.rewriteEnums rules next

/-- What a step at an object leads to in two runs that were beside each other, `inside`
being what the other run does to the parts of the object. -/
inductive StepsTogether (base : Bindings) (extra : WholeImport) (chains : List Chain)
    (inside : Draft → Draft) (other : Draft) (result another : Draft × Bool) : Prop where
  | alike (h : Alike base [extra] result another)
  | moved (h : result.1.Moved base extra chains)
  /-- The other run does nothing, neither at the object nor inside it. -/
  | idle (h : result.1.Beside base [extra] other) (unsettled : another = (other, false))
    (nothing : inside other = other)

/-- Two runs go on into an object that is not settled. -/
theorem StepsTogether.unless_settled {inside within : Draft → Draft}
    {result another : Draft × Bool}
    (h : StepsTogether base extra chains inside other result another)
    (hinside : ∀ draft other, draft.Together base extra chains other →
      (within draft).Together base extra chains (inside other))
    (hmoved : ∀ draft, draft.Moved base extra chains → (within draft).Moved base extra chains) :
    (if result.2 then result.1 else within result.1).Together base extra chains
      (if another.2 then another.1 else inside another.1) := by
  cases h with
  | alike h =>
    rw [h.told]
    split
    · exact Or.inl h.beside
    · exact hinside _ _ (Or.inl h.beside)
  | moved h =>
    split
    · exact Or.inr h
    · exact Or.inr (hmoved _ h)
  | idle h unsettled nothing =>
    subst unsettled
    simp only [Bool.false_eq_true, if_false]
    split
    · rw [nothing]
      exact Or.inl h
    · exact hinside _ _ (Or.inl h)

section Trees

variable (hnew : extra.name ∉ base.localNames) (hdots : NoDots (base.withAliases [extra]) rules)
  (hchains : ∀ chain ∈ chains, ∀ name ∈ chain.names, DotFree name)

theorem Moved.rewriteEnums (h : draft.Moved base extra chains) (tree : Tree) :
    (tree.rewriteEnums (rulesWith body base extra rules) draft).Moved base extra chains :=
  h.continues (Tree.continues_rewriteEnums (allowsEnums_any rules) tree draft
    (show MayReplace (fun _ => True) _ _ _ from fun _ _ _ _ _ => trivial) h.learns)

theorem Moved.rewriteEnumPart (h : draft.Moved base extra chains) (tree : Tree) :
    (draft.rewriteEnumPart (rulesWith body base extra rules) tree).Moved base extra chains := by
  have hmay : ∀ chains, MayReplace (fun _ => True) (base.withAliases [extra]) rules chains :=
    fun _ _ _ _ _ _ => trivial
  have hstep := h.continues
    (continues_rewriteEnumTree body (allowsEnums_any rules) (hmay tree.chain?.toList) h.learns)
  unfold Draft.rewriteEnumPart
  simp only
  split
  · exact hstep
  · exact hstep.rewriteEnums tree

include hnew hdots hchains

theorem stepsTogether_rewriteEnumTree (h : draft.Together base extra chains other) {tree : Tree}
    (hsubset : tree.chain?.toList ⊆ chains) :
    StepsTogether base extra chains (tree.rewriteEnums (enumRules body base rules)) other
      (draft.rewriteEnumTree (rulesWith body base extra rules) tree)
      (other.rewriteEnumTree (enumRules body base rules) tree) := by
  rcases h with h | h
  · unfold rewriteEnumTree
    cases hchain : tree.chain? with
    | none => exact .alike ⟨rfl, h⟩
    | some chain =>
      have hmem : chain ∈ chains := hsubset (Option.mem_toList.mpr hchain)
      by_cases hroot : chain.root = extra.name
      · have huntracked : other.bindings.tracks chain.root = false := hroot ▸ h.untracked hnew
        rcases @Beside.rewriteEnum_through _ _ _ _ _ body _ _ hnew hdots (hchains chain hmem) hroot
          h hmem with hstep | hstep
        · exact .idle hstep (rewriteEnum_untracked huntracked _)
            (rewriteEnums_untracked hchain huntracked _)
        · exact .moved hstep
      · exact .alike (@Beside.rewriteEnum _ _ _ _ body _ _ hdots (hchains chain hmem) hroot h)
  · refine .moved (h.continues (continues_rewriteEnumTree body (allowsEnums_any rules)
      (show MayReplace (fun _ => True) _ _ _ from fun _ _ _ _ _ => trivial) h.learns))

theorem stepsTogether_rewriteWholeMember (h : draft.Together base extra chains other)
    {span : Span} {object : Tree} {optional : Bool} {property : Identifier}
    (hsubset : (Tree.member span object optional property).references ⊆ chains) :
    StepsTogether base extra chains
      (fun first => first.rewriteEnumPart (enumRules body base rules) object) other
      (draft.rewriteWholeMember (rulesWith body base extra rules) object property)
      (other.rewriteWholeMember (enumRules body base rules) object property) := by
  rcases h with h | h
  · unfold rewriteWholeMember
    cases hobject : object.chain? with
    | none => exact .alike ⟨rfl, h⟩
    | some chain =>
      -- The reference has the names of the chain that is looked up, and its place.
      have hmem : chain.extend ⟨property.name, property.span, optional⟩ ∈ chains := by
        refine hsubset ?_
        simp only [Tree.references, hobject]
        exact List.mem_cons_self
      have hnames : (chain.extend ⟨property.name, property.span, false⟩).names =
          (chain.extend ⟨property.name, property.span, optional⟩).names := by
        simp [Chain.names_eq, Chain.identifiers_extend]
      have hspan : (chain.extend ⟨property.name, property.span, false⟩).span =
          (chain.extend ⟨property.name, property.span, optional⟩).span := by
        simp [Chain.span, Chain.extend, Chain.last]
      have hfree : ∀ name ∈ (chain.extend ⟨property.name, property.span, false⟩).names,
          DotFree name := by
        rw [hnames]
        exact hchains _ hmem
      by_cases hroot : chain.root = extra.name
      · have huntracked : other.bindings.tracks chain.root = false := hroot ▸ h.untracked hnew
        have hpart : (chain.extend ⟨property.name, property.span, optional⟩).HasPart
            (chain.extend ⟨property.name, property.span, false⟩).span := hspan ▸ .whole
        rcases @Beside.rewriteExactEnum_through _ _ _ _ _ body _ _ hnew hdots hfree hroot h _ hmem
          hroot hpart with hstep | hstep
        · have hextended : other.bindings.tracks
              (chain.extend ⟨property.name, property.span, false⟩).root = false := huntracked
          refine .idle hstep (rewriteExactEnum_untracked hextended _) ?_
          simp only [rewriteEnumPart, rewriteEnumTree, hobject, rewriteEnum_untracked huntracked,
            rewriteEnums_untracked hobject huntracked, Bool.false_eq_true, if_false]
        · exact .moved hstep
      · exact .alike (@Beside.rewriteExactEnum _ _ _ _ body _ _ hdots hfree hroot h)
  · have hmay : MayReplace (fun _ => True) (base.withAliases [extra]) rules
        (Tree.member span object optional property).references := fun _ _ _ _ _ => trivial
    exact .moved (h.continues
      (continues_rewriteWholeMember body (allowsEnums_any rules) hmay h.learns))

theorem together_rewriteEnumPart {tree : Tree} (hsubset : tree.chain?.toList ⊆ chains)
    (htree : ∀ draft other, draft.Together base extra chains other →
      (tree.rewriteEnums (rulesWith body base extra rules) draft).Together base extra chains
        (tree.rewriteEnums (enumRules body base rules) other))
    (h : draft.Together base extra chains other) :
    (draft.rewriteEnumPart (rulesWith body base extra rules) tree).Together base extra chains
      (other.rewriteEnumPart (enumRules body base rules) tree) :=
  (stepsTogether_rewriteEnumTree hnew hdots hchains h hsubset).unless_settled htree
    fun _ hmoved => hmoved.rewriteEnums tree

end Trees

end Draft

section Stage

variable {base : Bindings} {extra : WholeImport} {chains : List Chain} {body : Text}
  {rules : List Rule}

open Draft

mutual

/-- The stage keeps two runs together at every tree. -/
theorem Tree.together_rewriteEnums (hnew : extra.name ∉ base.localNames)
    (hdots : NoDots (base.withAliases [extra]) rules)
    (hchains : ∀ chain ∈ chains, ∀ name ∈ chain.names, DotFree name) :
    ∀ (tree : Tree) (draft other : Draft), tree.references ⊆ chains →
      draft.Together base extra chains other →
      (tree.rewriteEnums (rulesWith body base extra rules) draft).Together base extra chains
        (tree.rewriteEnums (enumRules body base rules) other)
  | .leaf _ _, _, _, _, h => h
  | .text _ _, _, _, _, h => h
  | .identifier _ _, _, _, _, h => h
  | .binding _ type, draft, other, hsubset, h =>
    together_rewriteAllEnums hnew hdots hchains type draft other hsubset h
  | .member span object optional property, draft, other, hsubset, h => by
    have hobject := List.append_subset.mp
      (List.Subset.trans (references_object_subset span object optional property) hsubset)
    have hwhole := @stepsTogether_rewriteWholeMember _ _ _ _ _ body _ hnew hdots hchains h _ _ _ _
      hsubset
    exact hwhole.unless_settled (fun _ _ => together_rewriteEnumPart hnew hdots hchains hobject.1
        fun draft other =>
          Tree.together_rewriteEnums hnew hdots hchains object draft other hobject.2)
      fun _ hmoved => hmoved.rewriteEnumPart object
  | .call _ callee arguments typeArguments, draft, other, hsubset, h => by
    obtain ⟨hrest, htypes⟩ := List.append_subset.mp hsubset
    obtain ⟨hrest, harguments⟩ := List.append_subset.mp hrest
    obtain ⟨-, hcallee⟩ := List.append_subset.mp hrest
    exact together_rewriteAllEnums hnew hdots hchains typeArguments _ _ htypes
      (together_rewriteAllEnums hnew hdots hchains arguments _ _ harguments
        (Tree.together_rewriteEnums hnew hdots hchains callee draft other hcallee h))
  | .qualified _ left _, draft, other, hsubset, h => by
    obtain ⟨hchain, hleft⟩ := List.append_subset.mp hsubset
    exact together_rewriteEnumPart hnew hdots hchains hchain (fun draft other =>
      Tree.together_rewriteEnums hnew hdots hchains left draft other hleft) h
  | .typeReference _ name arguments, draft, other, hsubset, h => by
    obtain ⟨hrest, harguments⟩ := List.append_subset.mp hsubset
    obtain ⟨hchain, hname⟩ := List.append_subset.mp hrest
    exact together_rewriteAllEnums hnew hdots hchains arguments _ _ harguments
      (together_rewriteEnumPart hnew hdots hchains hchain (fun draft other =>
        Tree.together_rewriteEnums hnew hdots hchains name draft other hname) h)
  | .heritage _ value arguments, draft, other, hsubset, h => by
    obtain ⟨hrest, harguments⟩ := List.append_subset.mp hsubset
    obtain ⟨-, hvalue⟩ := List.append_subset.mp hrest
    exact together_rewriteAllEnums hnew hdots hchains arguments _ _ harguments
      (Tree.together_rewriteEnums hnew hdots hchains value draft other hvalue h)
  | .declaration _ _ parts, draft, other, hsubset, h =>
    together_rewriteAllEnums hnew hdots hchains parts draft other hsubset h
  | .importDeclaration _, _, _, _, h => h
  | .importEquals _ module, draft, other, hsubset, h =>
    Tree.together_rewriteEnums hnew hdots hchains module draft other hsubset h
  | .anchored _ _ inner, draft, other, hsubset, h =>
    Tree.together_rewriteEnums hnew hdots hchains inner draft other hsubset h
  | .branch _ _ children, draft, other, hsubset, h =>
    together_rewriteAllEnums hnew hdots hchains children draft other hsubset h

theorem together_rewriteAllEnums (hnew : extra.name ∉ base.localNames)
    (hdots : NoDots (base.withAliases [extra]) rules)
    (hchains : ∀ chain ∈ chains, ∀ name ∈ chain.names, DotFree name) :
    ∀ (trees : List Tree) (draft other : Draft), allReferences trees ⊆ chains →
      draft.Together base extra chains other →
      (rewriteAllEnums (rulesWith body base extra rules) trees draft).Together base extra chains
        (rewriteAllEnums (enumRules body base rules) trees other)
  | [], _, _, _, h => h
  | tree :: rest, draft, other, hsubset, h => by
    obtain ⟨htree, hrest⟩ := List.append_subset.mp hsubset
    exact together_rewriteAllEnums hnew hdots hchains rest _ _ hrest
      (Tree.together_rewriteEnums hnew hdots hchains tree draft other htree h)

end

/-- The stage keeps two runs together that come to it beside each other. -/
theorem Draft.together_rewriteEnums {program : Program} {before : Bindings} {draft other : Draft}
    (hnew : extra.name ∉ other.bindings.localNames)
    (hdots : NoDots (other.bindings.withAliases [extra]) rules)
    (hfree : ∀ chain ∈ allReferences program.items, ∀ name ∈ chain.names, DotFree name)
    (h : draft.Beside before [extra] other) :
    (draft.rewriteEnums body program rules).Together other.bindings extra
      (allReferences program.items) (other.rewriteEnums body program rules) := by
  rw [rewriteEnums_eq, rewriteEnums_eq, h.bindings]
  exact together_rewriteAllEnums hnew hdots hfree program.items _ _ (List.Subset.refl _)
    (Or.inl (h.rebase.addNotes _ _))

end Stage

end SdkMigration
