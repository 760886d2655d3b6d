import SdkMigration.Proofs.References

/-!
# The first rule for a path

Every rule can be seen through every binding of a file.  Rules and bindings have an order, and
so have the sightings: the rule decides, then the single exports come before the aliases, and
then the position of the binding decides.

The tables of a file hold no more than one replacement for each path.  It is that of the first
sighting for the path (`Lookups.find?_build_iff_first`): looking a path up is as good as going
through all rules and all bindings.
-/

namespace SdkMigration

/-! ## Sightings -/

/-- A rule, by its position among the rules, and the binding through which it is seen. -/
structure Sighting where
  position : Nat
  origin : Origin

/-- Whether a binding comes before another one: single exports before aliases. -/
def Origin.Before : Origin → Origin → Prop
  | .named index, .named other => index < other
  | .named _, .whole _ => True
  | .whole _, .named _ => False
  | .whole index, .whole other => index < other

/-- Whether a sighting comes before another one: the rule decides, then the binding. -/
def Sighting.Before (a b : Sighting) : Prop :=
  a.position < b.position ∨ a.position = b.position ∧ a.origin.Before b.origin

/-- The replacement at a sighting.  Through a single export a rule is seen when the export is the
first name of its source, which is written as the local name then.  Through an alias every rule
is seen, and the alias stands before both of its paths. -/
inductive Sees (bindings : Bindings) (rules : List Rule) : Sighting → Replacement → Prop where
  | named {position index : Nat} {rule : Rule} {named : NamedImport}
    (rule_at : rules[position]? = some rule) (named_at : bindings.named[index]? = some named)
    (exports : named.exported = rule.source.first) :
    Sees bindings rules ⟨position, .named index⟩
      ⟨⟨named.localName, rule.source.rest⟩, rule.target, rule, .named index⟩
  | whole {position index : Nat} {rule : Rule} {whole : WholeImport}
    (rule_at : rules[position]? = some rule) (whole_at : bindings.whole[index]? = some whole) :
    Sees bindings rules ⟨position, .whole index⟩
      ⟨⟨whole.name, rule.source.names⟩, ⟨whole.name, rule.target.names⟩, rule, .whole index⟩

/-! ## The sightings in their order -/

section OneRule

variable {rule : Rule}

theorem sees_mem_namedReplacements {list : List NamedImport} {index : Nat} {named : NamedImport}
    (hnamed : list[index]? = some named) (hexports : named.exported = rule.source.first)
    (start : Nat) : named.sees (start + index) rule ∈ namedReplacements rule start list := by
  induction list generalizing start index with
  | nil => cases hnamed
  | cons first rest ih =>
    unfold namedReplacements
    cases index with
    | zero =>
      obtain rfl := Option.some.inj hnamed
      rw [if_pos hexports]
      exact List.mem_cons_self
    | succ index =>
      have hrest := ih hnamed (start + 1)
      rw [Nat.add_assoc, Nat.add_comm 1 index] at hrest
      simp only
      split
      · exact List.mem_cons_of_mem _ hrest
      · exact hrest

theorem sees_mem_wholeReplacements {list : List WholeImport} {index : Nat} {whole : WholeImport}
    (hwhole : list[index]? = some whole) (start : Nat) :
    whole.sees (start + index) rule ∈ wholeReplacements rule start list := by
  induction list generalizing start index with
  | nil => cases hwhole
  | cons first rest ih =>
    unfold wholeReplacements
    cases index with
    | zero =>
      obtain rfl := Option.some.inj hwhole
      exact List.mem_cons_self
    | succ index =>
      have hrest := ih hwhole (start + 1)
      rw [Nat.add_assoc, Nat.add_comm 1 index] at hrest
      exact List.mem_cons_of_mem _ hrest

theorem namedReplacements_pairwise (list : List NamedImport) (start : Nat) :
    (namedReplacements rule start list).Pairwise fun a b => a.origin.Before b.origin := by
  induction list generalizing start with
  | nil => exact .nil
  | cons first rest ih =>
    unfold namedReplacements
    simp only
    split
    · refine List.pairwise_cons.mpr ⟨fun other hother => ?_, ih (start + 1)⟩
      obtain ⟨index, named, -, -, rfl⟩ := mem_namedReplacements hother
      show start < start + 1 + index
      omega
    · exact ih (start + 1)

theorem wholeReplacements_pairwise (list : List WholeImport) (start : Nat) :
    (wholeReplacements rule start list).Pairwise fun a b => a.origin.Before b.origin := by
  induction list generalizing start with
  | nil => exact .nil
  | cons first rest ih =>
    refine List.pairwise_cons.mpr ⟨fun other hother => ?_, ih (start + 1)⟩
    obtain ⟨index, whole, -, rfl⟩ := mem_wholeReplacements hother
    show start < start + 1 + index
    omega

end OneRule

/-- The replacements for one rule. -/
def Rule.replacements (rule : Rule) (bindings : Bindings) : List Replacement :=
  namedReplacements rule 0 bindings.named ++ wholeReplacements rule 0 bindings.whole

theorem Rule.replacements_pairwise (rule : Rule) (bindings : Bindings) :
    (rule.replacements bindings).Pairwise fun a b => a.origin.Before b.origin := by
  refine List.pairwise_append.mpr ⟨namedReplacements_pairwise _ 0, wholeReplacements_pairwise _ 0,
    fun a ha b hb => ?_⟩
  obtain ⟨index, named, -, -, rfl⟩ := mem_namedReplacements ha
  obtain ⟨other, whole, -, rfl⟩ := mem_wholeReplacements hb
  trivial

/-- All sightings with their replacements, in their order. -/
def sightings (bindings : Bindings) (rules : List Rule) : List (Sighting × Replacement) :=
  rules.zipIdx.flatMap fun (rule, position) =>
    (rule.replacements bindings).map fun replacement =>
      (⟨position, replacement.origin⟩, replacement)

section Sightings

variable {bindings : Bindings} {rules : List Rule} {sighting : Sighting}
  {replacement : Replacement}

theorem map_snd_sightings (bindings : Bindings) (rules : List Rule) :
    (sightings bindings rules).map Prod.snd = replacements bindings rules := by
  have hblocks : (sightings bindings rules).map Prod.snd =
      (rules.zipIdx.map Prod.fst).flatMap (·.replacements bindings) := by
    rw [List.flatMap_map]
    simp [sightings, List.map_flatMap, Function.comp_def]
  rw [hblocks, List.zipIdx_map_fst]
  rfl

theorem mem_sightings : (sighting, replacement) ∈ sightings bindings rules ↔
    Sees bindings rules sighting replacement := by
  simp only [sightings, List.mem_flatMap, List.mem_map, Prod.exists, List.mem_zipIdx_iff_getElem?,
    Prod.mk.injEq, Rule.replacements, List.mem_append]
  constructor
  · rintro ⟨rule, position, hrule, found, hfound | hfound, rfl, rfl⟩
    · obtain ⟨index, named, hnamed, hexports, rfl⟩ := mem_namedReplacements hfound
      rw [Nat.zero_add]
      exact .named hrule hnamed hexports
    · obtain ⟨index, whole, hwhole, rfl⟩ := mem_wholeReplacements hfound
      rw [Nat.zero_add]
      exact .whole hrule hwhole
  · intro h
    cases h with
    | @named position index rule named hrule hnamed hexports =>
      have hmem := sees_mem_namedReplacements hnamed hexports 0
      rw [Nat.zero_add] at hmem
      exact ⟨rule, position, hrule, _, Or.inl hmem, rfl, rfl⟩
    | @whole position index rule whole hrule hwhole =>
      have hmem := @sees_mem_wholeReplacements rule _ _ _ hwhole 0
      rw [Nat.zero_add] at hmem
      exact ⟨rule, position, hrule, _, Or.inr hmem, rfl, rfl⟩

theorem sightings_pairwise (bindings : Bindings) (rules : List Rule) :
    (sightings bindings rules).Pairwise fun a b => a.1.Before b.1 := by
  unfold sightings
  rw [List.pairwise_flatMap]
  constructor
  · rintro ⟨rule, position⟩ -
    rw [List.pairwise_map]
    exact (rule.replacements_pairwise bindings).imp fun h => Or.inr ⟨rfl, h⟩
  · have hpositions : rules.zipIdx.Pairwise fun a b => a.2 < b.2 := by
      rw [← List.pairwise_map (f := Prod.snd) (R := (· < ·)), List.zipIdx_map_snd]
      exact List.pairwise_lt_range'
    refine hpositions.imp fun {a b} hlt => ?_
    rintro first hfirst second hsecond
    obtain ⟨_, -, rfl⟩ := List.mem_map.mp hfirst
    obtain ⟨_, -, rfl⟩ := List.mem_map.mp hsecond
    exact Or.inl hlt

end Sightings

/-! ## Looking up -/

/-- In an ordered list, the entry that is found is the one that none comes before. -/
private theorem find?_eq_some_iff_first {α : Type} {list : List α} {before : α → α → Prop}
    (hasymm : ∀ a b, before a b → ¬before b a) (h : list.Pairwise before) {p : α → Bool} {a : α} :
    list.find? p = some a ↔ a ∈ list ∧ p a = true ∧ ∀ b ∈ list, p b = true → ¬before b a := by
  induction list with
  | nil => simp
  | cons first rest ih =>
    obtain ⟨hfirst, hrest⟩ := List.pairwise_cons.mp h
    rw [List.find?_cons]
    cases hp : p first with
    | true =>
      simp only [Option.some.injEq]
      constructor
      · rintro rfl
        refine ⟨List.mem_cons_self, hp, fun b hb _ => ?_⟩
        rcases List.mem_cons.mp hb with rfl | hb
        · exact fun hself => hasymm b b hself hself
        · exact hasymm _ _ (hfirst b hb)
      · rintro ⟨hmem, -, hnone⟩
        rcases List.mem_cons.mp hmem with rfl | hmem
        · rfl
        · exact absurd (hfirst a hmem) (hnone first List.mem_cons_self hp)
    | false =>
      simp only [ih hrest, List.forall_mem_cons, hp, Bool.false_eq_true, false_implies, true_and]
      constructor
      · rintro ⟨hmem, hother⟩
        exact ⟨List.mem_cons_of_mem _ hmem, hother⟩
      · rintro ⟨hmem, hpa, hnone⟩
        refine ⟨(List.mem_cons.mp hmem).resolve_left ?_, hpa, hnone⟩
        rintro rfl
        rw [hp] at hpa
        cases hpa

theorem Origin.before_asymm : ∀ {a b : Origin}, a.Before b → ¬b.Before a
  | .named _, .named _, h, h' => Nat.lt_asymm h h'
  | .named _, .whole _, _, h' => h'
  | .whole _, .named _, h, _ => h
  | .whole _, .whole _, h, h' => Nat.lt_asymm h h'

theorem Sighting.before_asymm {a b : Sighting} (h : a.Before b) : ¬b.Before a := by
  rintro (hlt | ⟨heq, hbefore⟩)
  · rcases h with h | ⟨h, -⟩ <;> omega
  · rcases h with h | ⟨-, h⟩
    · omega
    · exact Origin.before_asymm h hbefore

/-- **Lookups.**  When no bound name and no source of a rule has a dot, what is found for a path
of names without dots is the replacement at the first sighting whose source is the path, and
nothing is found only where there is no such sighting. -/
theorem Lookups.find?_build_iff_first {bindings : Bindings} {rules : List Rule}
    {names : List String} (hdots : NoDots bindings rules) (hnames : names ≠ [])
    (hfree : ∀ name ∈ names, DotFree name) :
    (∀ replacement, (build bindings rules).1.find? names = some replacement ↔
      ∃ sighting, Sees bindings rules sighting replacement ∧ replacement.source.names = names ∧
        ∀ other found, Sees bindings rules other found → found.source.names = names →
          ¬other.Before sighting) ∧
      ((build bindings rules).1.find? names = none ↔
        ∀ sighting replacement, Sees bindings rules sighting replacement →
          replacement.source.names ≠ names) := by
  have hscan : (build bindings rules).1.find? names =
      ((sightings bindings rules).find? fun seen => seen.2.source.names == names).map Prod.snd := by
    rw [find?_build hdots.replacements hnames hfree, ← map_snd_sightings, List.find?_map]
    rfl
  constructor
  · intro replacement
    have hfirst := fun seen => find?_eq_some_iff_first (a := seen)
      (p := fun seen => seen.2.source.names == names) (fun _ _ h => Sighting.before_asymm h)
      (sightings_pairwise bindings rules)
    simp only [Prod.forall, mem_sightings, beq_iff_eq] at hfirst
    rw [hscan, Option.map_eq_some_iff]
    simp only [Prod.exists, hfirst]
    constructor
    · rintro ⟨sighting, found, ⟨hsees, hsource, hfirst⟩, rfl⟩
      exact ⟨sighting, hsees, hsource, hfirst⟩
    · rintro ⟨sighting, hsees, hsource, hfirst⟩
      exact ⟨sighting, replacement, ⟨hsees, hsource, hfirst⟩, rfl⟩
  · rw [hscan, Option.map_eq_none_iff, List.find?_eq_none]
    simp only [Prod.forall, mem_sightings, beq_iff_eq, ne_eq]

/-- A single export under its own name, one under another name, and an alias twice. -/
private def repeatedBindings : Bindings where
  named := [{ exported := "getContext" }, { exported := "settings", renamed := some "s" }]
  whole := [{ name := "teams", style := .default }, { name := "teams", style := .namespace }]

/-- Two rules for one path, and a rule for another one. -/
private def repeatedRules : List Rule :=
  [⟨⟨"getContext", []⟩, ⟨"app", ["getContext"]⟩, none⟩,
    ⟨⟨"settings", ["getSettings"]⟩, ⟨"pages", ["getConfig"]⟩, none⟩,
    ⟨⟨"getContext", []⟩, ⟨"other", ["getContext"]⟩, none⟩]

/-- The first rule and the first alias count, and a renamed export is not found under its own
name. -/
theorem repeatedRules_first :
    NoDots repeatedBindings repeatedRules ∧
      (Lookups.build repeatedBindings repeatedRules).1.find? ["teams", "getContext"] =
        some ⟨⟨"teams", ["getContext"]⟩, ⟨"teams", ["app", "getContext"]⟩,
          ⟨⟨"getContext", []⟩, ⟨"app", ["getContext"]⟩, none⟩, .whole 0⟩ ∧
      (Lookups.build repeatedBindings repeatedRules).1.find? ["settings", "getSettings"] =
        none := by
  have hdots : NoDots repeatedBindings repeatedRules := by
    constructor <;>
      simp [repeatedBindings, repeatedRules, Bindings.localNames, NamedImport.localName,
        NamePath.names, DotFree]
  have hlocal : ∀ {index : Nat} {named : NamedImport},
      repeatedBindings.named[index]? = some named →
        named.localName = "getContext" ∨ named.localName = "s" := by
    intro index named hnamed
    have hmem := List.mem_of_getElem? hnamed
    simp only [repeatedBindings, List.mem_cons, List.not_mem_nil, or_false] at hmem
    rcases hmem with rfl | rfl
    · exact Or.inl rfl
    · exact Or.inr rfl
  have halias : ∀ {index : Nat} {whole : WholeImport},
      repeatedBindings.whole[index]? = some whole → whole.name = "teams" := by
    intro index whole hwhole
    have hmem := List.mem_of_getElem? hwhole
    simp only [repeatedBindings, List.mem_cons, List.not_mem_nil, or_false] at hmem
    rcases hmem with rfl | rfl <;> rfl
  have hsighting := @Sees.whole repeatedBindings repeatedRules 0 0 _ _ rfl rfl
  refine ⟨hdots, ?_, ?_⟩
  · refine ((Lookups.find?_build_iff_first hdots (by decide) (by simp [DotFree])).1 _).mpr
      ⟨⟨0, .whole 0⟩, hsighting, rfl, ?_⟩
    rintro other found hsees hsource (hlt | ⟨-, hbefore⟩)
    · exact absurd hlt (Nat.not_lt_zero _)
    · cases hsees with
      | named _ hnamed _ =>
        rcases hlocal hnamed with hname | hname <;> simp [NamePath.names, hname] at hsource
      | whole => exact Nat.not_lt_zero _ hbefore
  · refine (Lookups.find?_build_iff_first hdots (by decide) (by simp [DotFree])).2.mpr ?_
    rintro sighting replacement hsees hsource
    cases hsees with
    | named _ hnamed _ =>
      rcases hlocal hnamed with hname | hname <;> simp [NamePath.names, hname] at hsource
    | whole _ hwhole => simp [NamePath.names, halias hwhole] at hsource

end SdkMigration
