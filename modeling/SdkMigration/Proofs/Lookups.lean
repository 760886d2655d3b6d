import Mathlib.Data.List.Find
import SdkMigration.Migration.Lookup
import SdkMigration.Proofs.Landmarks

/-!
# Looking up replacements

The tables of a file hold a replacement under the names of its source joined
by dots.  Names without a dot can be told from the joined form, so a lookup
finds the first replacement whose source has the very names that are looked
up.

A chain that starts with a name bound once is seen through that binding
alone.  What a lookup finds for it is the first rule for the path that the
chain denotes, as seen through the binding.
-/

namespace SdkMigration

/-! ## Names joined by dots -/

/-- Names without a dot are known from their joined form. -/
theorem dotted_injective {names others : List String} (hnames : names ≠ [])
    (hothers : others ≠ []) (hfree : ∀ name ∈ names, DotFree name)
    (hfreeOthers : ∀ name ∈ others, DotFree name)
    (h : ".".intercalate names = ".".intercalate others) : names = others := by
  have hsplit : ∀ {list : List String}, list ≠ [] → (∀ name ∈ list, DotFree name) →
      (".".intercalate list).toList.splitOn '.' = list.map String.toList := by
    intro list hlist hfree
    rw [String.toList_intercalate]
    refine List.splitOn_intercalate '.' ?_ (by simpa using hlist)
    intro chars hchars
    obtain ⟨name, hname, rfl⟩ := List.mem_map.mp hchars
    exact hfree name hname
  have hlists : names.map String.toList = others.map String.toList := by
    rw [← hsplit hnames hfree, ← hsplit hothers hfreeOthers, h]
  exact List.map_injective_iff.mpr (fun _ _ => String.toList_inj.mp) hlists

/-- The first name is known from the joined form, whatever the others are. -/
theorem head_of_dotted {name other : String} {rest others : List String} (hname : DotFree name)
    (hother : DotFree other)
    (h : ".".intercalate (name :: rest) = ".".intercalate (other :: others)) : name = other := by
  have hfirst : ∀ {first : String} (more : List String), DotFree first →
      (".".intercalate (first :: more)).toList.takeWhile (· != '.') = first.toList := by
    intro first more hfree
    have hall : ∀ c ∈ first.toList, (c != '.') = true := by
      intro c hc
      rw [bne_iff_ne]
      rintro rfl
      exact hfree hc
    rw [String.toList_intercalate]
    cases more with
    | nil =>
      have happend : (first.toList ++ []).takeWhile (· != '.') = first.toList ++ [] :=
        List.takeWhile_append_of_pos hall
      simpa using happend
    | cons second others =>
      rw [List.map_cons, List.map_cons, List.intercalate_cons_cons,
        List.append_assoc, List.takeWhile_append_of_pos hall]
      simp
  refine String.toList_inj.mp ?_
  rw [← hfirst rest hname, h, hfirst others hother]

/-! ## Tables -/

/-- Whether names are the source of a replacement: they are the same when they are joined by
dots, and either both are a single name or neither is. -/
def Replacement.isFor (replacement : Replacement) (names : List String) : Bool :=
  replacement.source.rest.isEmpty == (names.length == 1) &&
    replacement.source.dotted == ".".intercalate names

namespace Lookups

/-- The table of single names, or that of longer paths. -/
def table (lookups : Lookups) (direct : Bool) : KeyedReplacements :=
  if direct then lookups.direct else lookups.chained

/-- What a replacement adds to a table. -/
private theorem lookup_add (found : Lookups × List Note) (replacement : Replacement)
    (direct : Bool) (key : String) :
    ((add found replacement).1.table direct).lookup key =
      ((found.1.table direct).lookup key).or
        (if replacement.source.rest.isEmpty == direct && replacement.source.dotted == key then
          some replacement
        else none) := by
  obtain ⟨lookups, notes⟩ := found
  unfold add table
  by_cases hkey : replacement.source.dotted = key
  · subst hkey
    cases replacement.source.rest.isEmpty <;> cases direct <;>
      simp only [Bool.false_eq_true, if_false, if_true, beq_self_eq_true, Bool.and_self] <;>
      split <;> simp_all [List.lookup_append]
  · have hother : (key == replacement.source.dotted) = false := by
      simpa using fun h => hkey h.symm
    cases replacement.source.rest.isEmpty <;> cases direct <;>
      simp only [Bool.false_eq_true, if_false, if_true] <;>
      split <;> simp [List.lookup_append, List.lookup_cons, hkey, hother]

private theorem lookup_foldl (found : Lookups × List Note) (list : List Replacement)
    (direct : Bool) (key : String) :
    ((list.foldl add found).1.table direct).lookup key =
      ((found.1.table direct).lookup key).or
        (list.find? fun r => r.source.rest.isEmpty == direct && r.source.dotted == key) := by
  induction list generalizing found with
  | nil => simp
  | cons first rest ih =>
    rw [List.foldl_cons, ih, lookup_add, Option.or_assoc, List.find?_cons]
    cases first.source.rest.isEmpty == direct && first.source.dotted == key <;> simp

theorem find?_eq_lookup (lookups : Lookups) (names : List String) :
    lookups.find? names =
      (lookups.table (names.length == 1)).lookup (".".intercalate names) := by
  unfold find? table
  split <;> simp_all

private theorem lookup_empty (direct : Bool) (key : String) :
    (({} : Lookups).table direct).lookup key = none := by
  unfold table
  split <;> rfl

/-- A lookup finds the first replacement that the names are the source of. -/
theorem find?_build_eq_find? {bindings : Bindings} {rules : List Rule} {names : List String} :
    (build bindings rules).1.find? names =
      (replacements bindings rules).find? (·.isFor names) := by
  rw [find?_eq_lookup]
  unfold build
  rw [lookup_foldl, lookup_empty, Option.none_or]
  rfl

/-- What a lookup finds is one of the replacements. -/
theorem mem_of_find?_build {bindings : Bindings} {rules : List Rule} {names : List String}
    {replacement : Replacement}
    (h : (build bindings rules).1.find? names = some replacement) :
    replacement ∈ replacements bindings rules := by
  rw [find?_build_eq_find?] at h
  exact List.mem_of_find?_eq_some h

/-- What a lookup finds has the joined form of the names that are looked up. -/
theorem dotted_of_find?_build {bindings : Bindings} {rules : List Rule} {names : List String}
    {replacement : Replacement}
    (h : (build bindings rules).1.find? names = some replacement) :
    replacement.source.dotted = ".".intercalate names := by
  rw [find?_build_eq_find?] at h
  have hkey := List.find?_some h
  simp only [Replacement.isFor, Bool.and_eq_true, beq_iff_eq] at hkey
  exact hkey.2

/-- A lookup finds the first replacement for the names, as long as no name has a
dot. -/
theorem find?_build {bindings : Bindings} {rules : List Rule} {names : List String}
    (hsources : ∀ r ∈ replacements bindings rules, ∀ name ∈ r.source.names, DotFree name)
    (hnames : names ≠ []) (hfree : ∀ name ∈ names, DotFree name) :
    (build bindings rules).1.find? names =
      (replacements bindings rules).find? fun r => r.source.names == names := by
  rw [find?_build_eq_find?]
  refine List.find?_congr fun r hr => ?_
  rw [Bool.eq_iff_iff]
  simp only [Replacement.isFor, Bool.and_eq_true, beq_iff_eq]
  constructor
  · rintro ⟨-, hdotted⟩
    exact dotted_injective (by simp [NamePath.names]) hnames (hsources r hr) hfree hdotted
  · intro hsame
    refine ⟨?_, congrArg (".".intercalate ·) hsame⟩
    rw [← hsame]
    show r.source.rest.isEmpty = ((r.source.first :: r.source.rest).length == 1)
    cases r.source.rest <;> simp

end Lookups

/-! ## Rules seen through a binding -/

/-- The names that are bound to the module and to its exports. -/
def Bindings.localNames (bindings : Bindings) : List String :=
  bindings.named.map NamedImport.localName ++ bindings.whole.map WholeImport.name

/-- A rule as seen through a single export, the one at the given index. -/
def NamedImport.sees (named : NamedImport) (index : Nat) (rule : Rule) : Replacement :=
  ⟨rule.source.withFirst named.localName, rule.target, rule, .named index⟩

/-- A rule as seen through an alias, the one at the given index. -/
def WholeImport.sees (whole : WholeImport) (index : Nat) (rule : Rule) : Replacement :=
  ⟨rule.source.under whole.name, rule.target.under whole.name, rule, .whole index⟩

theorem mem_namedReplacements {rule : Rule} {replacement : Replacement} {list : List NamedImport}
    {start : Nat} (h : replacement ∈ namedReplacements rule start list) :
    ∃ index, ∃ named : NamedImport, list[index]? = some named ∧ named.exported = rule.source.first ∧
      replacement = named.sees (start + index) rule := by
  induction list generalizing start with
  | nil => simp [namedReplacements] at h
  | cons first rest ih =>
    have hrest : replacement ∈ namedReplacements rule (start + 1) rest →
        ∃ index, ∃ named : NamedImport, (first :: rest)[index]? = some named ∧
          named.exported = rule.source.first ∧
          replacement = named.sees (start + index) rule := by
      intro h
      obtain ⟨index, named, hnamed, hexported, hreplacement⟩ := ih h
      refine ⟨index + 1, named, hnamed, hexported, ?_⟩
      rw [hreplacement, Nat.add_assoc, Nat.add_comm 1 index]
    unfold namedReplacements at h
    split at h
    · rename_i hexported
      rcases List.mem_cons.mp h with h | h
      · exact ⟨0, first, rfl, hexported, h⟩
      · exact hrest h
    · exact hrest h

theorem mem_wholeReplacements {rule : Rule} {replacement : Replacement} {list : List WholeImport}
    {start : Nat} (h : replacement ∈ wholeReplacements rule start list) :
    ∃ index, ∃ whole : WholeImport, list[index]? = some whole ∧
      replacement = whole.sees (start + index) rule := by
  induction list generalizing start with
  | nil => simp [wholeReplacements] at h
  | cons first rest ih =>
    rcases List.mem_cons.mp h with h | h
    · exact ⟨0, first, rfl, h⟩
    · obtain ⟨index, whole, hwhole, hreplacement⟩ := ih h
      refine ⟨index + 1, whole, hwhole, ?_⟩
      rw [hreplacement, Nat.add_assoc, Nat.add_comm 1 index]

/-- Every replacement of a file is a rule as seen through one of the bindings. -/
theorem mem_replacements {bindings : Bindings} {rules : List Rule} {replacement : Replacement}
    (h : replacement ∈ replacements bindings rules) :
    ∃ rule ∈ rules,
      (∃ index, ∃ named : NamedImport, bindings.named[index]? = some named ∧
        named.exported = rule.source.first ∧ replacement = named.sees index rule) ∨
      ∃ index, ∃ whole : WholeImport, bindings.whole[index]? = some whole ∧
        replacement = whole.sees index rule := by
  obtain ⟨rule, hrule, h⟩ := List.mem_flatMap.mp h
  refine ⟨rule, hrule, (List.mem_append.mp h).imp ?_ ?_⟩
  · intro h
    obtain ⟨index, named, hnamed, hexported, rfl⟩ := mem_namedReplacements h
    exact ⟨index, named, hnamed, hexported, by rw [Nat.zero_add]⟩
  · intro h
    obtain ⟨index, whole, hwhole, rfl⟩ := mem_wholeReplacements h
    exact ⟨index, whole, hwhole, by rw [Nat.zero_add]⟩

theorem Bindings.tracks_iff {bindings : Bindings} {name : String} :
    bindings.tracks name = true ↔ name ∈ bindings.localNames := by
  unfold tracks isAlias wholeIndex? namedIndex? localNames
  rw [List.findIdx?_isSome, List.findIdx?_isSome, Bool.or_comm, Bool.or_eq_true, List.mem_append]
  simp only [List.any_eq_true, beq_iff_eq, List.mem_map]

/-- A lookup finds something only for names that start with a bound one. -/
theorem Lookups.tracks_of_find?_build {bindings : Bindings} {rules : List Rule} {name : String}
    {rest : List String} {replacement : Replacement}
    (hlocal : ∀ name ∈ bindings.localNames, DotFree name) (hname : DotFree name)
    (h : (build bindings rules).1.find? (name :: rest) = some replacement) :
    bindings.tracks name = true := by
  have hdotted := dotted_of_find?_build h
  obtain ⟨rule, -, hseen⟩ := mem_replacements (mem_of_find?_build h)
  rw [Bindings.tracks_iff]
  rcases hseen with ⟨index, named, hnamed, -, rfl⟩ | ⟨index, whole, hwhole, rfl⟩
  · have hmem : named.localName ∈ bindings.localNames :=
      List.mem_append_left _ (List.mem_map_of_mem (List.mem_of_getElem? hnamed))
    rw [← head_of_dotted (hlocal _ hmem) hname hdotted]
    exact hmem
  · have hmem : whole.name ∈ bindings.localNames :=
      List.mem_append_right _ (List.mem_map_of_mem (List.mem_of_getElem? hwhole))
    rw [← head_of_dotted (hlocal _ hmem) hname hdotted]
    exact hmem

section FirstRule

variable {rule : Rule} {name : String} {rest : List String}

private theorem find?_named_of_notMem {list : List NamedImport} (start : Nat)
    (h : name ∉ list.map NamedImport.localName) :
    (namedReplacements rule start list).find? (fun r => r.source.names == name :: rest) =
      none := by
  rw [List.find?_eq_none]
  intro r hr hsame
  obtain ⟨index, named, hnamed, -, rfl⟩ := mem_namedReplacements hr
  have hfirst : named.localName = name := (List.cons.inj (beq_iff_eq.mp hsame)).1
  rw [← hfirst] at h
  exact h (List.mem_map_of_mem (List.mem_of_getElem? hnamed))

private theorem find?_whole_of_notMem {list : List WholeImport} (start : Nat)
    (h : name ∉ list.map WholeImport.name) :
    (wholeReplacements rule start list).find? (fun r => r.source.names == name :: rest) =
      none := by
  rw [List.find?_eq_none]
  intro r hr hsame
  obtain ⟨index, whole, hwhole, rfl⟩ := mem_wholeReplacements hr
  have hfirst : whole.name = name := (List.cons.inj (beq_iff_eq.mp hsame)).1
  rw [← hfirst] at h
  exact h (List.mem_map_of_mem (List.mem_of_getElem? hwhole))

/-- Of the replacements for one rule, the one through the single export bound to
the name applies if the rule is for the path that is denoted. -/
private theorem find?_named {list : List NamedImport} {index : Nat} {named : NamedImport}
    (start : Nat) (hdistinct : (list.map NamedImport.localName).Nodup)
    (hnamed : list[index]? = some named) :
    (namedReplacements rule start list).find?
        (fun r => r.source.names == named.localName :: rest) =
      if rule.source.names = named.exported :: rest then some (named.sees (start + index) rule)
      else none := by
  induction list generalizing start index with
  | nil => simp at hnamed
  | cons first others ih =>
    obtain ⟨hfirst, hothers⟩ := List.nodup_cons.mp hdistinct
    cases index with
    | zero =>
      obtain rfl := Option.some.inj hnamed
      have hnone := @find?_named_of_notMem rule _ rest _ (start + 1) hfirst
      unfold namedReplacements
      by_cases hexported : first.exported = rule.source.first
      · rw [if_pos hexported, List.find?_cons, hnone, NamePath.names, hexported]
        by_cases hrest : rule.source.rest = rest
        · simp [hrest, NamePath.names, NamePath.withFirst, NamedImport.sees]
        · have hsame : (rule.source.rest == rest) = false := beq_eq_false_iff_ne.mpr hrest
          simp [hrest, hsame, NamePath.names, NamePath.withFirst]
      · have hpath : ¬ rule.source.names = first.exported :: rest :=
          fun h => hexported (List.cons.inj h).1.symm
        simp only [hexported, if_false, hpath]
        exact hnone
    | succ index =>
      have hother : first.localName ≠ named.localName := by
        intro h
        rw [h] at hfirst
        exact hfirst (List.mem_map_of_mem (List.mem_of_getElem? hnamed))
      have hih := ih (start + 1) hothers hnamed
      rw [Nat.add_assoc, Nat.add_comm 1 index] at hih
      unfold namedReplacements
      split
      · rw [List.find?_cons]
        simp only [NamePath.names, NamePath.withFirst] at hih ⊢
        simp only [List.cons_beq_cons, beq_eq_false_iff_ne.mpr hother, Bool.false_and]
        exact hih
      · exact hih

/-- Of the replacements for one rule, the one through the alias of the name
applies if the rule is for the path that is denoted. -/
private theorem find?_whole {list : List WholeImport} {index : Nat} {whole : WholeImport}
    (start : Nat) (hdistinct : (list.map WholeImport.name).Nodup)
    (hwhole : list[index]? = some whole) :
    (wholeReplacements rule start list).find?
        (fun r => r.source.names == whole.name :: rest) =
      if rule.source.names = rest then some (whole.sees (start + index) rule) else none := by
  induction list generalizing start index with
  | nil => simp at hwhole
  | cons first others ih =>
    obtain ⟨hfirst, hothers⟩ := List.nodup_cons.mp hdistinct
    unfold wholeReplacements
    rw [List.find?_cons]
    cases index with
    | zero =>
      obtain rfl := Option.some.inj hwhole
      have hnone := @find?_whole_of_notMem rule _ rest _ (start + 1) hfirst
      have hsame : ((rule.source.under first.name).names == first.name :: rest) =
          decide (rule.source.names = rest) := by
        rw [Bool.eq_iff_iff, decide_eq_true_iff]
        simp [NamePath.names, NamePath.under]
      rw [hsame]
      by_cases hrest : rule.source.names = rest
      · rw [decide_eq_true hrest, if_pos hrest]
        rfl
      · rw [decide_eq_false hrest, if_neg hrest]
        exact hnone
    | succ index =>
      have hother : first.name ≠ whole.name := by
        intro h
        rw [h] at hfirst
        exact hfirst (List.mem_map_of_mem (List.mem_of_getElem? hwhole))
      have hsame : ((rule.source.under first.name).names == whole.name :: rest) = false := by
        simp [NamePath.names, NamePath.under, hother]
      have hih := ih (start + 1) hothers hwhole
      rw [Nat.add_assoc, Nat.add_comm 1 index] at hih
      rw [hsame]
      exact hih

/-- The first of a list of results, when every entry has one exactly if it
satisfies a condition. -/
private theorem find?_flatMap_of_block {block : Rule → List Replacement} {p : Replacement → Bool}
    {q : Rule → Bool} {result : Rule → Replacement}
    (h : ∀ rule, (block rule).find? p = if q rule then some (result rule) else none)
    (rules : List Rule) : (rules.flatMap block).find? p = (rules.find? q).map result := by
  induction rules with
  | nil => rfl
  | cons first others ih =>
    rw [List.flatMap_cons, List.find?_append, h, ih, List.find?_cons]
    cases q first <;> simp

end FirstRule

/-- Through a single export, a chain is moved by the first rule for the exported
name followed by the names behind the local one. -/
theorem find?_replacements_named {bindings : Bindings} {index : Nat} {named : NamedImport}
    (hdistinct : bindings.localNames.Nodup) (hnamed : bindings.named[index]? = some named)
    (rules : List Rule) (rest : List String) :
    ((replacements bindings rules).find?
        fun r => r.source.names == named.localName :: rest) =
      (rules.find? fun rule => rule.source.names == named.exported :: rest).map
        (named.sees index) := by
  obtain ⟨hnamedDistinct, -, hdisjoint⟩ := List.nodup_append.mp hdistinct
  have hlocal : named.localName ∈ bindings.named.map NamedImport.localName :=
    List.mem_map_of_mem (List.mem_of_getElem? hnamed)
  refine find?_flatMap_of_block (fun rule => ?_) rules
  rw [List.find?_append, find?_named 0 hnamedDistinct hnamed,
    find?_whole_of_notMem 0 fun h => hdisjoint _ hlocal _ h rfl, Nat.zero_add]
  simp

/-- Through an alias of the module, a chain is moved by the first rule for the
names behind the alias. -/
theorem find?_replacements_whole {bindings : Bindings} {index : Nat} {whole : WholeImport}
    (hdistinct : bindings.localNames.Nodup) (hwhole : bindings.whole[index]? = some whole)
    (rules : List Rule) (rest : List String) :
    ((replacements bindings rules).find? fun r => r.source.names == whole.name :: rest) =
      (rules.find? fun rule => rule.source.names == rest).map (whole.sees index) := by
  obtain ⟨-, hwholeDistinct, hdisjoint⟩ := List.nodup_append.mp hdistinct
  have hname : whole.name ∈ bindings.whole.map WholeImport.name :=
    List.mem_map_of_mem (List.mem_of_getElem? hwhole)
  refine find?_flatMap_of_block (fun rule => ?_) rules
  rw [List.find?_append, find?_named_of_notMem 0 fun h => hdisjoint _ h _ hname rfl,
    find?_whole 0 hwholeDistinct hwhole, Nat.zero_add]
  simp

end SdkMigration
