import SdkMigration.Migration.Transform
import SdkMigration.Proofs.BuiltInTable
import SdkMigration.Proofs.Declarations
import SdkMigration.Proofs.Stages.Imports
import SdkMigration.Proofs.Stages.Leftovers

/-!
# References that are rewritten

In a file, names that start with a bound name denote a member of the module.
Where a rule applies to that member, the migrated file spells the reference by
names that denote the member it has become, through a specifier of one of the
new declarations.

Most references are replaced.  A reference that reads the same afterwards is
left alone, and then no edit of any stage touches it.
-/

namespace SdkMigration

/-! ## What names denote -/

/-- Whether names denote the member of the module at a path: behind a single
export the path starts with the exported name, behind an alias it consists of
the other names. -/
inductive Bindings.Denotes (bindings : Bindings) : List String → List String → Prop where
  | named {named : NamedImport} (mem : named ∈ bindings.named) (rest : List String) :
    Denotes bindings (named.localName :: rest) (named.exported :: rest)
  | whole {whole : WholeImport} (mem : whole ∈ bindings.whole) (rest : List String) :
    Denotes bindings (whole.name :: rest) rest

/-- Whether names denote the member of the module at a path by way of the
declarations that bindings call for. -/
def Bindings.Reaches (bindings : Bindings) (names path : List String) : Prop :=
  ∃ name rest beginning, names = name :: rest ∧ path = beginning ++ rest ∧
    bindings.Imports name beginning

/-- Whether a text spells names, each behind a dot or a question mark and a
dot. -/
inductive Spells : List String → Text → Prop where
  | single (name : String) : Spells [name] name.toList
  | access {names : List String} {text : Text} (h : Spells names text) (name : String) :
    Spells (names ++ [name]) (text ++ '.' :: name.toList)
  | optionalAccess {names : List String} {text : Text} (h : Spells names text) (name : String) :
    Spells (names ++ [name]) (text ++ '?' :: '.' :: name.toList)

/-- Whether a file has the reference at a chain moved to a path.  In the place of
the chain stand names that denote the path by way of the new declarations.
They may be the names that the chain has, and then the place is
unchanged. -/
def Draft.Migrates (final : Draft) (body : Text) (chain : Chain) (path : List String) : Prop :=
  ∃ names spelling, final.edits.Reads body chain.span spelling ∧
    (Spells names spelling ∨ (names = chain.names ∧ spelling = body.slice chain.span)) ∧
    final.bindings.Reaches names path

/-! ## Spelling -/

private theorem spells_renderRest (chain : Chain) (tokens : List String) {names rest : List String}
    {text : Text} (h : Spells names text) (index : Nat) :
    Spells (names ++ rest) (text ++ chain.renderRest tokens index rest) := by
  induction rest generalizing names text index with
  | nil => simpa [Chain.renderRest] using h
  | cons token others ih =>
    unfold Chain.renderRest
    have hstep : Spells (names ++ [token])
        (text ++ ((if chain.hopIsOptional tokens index then ['?', '.'] else ['.']) ++
          token.toList)) := by
      split
      · exact .optionalAccess h token
      · exact .access h token
    have hrest := ih hstep (index + 1)
    rw [List.append_assoc, List.singleton_append, List.append_assoc] at hrest
    exact hrest

/-- A rendered replacement spells its path. -/
theorem spells_render (chain : Chain) (path : NamePath) :
    Spells path.names (chain.render path) :=
  spells_renderRest chain path.names (.single path.first) 1

private theorem spells_intercalate {names rest : List String} {text : Text}
    (h : Spells names text) :
    Spells (names ++ rest) (text ++ (rest.map fun name => '.' :: name.toList).flatten) := by
  induction rest generalizing names text with
  | nil => simpa using h
  | cons name others ih =>
    have hrest := ih (.access h name)
    rw [List.append_assoc, List.singleton_append, List.append_assoc] at hrest
    exact hrest

/-- Joined names are written with a dot before each but the first. -/
theorem NamePath.toList_dotted (path : NamePath) : path.dotted.toList =
    path.first.toList ++ (path.rest.map fun name => '.' :: name.toList).flatten := by
  have hjoined : ∀ (first : String) (rest : List String),
      ['.'].intercalate ((first :: rest).map String.toList) =
        first.toList ++ (rest.map fun name => '.' :: name.toList).flatten := by
    intro first rest
    induction rest generalizing first with
    | nil => simp
    | cons second others ih =>
      have hothers := ih second
      rw [List.map_cons] at hothers
      rw [List.map_cons, List.map_cons, List.intercalate_cons_cons, hothers]
      simp
  unfold NamePath.dotted
  rw [String.toList_intercalate]
  exact hjoined path.first path.rest

/-- Names joined by dots are spelled so. -/
theorem spells_dotted (path : NamePath) : Spells path.names path.dotted.toList := by
  rw [path.toList_dotted]
  exact spells_intercalate (.single path.first)

/-! ## Distinct names -/

namespace Bindings

variable {bindings : Bindings}

theorem named_unique (hdistinct : bindings.localNames.Nodup) {a b : NamedImport}
    (ha : a ∈ bindings.named) (hb : b ∈ bindings.named) (h : a.localName = b.localName) : a = b :=
  List.inj_on_of_nodup_map (List.nodup_append.mp hdistinct).1 ha hb h

theorem named_ne_whole (hdistinct : bindings.localNames.Nodup) {a : NamedImport} {b : WholeImport}
    (ha : a ∈ bindings.named) (hb : b ∈ bindings.whole) : a.localName ≠ b.name :=
  (List.nodup_append.mp hdistinct).2.2 _ (List.mem_map_of_mem ha) _ (List.mem_map_of_mem hb)

/-- Names denote the same member at every stage. -/
theorem Learns.denotes {lessons : Lessons} {before after : Bindings}
    (h : before.Learns lessons after)
    {names path : List String} (hdenotes : before.Denotes names path) :
    after.Denotes names path := by
  cases hdenotes with
  | named mem rest =>
    obtain ⟨index, hindex⟩ := List.mem_iff_getElem?.mp mem
    obtain ⟨learned, hlearned, hsame⟩ := h.named_after hindex
    rw [← hsame.localName, ← hsame.exported]
    exact .named (List.mem_of_getElem? hlearned) rest
  | whole mem =>
    obtain ⟨index, hindex⟩ := List.mem_iff_getElem?.mp mem
    obtain ⟨learned, hlearned, hsame⟩ := h.whole_after hindex
    rw [← hsame.name]
    exact .whole (List.mem_of_getElem? hlearned) path

/-- What more names denote starts with what the first of them denote. -/
theorem Denotes.path_starts (hdistinct : bindings.localNames.Nodup)
    {short long path longer : List String} (hshort : bindings.Denotes short path)
    (hlong : bindings.Denotes long longer) (h : short <+: long) : path <+: longer := by
  cases hshort with
  | @named a ha rest =>
    cases hlong with
    | @named b hb others =>
      obtain ⟨hname, hrest⟩ := List.cons_prefix_cons.mp h
      obtain rfl := named_unique hdistinct ha hb hname
      exact List.cons_prefix_cons.mpr ⟨rfl, hrest⟩
    | @whole b hb others =>
      exact absurd (List.cons_prefix_cons.mp h).1 (named_ne_whole hdistinct ha hb)
  | @whole a ha =>
    cases hlong with
    | @named b hb others =>
      exact absurd (List.cons_prefix_cons.mp h).1.symm (named_ne_whole hdistinct hb ha)
    | @whole b hb => exact (List.cons_prefix_cons.mp h).2

end Bindings

/-! ## The replacement for a reference -/

/-- Whether a replacement is the one for names that denote a path: it is the first
rule for the path as seen through the binding that the names start with. -/
inductive Replacement.For (bindings : Bindings) (rule : Rule) (names : List String) :
    Replacement → Prop where
  | named {index : Nat} {named : NamedImport} (entry : bindings.named[index]? = some named)
    (source : rule.source.first = named.exported)
    (same : names = named.localName :: rule.source.rest) :
    For bindings rule names (named.sees index rule)
  | whole {index : Nat} {whole : WholeImport} (entry : bindings.whole[index]? = some whole)
    (same : names = whole.name :: rule.source.names) :
    For bindings rule names (whole.sees index rule)

section Lookup

variable {bindings : Bindings} {rules : List Rule} {names path : List String} {rule : Rule}

/-- Whether no bound name and no source of a rule has a dot. -/
structure NoDots (bindings : Bindings) (rules : List Rule) : Prop where
  localNames : ∀ name ∈ bindings.localNames, DotFree name
  sources : ∀ rule ∈ rules, ∀ name ∈ rule.source.names, DotFree name

theorem NoDots.replacements (h : NoDots bindings rules) :
    ∀ r ∈ replacements bindings rules, ∀ name ∈ r.source.names, DotFree name := by
  intro r hr name hname
  obtain ⟨rule, hrule, hseen⟩ := mem_replacements hr
  rcases hseen with ⟨index, named, hnamed, _, rfl⟩ | ⟨index, whole, hwhole, rfl⟩
  · rcases List.mem_cons.mp hname with rfl | hname
    · exact h.localNames _ (List.mem_append_left _
        (List.mem_map_of_mem (List.mem_of_getElem? hnamed)))
    · exact h.sources rule hrule name (List.mem_cons_of_mem _ hname)
  · rcases List.mem_cons.mp hname with rfl | hname
    · exact h.localNames _ (List.mem_append_right _
        (List.mem_map_of_mem (List.mem_of_getElem? hwhole)))
    · exact h.sources rule hrule name hname

/-- The lookup of names that denote a path finds the first rule for the path. -/
theorem find?_of_denotes (hdistinct : bindings.localNames.Nodup) (hdots : NoDots bindings rules)
    (hnames : ∀ name ∈ names, DotFree name) (hdenotes : bindings.Denotes names path)
    (hrule : (rules.find? fun rule => rule.source.names == path) = some rule) :
    ∃ replacement, (Lookups.build bindings rules).1.find? names = some replacement ∧
      replacement.For bindings rule names := by
  have hpath : rule.source.names = path := by simpa using List.find?_some hrule
  cases hdenotes with
  | named mem rest =>
    obtain ⟨index, hindex⟩ := List.mem_iff_getElem?.mp mem
    have hcons := List.cons.inj hpath
    refine ⟨_, ?_, .named hindex hcons.1 (by rw [hcons.2])⟩
    rw [Lookups.find?_build hdots.replacements (by simp) hnames,
      find?_replacements_named hdistinct hindex, hrule]
    rfl
  | whole mem =>
    obtain ⟨index, hindex⟩ := List.mem_iff_getElem?.mp mem
    refine ⟨_, ?_, .whole hindex (by rw [hpath])⟩
    rw [Lookups.find?_build hdots.replacements (by simp) hnames,
      find?_replacements_whole hdistinct hindex, hrule]
    rfl

/-- Names for which a lookup finds something denote the source of a rule. -/
theorem denotes_of_find? (hdots : NoDots bindings rules) (hsome : names ≠ [])
    (hnames : ∀ name ∈ names, DotFree name) {replacement : Replacement}
    (hfound : (Lookups.build bindings rules).1.find? names = some replacement) :
    ∃ rule ∈ rules, bindings.Denotes names rule.source.names := by
  rw [Lookups.find?_build hdots.replacements hsome hnames] at hfound
  have hsource : replacement.source.names = names := by simpa using List.find?_some hfound
  obtain ⟨rule, hrule, hseen⟩ := mem_replacements (List.mem_of_find?_eq_some hfound)
  refine ⟨rule, hrule, ?_⟩
  rw [← hsource]
  rcases hseen with ⟨index, named, hnamed, hexported, rfl⟩ | ⟨index, whole, hwhole, rfl⟩
  · have hdenotes := Bindings.Denotes.named (List.mem_of_getElem? hnamed) rule.source.rest
    rw [hexported] at hdenotes
    exact hdenotes
  · exact .whole (List.mem_of_getElem? hwhole) rule.source.names

end Lookup

/-! ## References that stay as they are -/

section Identity

variable {bindings : Bindings} {rule : Rule} {replacement : Replacement} {chain : Chain}

/-- A replacement that changes nothing is for a rule whose target differs from its
source in the first name at most. -/
theorem Replacement.For.rest_eq {names : List String} (h : replacement.For bindings rule names)
    (hidentity : replacement.isIdentity = true) : rule.source.rest = rule.target.rest := by
  have hsame := beq_iff_eq.mp hidentity
  have hrests := congrArg NamePath.rest hsame
  cases h with
  | named _ _ _ => exact hrests
  | whole _ _ => exact (List.cons.inj hrests).2

theorem Replacement.For.source_names {names : List String}
    (h : replacement.For bindings rule names) : replacement.source.names = names := by
  cases h with
  | named _ _ same => exact same.symm
  | whole _ same => exact same.symm

theorem Replacement.For.denotes {names : List String} (h : replacement.For bindings rule names) :
    bindings.Denotes names rule.source.names := by
  cases h with
  | named entry source same =>
    have hdenotes := Bindings.Denotes.named (List.mem_of_getElem? entry) rule.source.rest
    rw [← source, ← same] at hdenotes
    exact hdenotes
  | whole entry same =>
    rw [same]
    exact .whole (List.mem_of_getElem? entry) rule.source.names

/-- A replacement stays the one for the names while bindings learn. -/
theorem Replacement.For.learns {lessons : Lessons} {later : Bindings}
    {names : List String} (h : replacement.For bindings rule names)
    (hlearns : bindings.Learns lessons later) : replacement.For later rule names := by
  cases h with
  | named entry source same =>
    obtain ⟨learned, hlearned, hsame⟩ := hlearns.named_after entry
    rw [← hsame.localName] at same
    rw [← hsame.exported] at source
    have hsees := For.named hlearned source same
    unfold NamedImport.sees at hsees ⊢
    rw [hsame.localName] at hsees
    exact hsees
  | whole entry same =>
    obtain ⟨learned, hlearned, hsame⟩ := hlearns.whole_after entry
    rw [← hsame.name] at same
    have hsees := For.whole hlearned same
    unfold WholeImport.sees at hsees ⊢
    rw [hsame.name] at hsees
    exact hsees

/-- No beginning of a chain that stays as it is names an enumeration. -/
theorem not_enumSite (hdistinct : bindings.localNames.Nodup)
    (hdots : NoDots bindings BuiltIn.enums) (hnames : ∀ name ∈ chain.names, DotFree name)
    (hrule : rule ∈ BuiltIn.functions ++ BuiltIn.interfaces)
    (hfor : replacement.For bindings rule chain.names)
    (hidentity : replacement.isIdentity = true) {beginning : Chain}
    (hbegins : beginning.Begins chain) : ¬ EnumSite bindings BuiltIn.enums beginning := by
  have hrest := hfor.rest_eq hidentity
  have hroot := hbegins.root_eq
  have hfront := hbegins.names_prefix
  intro hsite
  cases hsite with
  | exact found _ =>
    obtain ⟨enum, henum, hdenotes⟩ := denotes_of_find? hdots (by simp [Chain.names, Chain.segments])
      (fun name hname => hnames name (hfront.subset hname)) found
    exact BuiltIn.enum_not_prefix hrule henum
      (hdenotes.path_starts hdistinct hfor.denotes hfront)
  | @aliased enum whole mem last behind bound name =>
    have hname : whole.name = chain.root := name.trans hroot
    cases hfor with
    | named entry _ same =>
      have hlocal : chain.root = _ := (List.cons.inj same).1
      exact Bindings.named_ne_whole hdistinct (List.mem_of_getElem? entry) bound
        (hname.trans hlocal).symm
    | whole _ same =>
      -- The last name stands behind the alias, so it is a name of the source.
      refine BuiltIn.enum_last_notMem hrule mem hrest ?_
      rw [last]
      rw [same] at hfront
      have htail : beginning.rest.map Segment.name <+: rule.source.names :=
        (List.cons_prefix_cons.mp hfront).2
      refine htail.subset (List.mem_map_of_mem ?_)
      unfold Chain.last
      obtain ⟨segment, hsegment⟩ := Option.ne_none_iff_exists'.mp
        (mt List.getLast?_eq_none_iff.mp behind)
      rw [hsegment]
      exact List.mem_of_getLast? hsegment
  | @named enum named mem longer last single bound name =>
    have hname : named.localName = chain.root := name.trans hroot
    cases hfor with
    | @named _ first entry source same =>
      have hlocal : chain.root = first.localName := (List.cons.inj same).1
      obtain rfl := Bindings.named_unique hdistinct bound (List.mem_of_getElem? entry)
        (hname.trans hlocal)
      exact BuiltIn.enum_last_ne hrule mem (last.trans source.symm)
    | whole entry same =>
      have hlocal : chain.root = _ := (List.cons.inj same).1
      exact Bindings.named_ne_whole hdistinct bound (List.mem_of_getElem? entry)
        (hname.trans hlocal)

end Identity

/-! ## The opened draft -/

section Stages

variable {options : MigrationOptions} {dialect : Dialect} {body : Text} {program : Program}

/-- What the file binds from the module before any stage has run. -/
abbrev opened (options : MigrationOptions) (body : Text) (program : Program) : Draft :=
  openDraft options (program.importSites body options.module options.globalName)

theorem opened_edits : (opened options body program).edits = {} := by
  unfold opened openDraft
  split <;> rfl

/-- The bindings are those that are found, with an alias for the global name where
it stands for the module and is not bound. -/
theorem opened_bindings :
    let sites := program.importSites body options.module options.globalName
    (opened options body program).bindings = sites.bindings ∨
      sites.usesImplicitAlias = true ∧ options.globalName ∉ sites.bindings.localNames ∧
        (opened options body program).bindings = sites.bindings.addWhole
          { name := options.globalName, style := .namespace, tentative := true } := by
  intro sites
  unfold opened openDraft
  split
  · rename_i huses
    show Bindings.addTentative _ _ = _ ∨ _ ∧ _ ∧ Bindings.addTentative _ _ = _
    unfold Bindings.addTentative
    split
    · exact Or.inl rfl
    · rename_i hnew
      exact Or.inr ⟨huses, fun hmem => hnew (Bindings.tracks_iff.mpr hmem), rfl⟩
  · exact Or.inl rfl

theorem opened_named : (opened options body program).bindings.named =
    (program.importSites body options.module options.globalName).bindings.named := by
  rcases @opened_bindings options body program with h | ⟨-, -, h⟩ <;> rw [h]
  rfl

theorem fresh_opened {named : NamedImport}
    (h : named ∈ (opened options body program).bindings.named) : named.Fresh := by
  rw [opened_named] at h
  exact Program.fresh_importSites h

theorem localNames_addWhole (bindings : Bindings) (whole : WholeImport) :
    (bindings.addWhole whole).localNames = bindings.localNames ++ [whole.name] := by
  simp [Bindings.localNames, Bindings.addWhole]

theorem dotFree_opened (hplaced : program.Placed body) :
    ∀ name ∈ (opened options body program).bindings.localNames, DotFree name := by
  intro name hname
  rcases @opened_bindings options body program with hsame | ⟨huses, -, hadded⟩
  · rw [hsame] at hname
    exact hplaced.dotFree_localNames hname
  · rw [hadded, localNames_addWhole, List.mem_append] at hname
    rcases hname with hname | hname
    · exact hplaced.dotFree_localNames hname
    · rw [List.mem_singleton.mp hname]
      exact hplaced.dotFree_globalName huses

/-! ## After the references -/

/-- The draft when the stages that rewrite references have run. -/
abbrev rewritten (options : MigrationOptions) (dialect : Dialect) (body : Text)
    (program : Program) : Draft :=
  (opened options body program).rewriteReferences options.mappings dialect body program

/-- The draft before the declarations are rewritten. -/
abbrev flagged (options : MigrationOptions) (dialect : Dialect) (body : Text)
    (program : Program) : Draft :=
  (referenceDraft options dialect body program).flagLeftovers body program

theorem referenceDraft_edits :
    (referenceDraft options dialect body program).edits =
      (rewritten options dialect body program).edits := by
  simp only [referenceDraft]
  split <;> rfl

theorem referenceDraft_named :
    (referenceDraft options dialect body program).bindings.named =
      (rewritten options dialect body program).bindings.named := by
  simp only [referenceDraft]
  split <;> rfl

/-- A single export has learned a name that can be written plainly, and no old
name is marked yet. -/
theorem learned_referenceDraft (hlearns : (opened options body program).bindings.Learns
      MappingTable.builtIn.lessons (rewritten options dialect body program).bindings)
    {named : NamedImport}
    (h : named ∈ (referenceDraft options dialect body program).bindings.named) :
    named.keepsLocalBinding = false ∧
      ∀ target, named.target = some target → isPlainName target = true := by
  rw [referenceDraft_named] at h
  obtain ⟨index, hindex⟩ := List.mem_iff_getElem?.mp h
  obtain ⟨first, hfirst, hsame⟩ := hlearns.named_before hindex
  have hfresh : first.Fresh := fresh_opened (List.mem_of_getElem? hfirst)
  constructor
  · rw [← Bool.not_eq_true]
    intro h
    rcases hsame.keeps_new h with h | h
    · rw [hfresh.keeps] at h
      exact Bool.false_ne_true h
    · exact h
  · intro target h
    rcases hsame.target_new target h with h | ⟨rule, hrule, _, rfl⟩
    · rw [hfresh.target] at h
      cases h
    · exact BuiltIn.isPlainName_target hrule

theorem referenceDraft_whole {whole : WholeImport}
    (hwhole : whole ∈ (rewritten options dialect body program).bindings.whole)
    (hmatched : whole.matched = true) :
    whole ∈ (referenceDraft options dialect body program).bindings.whole := by
  simp only [referenceDraft]
  split
  · exact List.mem_filter.mpr ⟨hwhole, by rw [hmatched, Bool.or_true]⟩
  · exact hwhole

variable {lessons : Lessons} {inside : Chain → Prop}

/-- The stage of leftovers goes on from the rewritten references. -/
private theorem continues_leftovers (inside : Chain → Prop) (hplaced : program.Placed body) :
    (referenceDraft options dialect body program).Continues
      ((allLandmarks program.items).Within inside) .any
      ((referenceDraft options dialect body program).flagLeftovers body program) :=
  Draft.continues_flagLeftovers trivial fun _ hstop =>
    hplaced.landmarks.within_comment hstop.marked

/-- The last stage goes on from the stage of leftovers. -/
private theorem continues_imports (hplaced : program.Placed body) :
    ((referenceDraft options dialect body program).flagLeftovers body program).Continues
      (ImportEdit (allLandmarks program.items) body) .any
      (finalDraft options dialect body program) :=
  Draft.continues_rewriteImports (Draft.allowsImports_of_placed hplaced _)

theorem finalDraft_kept (hplaced : program.Placed body) {edit : Edit}
    (h : edit ∈ (rewritten options dialect body program).edits.held) :
    edit ∈ (finalDraft options dialect body program).edits.held := by
  rw [← referenceDraft_edits] at h
  exact (continues_imports hplaced).kept edit
    ((continues_leftovers (fun _ => True) hplaced).kept edit h)

/-- What no replacement covers in the end was covered by none before. -/
theorem uncovered_referenceDraft (hplaced : program.Placed body) {position : Nat}
    (h : (finalDraft options dialect body program).edits.covers position = false) :
    (referenceDraft options dialect body program).edits.covers position = false := by
  unfold Edits.covers at h ⊢
  rw [List.any_eq_false] at h ⊢
  intro edit hedit
  rw [referenceDraft_edits] at hedit
  exact h edit (finalDraft_kept hplaced hedit)

theorem finalDraft_consistent (hplaced : program.Placed body)
    (h : (rewritten options dialect body program).edits.Consistent) :
    (finalDraft options dialect body program).edits.Consistent := by
  rw [← referenceDraft_edits] at h
  exact (continues_imports hplaced).consistent
    ((continues_leftovers (fun _ => True) hplaced).consistent h)

/-- A chain that no rewritten reference touches is touched by no edit at all. -/
theorem finalDraft_untouched (hplaced : program.Placed body) {chain : Chain}
    (hchain : chain ∈ (allLandmarks program.items).chains)
    (h : ∀ held ∈ (rewritten options dialect body program).edits.held,
      (allLandmarks program.items).Within (· ≠ chain) held) (newText : Text) :
    ∀ edit ∈ (finalDraft options dialect body program).edits.held,
      edit.overlaps ⟨chain.span, newText⟩ = false := by
  rw [← referenceDraft_edits] at h
  have hflagged := (continues_leftovers (· ≠ chain) hplaced).forall_held h fun _ h => h
  exact (continues_imports hplaced).forall_held
    (fun edit hedit => hplaced.landmarks.not_overlaps_chain hchain (hflagged edit hedit) newText)
    fun edit hedit => hedit.not_overlaps_chain hplaced.landmarks hchain newText

theorem finalDraft_bindings :
    (finalDraft options dialect body program).bindings =
      ((referenceDraft options dialect body program).flagLeftovers body program).bindings :=
  Draft.rewriteImports_bindings _ _ _ _

/-- A binding through which a reference was moved is imported with what it has
learned. -/
theorem reaches_of_recorded (hplaced : program.Placed body)
    (hlearns : (opened options body program).bindings.Learns MappingTable.builtIn.lessons
      (rewritten options dialect body program).bindings)
    {bindings : Bindings}
    (hbindings :
      (opened options body program).bindings.Learns MappingTable.builtIn.lessons bindings)
    {rule : Rule} (hrule : rule ∈ MappingTable.builtIn.rules) {names : List String}
    {replacement : Replacement} (hfor : replacement.For bindings rule names)
    (hrecorded : (rewritten options dialect body program).bindings.Recorded replacement.origin) :
    (finalDraft options dialect body program).bindings.Reaches replacement.target.names
      rule.target.names := by
  have hleft := (@continues_leftovers options dialect _ _ (fun _ => True) hplaced).bindings
  rw [finalDraft_bindings]
  cases hfor with
  | @named index named entry source _ =>
    obtain ⟨moved, hmoved, htarget⟩ := hrecorded
    obtain ⟨target, htarget⟩ := Option.isSome_iff_exists.mp htarget
    obtain ⟨first, hfirst, hsame⟩ := hlearns.named_before hmoved
    obtain ⟨other, hother, hsameOther⟩ := hbindings.named_after hfirst
    rw [entry] at hother
    obtain rfl := Option.some.inj hother
    -- The target that was recorded is the namespace of the rule.
    have hmoves : MappingTable.builtIn.Moves first.exported target := by
      refine (hsame.target_new target htarget).resolve_left ?_
      rw [(fresh_opened (List.mem_of_getElem? hfirst)).target]
      exact Option.some_ne_none target ∘ Eq.symm
    have hunique : target = rule.target.first := by
      refine BuiltIn.moves_unique hmoves ⟨rule, hrule, Or.inl ?_, rfl⟩
      rw [source, hsameOther.exported]
    rw [← referenceDraft_named] at hmoved
    obtain ⟨last, hlast, hsameLast⟩ := hleft.named_after hmoved
    refine ⟨rule.target.first, rule.target.rest, [rule.target.first], rfl, rfl, ?_⟩
    refine Bindings.imports_of_target (List.mem_of_getElem? hlast) ?_
      (BuiltIn.isPlainName_target hrule)
    rw [← hunique]
    exact hsameLast.target_kept target htarget
  | @whole index whole entry _ =>
    obtain ⟨moved, hmoved, hmatched⟩ := hrecorded
    obtain ⟨first, hfirst, hsame⟩ := hlearns.whole_before hmoved
    obtain ⟨other, hother, hsameOther⟩ := hbindings.whole_after hfirst
    rw [entry] at hother
    obtain rfl := Option.some.inj hother
    have hmem := referenceDraft_whole (List.mem_of_getElem? hmoved) hmatched
    obtain ⟨settled, hsettled⟩ := List.mem_iff_getElem?.mp hmem
    obtain ⟨last, hlast, hsameLast⟩ := hleft.whole_after hsettled
    refine ⟨whole.name, rule.target.names, [], rfl, rfl, ?_⟩
    have hname : whole.name = last.name := by
      rw [hsameLast.name, hsame.name, hsameOther.name]
    rw [hname]
    exact Bindings.imports_of_whole (List.mem_of_getElem? hlast)

/-! ## From stage to stage -/

/-- The draft when the calls have been rewritten by the built-in mapping. -/
abbrev called (options : MigrationOptions) (body : Text) (program : Program) : Draft :=
  (opened options body program).rewriteCalls body program BuiltIn.functions

/-- The draft when the names of types have been rewritten too. -/
abbrev typed (options : MigrationOptions) (body : Text) (program : Program) : Draft :=
  (called options body program).rewriteTypes program BuiltIn.interfaces

theorem continues_called (inside : Chain → Prop) (hplaced : program.Placed body)
    (hinside : ∀ chain ∈ allCallChains program.items, ∀ replacement,
      (Lookups.build (opened options body program).bindings BuiltIn.functions).1.find?
        chain.names = some replacement → replacement.isIdentity = false → inside chain) :
    (opened options body program).Continues ((allLandmarks program.items).Within inside)
      MappingTable.builtIn.lessons (called options body program) :=
  Draft.continues_rewriteCalls_within hplaced.landmarks MappingTable.builtIn.allows_functions
    hinside

theorem continues_typed (inside : Chain → Prop)
    (hinside : ∀ chain ∈ allTypeChains program.items, ∀ replacement,
      (Lookups.build (called options body program).bindings BuiltIn.interfaces).1.find?
        chain.names = some replacement → replacement.isIdentity = false → inside chain) :
    (called options body program).Continues ((allLandmarks program.items).Within inside)
      MappingTable.builtIn.lessons (typed options body program) :=
  Draft.continues_rewriteTypes_within MappingTable.builtIn.allows_interfaces hinside

private theorem continues_enums (inside : Chain → Prop) (hplaced : program.Placed body)
    (hbuiltIn : options.mappings = .builtIn) (htypes : dialect.types = true)
    (hinside : ∀ chain ∈ (allLandmarks program.items).chains, ∀ beginning : Chain,
      beginning.Begins chain →
      EnumSite (typed options body program).bindings BuiltIn.enums beginning → inside chain) :
    (typed options body program).Continues ((allLandmarks program.items).Within inside)
      MappingTable.builtIn.lessons (rewritten options dialect body program) := by
  simp only [rewritten, Draft.rewriteReferences, hbuiltIn, htypes, if_true]
  exact Draft.continues_rewriteEnums_within hplaced.landmarks MappingTable.builtIn.allows_enums
    hinside

/-- The stages behind the one of calls touch a chain only where it names a type or
a beginning of it an enumeration. -/
private theorem continues_behindCalls (inside : Chain → Prop) (hplaced : program.Placed body)
    (hbuiltIn : options.mappings = .builtIn)
    (htypes : ∀ chain ∈ allTypeChains program.items, inside chain)
    (henums : ∀ chain ∈ (allLandmarks program.items).chains, ∀ beginning : Chain,
      beginning.Begins chain →
      EnumSite (typed options body program).bindings BuiltIn.enums beginning → inside chain) :
    (called options body program).Continues ((allLandmarks program.items).Within inside)
      MappingTable.builtIn.lessons (rewritten options dialect body program) := by
  cases hdialect : dialect.types with
  | true =>
    exact (continues_typed inside fun chain hchain _ _ _ => htypes chain hchain).trans
      (continues_enums inside hplaced hbuiltIn hdialect henums)
  | false =>
    simp only [rewritten, Draft.rewriteReferences, hbuiltIn, hdialect, Bool.false_eq_true,
      if_false]
    exact .refl _

/-- The stages of references replace chains and write comments. -/
theorem continues_rewritten (hplaced : program.Placed body)
    (hbuiltIn : options.mappings = .builtIn) :
    (opened options body program).Continues ((allLandmarks program.items).Within fun _ => True)
      MappingTable.builtIn.lessons (rewritten options dialect body program) :=
  (continues_called _ hplaced fun _ _ _ _ _ => trivial).trans
    (continues_behindCalls _ hplaced hbuiltIn (fun _ _ => trivial) fun _ _ _ _ _ => trivial)

/-- Whatever the stages do, no two edits overlap. -/
theorem consistent_finalDraft (hplaced : program.Placed body)
    (hbuiltIn : options.mappings = .builtIn) :
    (finalDraft options dialect body program).edits.Consistent := by
  refine finalDraft_consistent hplaced ((continues_rewritten hplaced hbuiltIn).consistent ?_)
  rw [opened_edits]
  exact Edits.consistent_nil

/-! ## Migrated sites -/

/-- A reference that was replaced, or that stays as it is and is not touched, is
migrated. -/
private theorem migrates_of_rewritten (hplaced : program.Placed body)
    (hbuiltIn : options.mappings = .builtIn) {bindings : Bindings}
    (hbindings :
      (opened options body program).bindings.Learns MappingTable.builtIn.lessons bindings)
    {rule : Rule} (hrule : rule ∈ MappingTable.builtIn.rules) {chain : Chain}
    (hchain : chain ∈ (allLandmarks program.items).chains) {replacement : Replacement}
    (hfor : replacement.For bindings rule chain.names) {newText : Text}
    (hspells : Spells replacement.target.names newText)
    (hrecorded : (rewritten options dialect body program).bindings.Recorded replacement.origin)
    (hheld : replacement.isIdentity = false →
      ⟨chain.span, newText⟩ ∈ (rewritten options dialect body program).edits.held)
    (huntouched : replacement.isIdentity = true →
      ∀ held ∈ (rewritten options dialect body program).edits.held,
        (allLandmarks program.items).Within (· ≠ chain) held) :
    (finalDraft options dialect body program).Migrates body chain rule.target.names := by
  have hconsistent := @consistent_finalDraft options dialect body program hplaced hbuiltIn
  have hspan := (hplaced.landmarks.chains chain hchain).start_lt_stop
  have hreaches := reaches_of_recorded hplaced (continues_rewritten hplaced hbuiltIn).bindings
    hbindings hrule hfor hrecorded
  cases hidentity : replacement.isIdentity with
  | false =>
    have hkept := finalDraft_kept hplaced (hheld hidentity)
    exact ⟨_, newText, hconsistent.reads_held body hkept hspan, Or.inl hspells, hreaches⟩
  | true =>
    have hnames : replacement.target.names = chain.names := by
      rw [← beq_iff_eq.mp hidentity]
      exact hfor.source_names
    exact ⟨_, _, hconsistent.reads_untouched body hspan
      (finalDraft_untouched hplaced hchain (huntouched hidentity) []),
      Or.inr ⟨hnames, rfl⟩, hreaches⟩

theorem noDots (hplaced : program.Placed body) {bindings : Bindings}
    (hlearns : (opened options body program).bindings.Learns MappingTable.builtIn.lessons bindings)
    {rules : List Rule} (hrules : ∀ rule ∈ rules, rule ∈ MappingTable.builtIn.rules) :
    NoDots bindings rules := by
  refine ⟨?_, fun rule hrule name => BuiltIn.dotFree_source (hrules rule hrule)⟩
  rw [hlearns.localNames]
  exact dotFree_opened hplaced

theorem no_held {marks : Landmarks} : ∀ held ∈ (opened options body program).edits.held,
    marks.Within inside held := by
  rw [opened_edits]
  simp

private theorem mem_rules_of_function {rule : Rule} (h : rule ∈ BuiltIn.functions) :
    rule ∈ MappingTable.builtIn.rules := List.mem_append_left _ (List.mem_append_left _ h)

private theorem mem_rules_of_interface {rule : Rule} (h : rule ∈ BuiltIn.interfaces) :
    rule ∈ MappingTable.builtIn.rules := List.mem_append_left _ (List.mem_append_right _ h)

theorem mem_rules_of_enum {rule : Rule} (h : rule ∈ BuiltIn.enums) :
    rule ∈ MappingTable.builtIn.rules := List.mem_append_right _ h

/-- A chain that stays as it is has no beginning that names an enumeration when the
stage of enumerations comes to it. -/
private theorem ne_of_enumSite (hplaced : program.Placed body)
    (hdistinct : (opened options body program).bindings.localNames.Nodup) {chain : Chain}
    (hchain : chain ∈ (allLandmarks program.items).chains) {rule : Rule}
    (hrule : rule ∈ BuiltIn.functions ++ BuiltIn.interfaces) {replacement : Replacement}
    {bindings : Bindings} (hfor : replacement.For bindings rule chain.names)
    (hidentity : replacement.isIdentity = true)
    (hbindings :
      bindings.Learns MappingTable.builtIn.lessons (typed options body program).bindings) :
    ∀ other ∈ (allLandmarks program.items).chains, ∀ beginning : Chain,
      beginning.Begins other →
      EnumSite (typed options body program).bindings BuiltIn.enums beginning →
      other ≠ chain := by
  intro other _ beginning hbegins hsite hsame
  subst hsame
  have hlearns : (opened options body program).Continues
      ((allLandmarks program.items).Within fun _ => True) MappingTable.builtIn.lessons
      (typed options body program) :=
    (continues_called _ hplaced fun _ _ _ _ _ => trivial).trans
      (continues_typed _ fun _ _ _ _ _ => trivial)
  refine not_enumSite ?_ (noDots hplaced hlearns.bindings fun _ => mem_rules_of_enum)
    (fun name => (hplaced.landmarks.chains other hchain).dotFree) hrule (hfor.learns hbindings)
    hidentity hbegins hsite
  rw [hlearns.bindings.localNames]
  exact hdistinct

/-- A stage that looks up chains touches a chain that stays as it is at no site. -/
private theorem ne_of_identity {bindings : Bindings} {rules : List Rule} {chain : Chain}
    {replacement : Replacement}
    (hfound : (Lookups.build bindings rules).1.find? chain.names = some replacement)
    (hidentity : replacement.isIdentity = true) (other : Chain) (found : Replacement)
    (hother : (Lookups.build bindings rules).1.find? other.names = some found)
    (hchanges : found.isIdentity = false) : other ≠ chain := by
  intro hsame
  subst hsame
  rw [hfound] at hother
  obtain rfl := Option.some.inj hother
  rw [hidentity] at hchanges
  cases hchanges

/-- Every call whose callee denotes a member that a rule for functions is for is
migrated to the target of the first such rule. -/
theorem call_migrated (hplaced : program.Placed body) (hbuiltIn : options.mappings = .builtIn)
    (hdistinct : (opened options body program).bindings.localNames.Nodup) {chain : Chain}
    (hchain : chain ∈ allCallChains program.items) {path : List String}
    (hdenotes : (opened options body program).bindings.Denotes chain.names path) {rule : Rule}
    (hrule : (BuiltIn.functions.find? fun rule => rule.source.names == path) = some rule) :
    (finalDraft options dialect body program).Migrates body chain rule.target.names := by
  have hmem := Draft.mem_chains_of_call hchain
  have hruleMem := List.mem_of_find?_eq_some hrule
  obtain ⟨replacement, hfound, hfor⟩ := find?_of_denotes hdistinct
    (noDots hplaced (.refl _) fun _ => mem_rules_of_function)
    (fun name => (hplaced.landmarks.chains chain hmem).dotFree) hdenotes hrule
  have hreplaced := Draft.rewriteCalls_replaces hplaced.landmarks
    MappingTable.builtIn.allows_functions hchain hfound no_held
  have hbehind : (called options body program).Continues
      ((allLandmarks program.items).Within fun _ => True) MappingTable.builtIn.lessons
      (rewritten options dialect body program) :=
    continues_behindCalls _ hplaced hbuiltIn (fun _ _ => trivial) fun _ _ _ _ _ => trivial
  refine migrates_of_rewritten hplaced hbuiltIn (.refl _)
    (mem_rules_of_function hruleMem) hmem hfor (spells_render chain replacement.target)
    (hbehind.bindings.recorded hreplaced.1)
    (fun hidentity => hbehind.kept _ (hreplaced.2 hidentity)) fun hidentity => ?_
  -- No stage touches a call that stays as it is.
  have hcalled := continues_called (· ≠ chain) hplaced
    fun other _ => ne_of_identity hfound hidentity other
  have htypes : ∀ other ∈ allTypeChains program.items, other ≠ chain :=
    fun other hother hsame => Draft.not_type_of_call hplaced.landmarks hchain (hsame ▸ hother)
  have htyped := hcalled.trans (continues_typed (· ≠ chain)
    fun other hother _ _ _ => htypes other hother)
  have hrest : (called options body program).Continues
      ((allLandmarks program.items).Within (· ≠ chain)) MappingTable.builtIn.lessons
      (rewritten options dialect body program) :=
    continues_behindCalls _ hplaced hbuiltIn htypes (ne_of_enumSite hplaced hdistinct hmem
      (List.mem_append_left _ hruleMem) hfor hidentity htyped.bindings)
  exact (hcalled.trans hrest).forall_held no_held fun _ h => h

/-- Every name of a type that denotes a member that a rule for interfaces is for is
migrated to the target of the first such rule, in a dialect with types. -/
theorem type_migrated (hplaced : program.Placed body) (hbuiltIn : options.mappings = .builtIn)
    (htypes : dialect.types = true)
    (hdistinct : (opened options body program).bindings.localNames.Nodup) {chain : Chain}
    (hchain : chain ∈ allTypeChains program.items) {path : List String}
    (hdenotes : (opened options body program).bindings.Denotes chain.names path) {rule : Rule}
    (hrule : (BuiltIn.interfaces.find? fun rule => rule.source.names == path) = some rule) :
    (finalDraft options dialect body program).Migrates body chain rule.target.names := by
  have hmem := Draft.mem_chains_of_type hchain
  have hruleMem := List.mem_of_find?_eq_some hrule
  -- The stage of calls comes first and lies in other chains.
  have hcalled : (opened options body program).Continues
      ((allLandmarks program.items).Within (· ≠ chain)) MappingTable.builtIn.lessons
      (called options body program) :=
    continues_called _ hplaced fun other hother _ _ _ hsame =>
      Draft.not_type_of_call hplaced.landmarks hother (hsame ▸ hchain)
  have hlearned := hcalled.bindings
  obtain ⟨replacement, hfound, hfor⟩ := find?_of_denotes
    (by rw [hlearned.localNames]; exact hdistinct)
    (noDots hplaced hlearned fun _ => mem_rules_of_interface)
    (fun name => (hplaced.landmarks.chains chain hmem).dotFree) (hlearned.denotes hdenotes) hrule
  have hreplaced := Draft.rewriteTypes_replaces hplaced.landmarks
    MappingTable.builtIn.allows_interfaces hchain hfound
    (hcalled.forall_held no_held fun _ h => h)
  have henums := continues_enums (fun _ => True) hplaced hbuiltIn htypes
    fun _ _ _ _ _ => trivial
  refine migrates_of_rewritten hplaced hbuiltIn hlearned
    (mem_rules_of_interface hruleMem) hmem hfor (spells_dotted replacement.target)
    (henums.bindings.recorded hreplaced.1)
    (fun hidentity => henums.kept _ (hreplaced.2 hidentity)) fun hidentity => ?_
  -- No stage touches a name that stays as it is.
  have htyped := continues_typed (· ≠ chain)
    fun other _ => ne_of_identity hfound hidentity other
  have hrest := continues_enums (· ≠ chain) hplaced hbuiltIn htypes
    (ne_of_enumSite hplaced hdistinct hmem (List.mem_append_right _ hruleMem) hfor hidentity
      htyped.bindings)
  exact ((hcalled.trans htyped).trans hrest).forall_held no_held fun _ h => h

/-! ## The new declarations -/

/-- When a name is imported, the new declarations stand in the migrated file. -/
theorem importBlock_infix (hplaced : program.Placed body) (hbuiltIn : options.mappings = .builtIn)
    (hitems : program.items ≠ []) {name : String} {path : List String}
    (himports : (finalDraft options dialect body program).bindings.Imports name path) :
    (finalDraft options dialect body program).importBlock
        (program.importSites body options.module options.globalName) options.module <:+:
      (finalDraft options dialect body program).edits.apply body := by
  have hrewritten := @continues_rewritten options dialect _ _ hplaced hbuiltIn
  have hheld := hrewritten.forall_held no_held fun _ h => h
  rw [← referenceDraft_edits] at hheld
  have hflagged := (continues_leftovers (fun _ => True) hplaced).forall_held hheld fun _ h => h
  have hconsistent := @consistent_finalDraft options dialect body program hplaced hbuiltIn
  have hblock := himports.block_ne_nil options.module
    (program.importSites body options.module options.globalName).sideEffect
  unfold Draft.importBlock
  rw [finalDraft_bindings] at hblock ⊢
  obtain ⟨edit, hedit, hfront⟩ := Draft.held_importBlock hplaced hitems hblock hflagged
  exact hfront.isInfix.trans (hconsistent.newText_infix body hedit)

end Stages

end SdkMigration
