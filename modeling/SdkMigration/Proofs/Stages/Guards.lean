import SdkMigration.Proofs.Stages.EnumFates

/-!
# Guarded accesses

An access that is reached through a question mark is guarded: it is not made when the object is
missing.  A chain that was guarded somewhere is to be guarded somewhere after it is rewritten,
when it still has an access.

What the stage of calls writes is rendered from the whole chain, so it keeps the guard
(`Chain.mem_hops_iff`).  The stage of enumerations renders most of its replacements so too.  But
an access as a whole is rendered as if its last hop were plain, and the end of a chain behind an
alias is replaced by names with plain dots.  The guard is lost where it was in one of these two
places alone (`GuardSlip`, `Draft.keepsGuard_iff`).
-/

namespace SdkMigration

/-! ## Chains with their hops -/

/-- Whether a chain has an optional access. -/
def Chain.IsGuarded (chain : Chain) : Prop := ∃ segment ∈ chain.rest, segment.optional = true

instance (chain : Chain) : Decidable chain.IsGuarded :=
  inferInstanceAs (Decidable (∃ segment ∈ chain.rest, segment.optional = true))

/-- Whether a text spells names, each but the first behind a hop that is optional or plain. -/
inductive SpellsWith : List String → List Bool → Text → Prop where
  | single (name : String) : SpellsWith [name] [] name.toList
  | access {names : List String} {hops : List Bool} {text : Text} (h : SpellsWith names hops text)
    (name : String) : SpellsWith (names ++ [name]) (hops ++ [false]) (text ++ '.' :: name.toList)
  | optionalAccess {names : List String} {hops : List Bool} {text : Text}
    (h : SpellsWith names hops text) (name : String) :
    SpellsWith (names ++ [name]) (hops ++ [true]) (text ++ '?' :: '.' :: name.toList)

/-- Whether a chain with a text is what a chain is rewritten to by a target: the target alone, or
the target behind the names that are kept, with the hops before them and before the target. -/
inductive Chain.RewrittenAs (body : Text) (chain : Chain) (target : NamePath) :
    List Bool → Text → Prop where
  | whole {hops : List Bool} {text : Text} (spells : SpellsWith target.names hops text) :
    RewrittenAs body chain target hops text
  | tail {index : Nat} {first : Segment} {hops : List Bool} {text : Text} (behind : 0 < index)
    (start : chain.segments[index]? = some first) (spells : SpellsWith target.names hops text) :
    RewrittenAs body chain target ((chain.rest.take index).map (·.optional) ++ hops)
      (body.slice (Span.between chain.span.start first.span.start) ++ text)

/-- Whether a chain that was guarded is guarded still, as long as it has an access at all. -/
def Chain.KeepsGuard (chain : Chain) (hops : List Bool) : Prop :=
  chain.IsGuarded → hops ≠ [] → true ∈ hops

/-! ## The hops that are written -/

/-- The hops of a rendered replacement. -/
def Chain.hops (chain : Chain) (path : NamePath) : List Bool :=
  (List.range' 1 path.rest.length).map (chain.hopIsOptional path.names)

private theorem spellsWith_renderRest (chain : Chain) (tokens : List String)
    {names rest : List String} {hops : List Bool} {text : Text} (h : SpellsWith names hops text)
    (index : Nat) :
    SpellsWith (names ++ rest)
      (hops ++ (List.range' index rest.length).map (chain.hopIsOptional tokens))
      (text ++ chain.renderRest tokens index rest) := by
  induction rest generalizing names hops text index with
  | nil => simpa [Chain.renderRest] using h
  | cons token others ih =>
    have hstep : SpellsWith (names ++ [token]) (hops ++ [chain.hopIsOptional tokens index])
        (text ++ ((if chain.hopIsOptional tokens index then ['?', '.'] else ['.']) ++
          token.toList)) := by
      cases chain.hopIsOptional tokens index with
      | true => exact .optionalAccess h token
      | false => exact .access h token
    simpa [Chain.renderRest, List.range'_succ] using ih hstep (index + 1)

/-- A rendered replacement spells its path with its hops. -/
theorem spellsWith_render (chain : Chain) (path : NamePath) :
    SpellsWith path.names (chain.hops path) (chain.render path) :=
  spellsWith_renderRest chain path.names (.single path.first) 1

/-- Names joined by dots are spelled with plain hops. -/
theorem spellsWith_dotted (path : NamePath) :
    SpellsWith path.names (path.rest.map fun _ => false) path.dotted.toList := by
  have hplain : ∀ {names rest : List String} {hops : List Bool} {text : Text},
      SpellsWith names hops text → SpellsWith (names ++ rest) (hops ++ rest.map fun _ => false)
        (text ++ (rest.map fun name => '.' :: name.toList).flatten) := by
    intro names rest hops text h
    induction rest generalizing names hops text with
    | nil => simpa using h
    | cons name others ih => simpa using ih (.access h name)
  rw [path.toList_dotted]
  exact hplain (.single path.first)

/-- A hop moves when it stands behind a name that changes or behind the end of the
replacement. -/
theorem movesHop_iff (kept length index : Nat) (segments : List Segment) :
    movesHop kept length index segments = true ↔
      ∃ position segment, segments[position]? = some segment ∧ segment.optional = true ∧
        (kept < index + position ∨ length ≤ index + position) := by
  induction segments generalizing index with
  | nil => simp [movesHop]
  | cons first rest ih =>
    simp only [movesHop, Bool.or_eq_true, Bool.and_eq_true, decide_eq_true_eq, ih]
    constructor
    · rintro (⟨hoptional, hmoves⟩ | ⟨position, segment, hsegment, hoptional, hmoves⟩)
      · exact ⟨0, first, rfl, hoptional, hmoves⟩
      · exact ⟨position + 1, segment, hsegment, hoptional, by omega⟩
    · rintro ⟨position, segment, hsegment, hoptional, hmoves⟩
      cases position with
      | zero =>
        obtain rfl := Option.some.inj hsegment
        exact Or.inl ⟨hoptional, hmoves⟩
      | succ position => exact Or.inr ⟨position, segment, hsegment, hoptional, by omega⟩

/-- A rendered replacement that has an access is guarded just when the chain is. -/
theorem Chain.mem_hops_iff (chain : Chain) {path : NamePath} (hlonger : path.rest ≠ []) :
    true ∈ chain.hops path ↔ chain.IsGuarded := by
  have hpositive := List.length_pos_of_ne_nil hlonger
  have hlength : path.names.length = path.rest.length + 1 := rfl
  have hguarded : chain.IsGuarded ↔
      ∃ position segment, chain.segments[position + 1]? = some segment ∧
        segment.optional = true := by
    constructor
    · rintro ⟨segment, hsegment, hoptional⟩
      obtain ⟨position, hposition⟩ := List.mem_iff_getElem?.mp hsegment
      exact ⟨position, segment, hposition, hoptional⟩
    · rintro ⟨position, segment, hsegment, hoptional⟩
      exact ⟨segment, List.mem_of_getElem? hsegment, hoptional⟩
  rw [hguarded]
  simp only [hops, List.mem_map, List.mem_range'_1, hopIsOptional, Bool.or_eq_true,
    Bool.and_eq_true, decide_eq_true_eq, beq_iff_eq, movesHop_iff, Nat.zero_add]
  generalize commonPrefix chain.segments path.names = kept
  constructor
  · rintro ⟨index, ⟨hfirst, -⟩, ⟨-, hkeeps⟩ | ⟨-, position, segment, hsegment, hoptional, hmoves⟩⟩
    · obtain ⟨segment, hsegment, hoptional⟩ := (Option.any_eq_true _ _).mp hkeeps
      obtain ⟨before, rfl⟩ := Nat.exists_eq_add_of_le' hfirst
      exact ⟨before, segment, hsegment, hoptional⟩
    · obtain ⟨before, rfl⟩ := Nat.exists_eq_add_of_le' (by omega : 1 ≤ position)
      exact ⟨before, segment, hsegment, hoptional⟩
  · rintro ⟨position, segment, hsegment, hoptional⟩
    by_cases hstays : position + 1 ≤ kept ∧ position + 1 < path.names.length
    · refine ⟨position + 1, ⟨by omega, by omega⟩, Or.inl ⟨hstays.1, ?_⟩⟩
      rw [hsegment]
      exact hoptional
    · exact ⟨path.rest.length, ⟨hpositive, by omega⟩, Or.inr ⟨by omega, position + 1, segment,
        hsegment, hoptional, by omega⟩⟩

/-! ## Where the guard is lost -/

/-- The chains of which the stage of enumerations loses the guard. -/
inductive GuardSlip (bindings : Bindings) (rules : List Rule) (look : EnumLook) : Prop where
  /-- An access as a whole is optional in its last hop alone. -/
  | access {replacement : Replacement}
    (found : look.chain.replacement? bindings rules = some replacement)
    (whole : look.isAccess = true) (longer : replacement.target.rest ≠ [])
    (guarded : look.chain.IsGuarded) (lastAlone : ¬ look.chain.plainLast.IsGuarded) :
    GuardSlip bindings rules look
  /-- Behind an alias, only hops behind the first name that is replaced are optional. -/
  | tail {rule : Rule} (none : look.chain.replacement? bindings rules = none)
    (found : ruleEndingWith? rules look.chain.last.name = some rule)
    (guarded : look.chain.IsGuarded)
    (behind : ∀ segment ∈ look.chain.rest.take (look.chain.tailStart rule),
      segment.optional = false) :
    GuardSlip bindings rules look

section Enums

variable {body : Text} {bindings : Bindings} {rules : List Rule} {look : EnumLook} {edit : Edit}
  {origin : Origin} {target : NamePath} {rest : List EnumAttempt}

/-- A chain that is rendered whole keeps its guard when the chain that is rendered has it. -/
theorem keepsGuard_whole_iff {chain seen : Chain} {path : NamePath} :
    chain.KeepsGuard (seen.hops path) ↔
      (chain.IsGuarded → path.rest ≠ [] → seen.IsGuarded) := by
  have hempty : seen.hops path ≠ [] ↔ path.rest ≠ [] := by simp [Chain.hops]
  refine forall_congr' fun _ => ?_
  rw [hempty]
  exact forall_congr' fun hlonger => seen.mem_hops_iff hlonger

/-- The replacement of a chain that is the source of a rule. -/
private theorem rewritten_of_found (body : Text) {replacement : Replacement}
    (hbound : bindings.tracks look.chain.root = true)
    (hfound : look.chain.replacement? bindings rules = some replacement)
    (hattempts : look.attempts bindings rules = .replace edit origin target :: rest) :
    ∃ hops, look.chain.RewrittenAs body target hops
        (EnumAttempt.reading body look.chain.span (.replace edit origin target)) ∧
      (look.chain.KeepsGuard hops ↔ ¬ GuardSlip bindings rules look) := by
  obtain ⟨others, hfirst⟩ := EnumLook.attempts_of_found hbound hfound
  have hsame := (List.cons.inj (hattempts.symm.trans hfirst)).1
  split at hsame
  · cases hsame
  · obtain ⟨rfl, rfl, rfl⟩ := EnumAttempt.replace.inj hsame
    refine ⟨look.seen.hops replacement.target, ?_, ?_⟩
    · rw [EnumAttempt.reading, Text.slice_between_self, List.nil_append]
      exact .whole (spellsWith_render look.seen replacement.target)
    · rw [keepsGuard_whole_iff]
      constructor
      · rintro hkeeps (⟨hother, hwhole, hlonger, hguarded, hlast⟩ | ⟨hnone, _, _, _⟩)
        · obtain rfl := Option.some.inj (hfound.symm.trans hother)
          have hseen := hkeeps hguarded hlonger
          rw [EnumLook.seen, if_pos hwhole] at hseen
          exact hlast hseen
        · rw [hfound] at hnone
          cases hnone
      · intro hslip hguarded hlonger
        unfold EnumLook.seen
        split
        · next hwhole =>
          by_contra hlast
          exact hslip (.access hfound hwhole hlonger hguarded hlast)
        · exact hguarded

/-- A chain of which the end is replaced by plain hops keeps its guard when one of the hops that
are kept is optional. -/
theorem keepsGuard_tail_iff {chain : Chain} {index : Nat} (hbehind : 0 < index)
    (hlonger : chain.rest ≠ []) (names : List String) :
    chain.KeepsGuard ((chain.rest.take index).map (·.optional) ++ names.map fun _ => false) ↔
      (chain.IsGuarded → ∃ segment ∈ chain.rest.take index, segment.optional = true) := by
  have hhops : (chain.rest.take index).map (·.optional) ++ names.map (fun _ => false) ≠ [] := by
    simp [hlonger, Nat.ne_of_gt hbehind]
  have hmem : true ∈ (chain.rest.take index).map (·.optional) ++ names.map (fun _ => false) ↔
      ∃ segment ∈ chain.rest.take index, segment.optional = true := by
    simp only [List.mem_append, List.mem_map, Bool.false_eq_true, and_false, exists_false, or_false]
  exact forall_congr' fun _ => (forall_prop_of_true hhops).trans hmem

/-- What is tried at the end of a chain behind an alias. -/
private theorem inv_aliasedAttempts {chain : Chain} {index : Nat}
    (h : chain.aliasedAttempts rules index = .replace edit origin target :: rest) :
    ∃ rule, chain.rest ≠ [] ∧ ruleEndingWith? rules chain.last.name = some rule ∧
      edit = ⟨Span.between (Draft.suffixStart chain rule) chain.span.stop,
        rule.target.dotted.toList⟩ ∧ target = rule.target := by
  unfold Chain.aliasedAttempts at h
  split at h
  · cases h
  · next hbehind =>
    split at h
    · cases h
    · next rule hrule =>
      split at h
      · cases h
      · simp only [List.cons.injEq, EnumAttempt.replace.injEq] at h
        exact ⟨rule, hbehind, hrule, h.1.1.symm, h.1.2.2.symm⟩

/-- The replacement of the end of a chain. -/
private theorem rewritten_of_alias {index : Nat} (body : Text)
    (hnone : look.chain.replacement? bindings rules = none)
    (hattempts : look.chain.aliasedAttempts rules index = .replace edit origin target :: rest) :
    ∃ hops, look.chain.RewrittenAs body target hops
        (EnumAttempt.reading body look.chain.span (.replace edit origin target)) ∧
      (look.chain.KeepsGuard hops ↔ ¬ GuardSlip bindings rules look) := by
  obtain ⟨rule, hbehind, hfound, rfl, rfl⟩ := inv_aliasedAttempts hattempts
  obtain ⟨first, hfirst⟩ := Chain.exists_tail hbehind rule
  have hpositive := Chain.tailStart_pos hbehind rule
  refine ⟨(look.chain.rest.take (look.chain.tailStart rule)).map (·.optional) ++
    rule.target.rest.map fun _ => false, ?_, ?_⟩
  · rw [EnumAttempt.reading, Chain.suffixStart_eq hfirst]
    exact .tail hpositive hfirst (spellsWith_dotted rule.target)
  · rw [keepsGuard_tail_iff hpositive hbehind]
    constructor
    · rintro hkeeps (⟨hother, _, _, _, _⟩ | ⟨_, hrule, hguarded, hplain⟩)
      · rw [hnone] at hother
        cases hother
      · obtain rfl := Option.some.inj (hfound.symm.trans hrule)
        obtain ⟨segment, hsegment, hoptional⟩ := hkeeps hguarded
        rw [hplain segment hsegment] at hoptional
        cases hoptional
    · intro hslip hguarded
      by_contra hlost
      refine hslip (.tail hnone hfound hguarded fun segment hsegment => ?_)
      exact Bool.eq_false_iff.mpr fun hoptional => hlost ⟨segment, hsegment, hoptional⟩

/-- The replacement of a single name, which has no access. -/
private theorem rewritten_of_named (body : Text)
    (hattempts : look.chain.namedAttempts bindings rules = .replace edit origin target :: rest) :
    ∃ hops, look.chain.RewrittenAs body target hops
        (EnumAttempt.reading body look.chain.span (.replace edit origin target)) ∧
      (look.chain.KeepsGuard hops ↔ ¬ GuardSlip bindings rules look) := by
  unfold Chain.namedAttempts at hattempts
  split at hattempts
  · next hsingle _ =>
    have hplain : ¬ look.chain.IsGuarded := by simp [Chain.IsGuarded, hsingle]
    split at hattempts
    · next rule _ =>
      split at hattempts
      · cases hattempts
      · simp only [List.cons.injEq, EnumAttempt.replace.injEq] at hattempts
        obtain ⟨⟨rfl, -, rfl⟩, -⟩ := hattempts
        refine ⟨look.chain.hops rule.target, ?_, ?_⟩
        · rw [EnumAttempt.reading, Text.slice_between_self, List.nil_append]
          exact .whole (spellsWith_render look.chain rule.target)
        · refine iff_of_true (fun hguarded => absurd hguarded hplain) ?_
          rintro (⟨_, _, _, hguarded, _⟩ | ⟨_, _, hguarded, _⟩) <;> exact hplain hguarded
    · cases hattempts
  · cases hattempts

/-- What the stage of enumerations replaces is guarded still, unless it is one of the chains of
which the guard is lost. -/
theorem rewritten_of_attempt (body : Text)
    (hattempts : look.attempts bindings rules = .replace edit origin target :: rest) :
    ∃ hops, look.chain.RewrittenAs body target hops
        (EnumAttempt.reading body look.chain.span (.replace edit origin target)) ∧
      (look.chain.KeepsGuard hops ↔ ¬ GuardSlip bindings rules look) := by
  have hbound : bindings.tracks look.chain.root = true := by
    by_contra hunbound
    rw [EnumLook.attempts_of_unbound (Bool.eq_false_iff.mpr hunbound)] at hattempts
    cases hattempts
  cases hfound : look.chain.replacement? bindings rules with
  | some replacement => exact rewritten_of_found body hbound hfound hattempts
  | none =>
    rw [EnumLook.attempts_of_none hfound] at hattempts
    split at hattempts
    · cases hattempts
    · cases halias : bindings.isAlias look.chain.root with
      | true =>
        obtain ⟨index, hfallback⟩ := Chain.fallbackAttempts_of_alias rules halias
        exact rewritten_of_alias body hfound (hfallback.symm.trans hattempts)
      | false =>
        rw [Chain.fallbackAttempts_of_export hbound halias] at hattempts
        exact rewritten_of_named body hattempts

end Enums

/-- **Guards.**  Suppose that no bound name and no source of a rule has a dot.  Then every chain
that the stage of calls replaces is guarded afterwards if it was before and has an access still.
Of the chains that the stage of enumerations replaces this holds but for two kinds: accesses as
a whole that are optional in their last hop alone, and chains behind an alias that are optional
only behind the first name that is replaced. -/
theorem Draft.keepsGuard_iff {body : Text} {program : Program} {rules : List Rule} {draft : Draft}
    (hplaced : program.Placed body) (hdots : NoDots draft.bindings rules)
    (hconsistent : draft.edits.Consistent) :
    (∀ chain ∈ allCallChains program.items,
      (∀ held ∈ draft.edits.held, (allLandmarks program.items).Within (· ≠ chain) held) →
      ∀ replacement, chain.replacement? draft.bindings rules = some replacement →
        replacement.isIdentity = false → ∃ hops text,
          (draft.rewriteCalls body program rules).edits.Reads body chain.span text ∧
            chain.RewrittenAs body replacement.target hops text ∧ chain.KeepsGuard hops) ∧
      ∀ look inner, EnumTurn body rules program.items draft look inner →
        ∀ edit origin target rest,
          look.attempts draft.bindings rules = .replace edit origin target :: rest → ∃ hops text,
            (draft.rewriteEnums body program rules).edits.Reads body look.chain.span text ∧
              look.chain.RewrittenAs body target hops text ∧
              (look.chain.KeepsGuard hops ↔ ¬ GuardSlip draft.bindings rules look) := by
  constructor
  · intro chain hchain hfree replacement hfound hchanges
    have hin := hplaced.landmarks.chains chain (mem_chains_of_call hchain)
    have hlookup := (find?_eq_replacement? hdots hin).trans hfound
    obtain ⟨-, hheld⟩ := rewriteCalls_replaces hplaced.landmarks (allows_any rules) hchain hlookup
      hfree
    have hafter := consistent_rewriteCalls rules hplaced hconsistent
    refine ⟨chain.hops replacement.target, _, hafter.reads_held body (hheld hchanges)
      hin.start_lt_stop, .whole (spellsWith_render chain replacement.target), ?_⟩
    exact keepsGuard_whole_iff.mpr fun hguarded _ => hguarded
  · intro look inner hturn edit origin target rest hattempts
    obtain ⟨hops, hrewritten, hkeeps⟩ := rewritten_of_attempt body hattempts
    exact ⟨hops, _, hturn.reads_attempt hplaced hdots hconsistent hattempts, hrewritten, hkeeps⟩

/-- A file with a guarded call and an enumeration that is guarded behind its first name. -/
private def guardsFile : Text :=
  ("import * as teams from \"@microsoft/teams-js\";\n" ++
    "teams?.getContext();\nconst a = teams?.other.FailedReason.Timeout;\n").toList

private theorem guardsFile_facts :
    ∃ program ∈ Program.read? ⟨true, false, true⟩ guardsFile,
      (∃ chain ∈ allCallChains program.items, chain.IsGuarded ∧
        ∃ replacement ∈ chain.replacement? namespaceDraft.bindings BuiltIn.functions,
          replacement.isIdentity = false) ∧
      ∃ nest ∈ allEnumNests program.items, ∃ look ∈ nest.enumLooks[1]?,
        (∀ earlier ∈ nest.enumLooks.take 1, ∀ attempt ∈
          earlier.attempts namespaceDraft.bindings BuiltIn.enums,
            ¬ attempt.Succeeds guardsFile []) ∧
        look.isAccess = false ∧
        (∃ second ∈ look.chain.rest.head?, second.optional = true) ∧
        look.attempts namespaceDraft.bindings BuiltIn.enums = [.replace
          ⟨⟨84, 102, by decide⟩, "app.FailedReason".toList⟩ (.whole 0)
          ⟨"app", ["FailedReason"]⟩] := by
  decide +kernel

/-- Both chains keep their guards. -/
theorem guardsFile_keepsGuard :
    ∃ program, Program.read? ⟨true, false, true⟩ guardsFile = some program ∧
      program.Placed guardsFile ∧ NoDots namespaceDraft.bindings BuiltIn.functions ∧
      NoDots namespaceDraft.bindings BuiltIn.enums ∧ namespaceDraft.edits.Consistent ∧
      (∃ (chain : Chain) (hops : List Bool) (text : Text) (target : NamePath), chain.IsGuarded ∧
        (namespaceDraft.rewriteCalls guardsFile program BuiltIn.functions).edits.Reads guardsFile
          chain.span text ∧
        chain.RewrittenAs guardsFile target hops text ∧ chain.KeepsGuard hops) ∧
      ∃ (look : EnumLook) (inner : List EnumLook) (hops : List Bool) (text : Text)
        (target : NamePath), look.chain.IsGuarded ∧
        EnumTurn guardsFile BuiltIn.enums program.items namespaceDraft look inner ∧
        (namespaceDraft.rewriteEnums guardsFile program BuiltIn.enums).edits.Reads guardsFile
          look.chain.span text ∧
        look.chain.RewrittenAs guardsFile target hops text ∧ look.chain.KeepsGuard hops := by
  obtain ⟨program, hread, ⟨chain, hchain, hguarded, replacement, hfound, hchanges⟩, nest, hnest,
    look, hlook, houter, hpart, ⟨second, hsecond, hoptional⟩, hattempts⟩ := guardsFile_facts
  have hplaced := Program.placed_of_read hread
  have hfunctions := namespaceDraft_noDots BuiltIn.functions_subset
  have henums := namespaceDraft_noDots BuiltIn.enums_subset
  have hturn := EnumTurn.of_getElem? namespaceDraft rfl hnest hlook houter
  obtain ⟨others, hrest⟩ : ∃ others, look.chain.rest = second :: others :=
    List.head?_eq_some_iff.mp hsecond
  have hkept : ¬ GuardSlip namespaceDraft.bindings BuiltIn.enums look := by
    rintro (⟨_, hwhole, _, _, _⟩ | @⟨rule, _, _, _, hplain⟩)
    · rw [hpart] at hwhole
      cases hwhole
    · have hbehind : look.chain.rest ≠ [] := by simp [hrest]
      obtain ⟨start, hstart⟩ :=
        Nat.exists_eq_succ_of_ne_zero (Nat.ne_of_gt (Chain.tailStart_pos hbehind rule))
      rw [hplain second (by simp [hstart, hrest])] at hoptional
      cases hoptional
  obtain ⟨hops, text, hcall⟩ :=
    (Draft.keepsGuard_iff hplaced hfunctions Edits.consistent_nil).1 chain hchain
      (by simp [namespaceDraft]) replacement hfound hchanges
  obtain ⟨lookHops, lookText, hlookReads, hrewritten, hkeeps⟩ :=
    (Draft.keepsGuard_iff hplaced henums Edits.consistent_nil).2 look _ hturn _ _ _ _ hattempts
  exact ⟨program, hread, hplaced, hfunctions, henums, Edits.consistent_nil,
    ⟨chain, hops, text, _, hguarded, hcall⟩, look, _, lookHops, lookText, _,
    ⟨second, by simp [hrest], hoptional⟩, hturn, hlookReads, hrewritten, hkeeps.mpr hkept⟩

/-- A file with an enumeration that is guarded at its last name. -/
private def unguardedFile : Text :=
  ("import * as teams from \"@microsoft/teams-js\";\n" ++
    "const a = teams.other?.FailedReason.Timeout;\n").toList

private theorem unguardedFile_facts :
    ∃ program ∈ Program.read? ⟨true, false, true⟩ unguardedFile,
      ∃ nest ∈ allEnumNests program.items, ∃ look ∈ nest.enumLooks[1]?,
        (∀ earlier ∈ nest.enumLooks.take 1, ∀ attempt ∈
          earlier.attempts namespaceDraft.bindings BuiltIn.enums,
            ¬ attempt.Succeeds unguardedFile []) ∧
        look.chain.IsGuarded ∧ look.chain.rest.length = 2 ∧
        (∀ segment ∈ look.chain.rest.take 1, segment.optional = false) ∧
        (∃ first ∈ look.chain.segments[1]?,
          unguardedFile.slice (Span.between look.chain.span.start first.span.start) =
            "teams.".toList) ∧
        (namespaceDraft.rewriteEnums unguardedFile program BuiltIn.enums).edits.Reads unguardedFile
          look.chain.span "teams.app.FailedReason".toList := by
  decide +kernel

/-- The end of the chain is replaced by names with plain hops, and the guard is lost. -/
theorem unguardedFile_loses_guard :
    ∃ program look inner hops, Program.read? ⟨true, false, true⟩ unguardedFile = some program ∧
      program.Placed unguardedFile ∧ NoDots namespaceDraft.bindings BuiltIn.enums ∧
      EnumTurn unguardedFile BuiltIn.enums program.items namespaceDraft look inner ∧
      look.chain.IsGuarded ∧
      (namespaceDraft.rewriteEnums unguardedFile program BuiltIn.enums).edits.Reads unguardedFile
        look.chain.span "teams.app.FailedReason".toList ∧
      look.chain.RewrittenAs unguardedFile ⟨"app", ["FailedReason"]⟩ hops
        "teams.app.FailedReason".toList ∧ ¬ look.chain.KeepsGuard hops := by
  obtain ⟨program, hread, nest, hnest, look, hlook, houter, hguarded, hlength, hplain,
    ⟨first, hfirst, hkept⟩, hrewritten⟩ := unguardedFile_facts
  have hbehind : look.chain.rest ≠ [] := by
    rintro hrest
    simp [hrest] at hlength
  have htail : look.chain.RewrittenAs unguardedFile ⟨"app", ["FailedReason"]⟩ _
      (unguardedFile.slice (Span.between look.chain.span.start first.span.start) ++ _) :=
    .tail (by decide) hfirst (spellsWith_dotted ⟨"app", ["FailedReason"]⟩)
  rw [hkept] at htail
  refine ⟨program, look, _, _, hread, Program.placed_of_read hread,
    namespaceDraft_noDots BuiltIn.enums_subset,
    EnumTurn.of_getElem? namespaceDraft rfl hnest hlook houter, hguarded, hrewritten,
    htail, ?_⟩
  rw [keepsGuard_tail_iff (by decide) hbehind]
  intro hkeeps
  obtain ⟨segment, hsegment, hoptional⟩ := hkeeps hguarded
  rw [hplain segment hsegment] at hoptional
  cases hoptional

end SdkMigration
