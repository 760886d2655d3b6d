import SdkMigration.Proofs.Stages.EnumAttempts
import SdkMigration.Proofs.TouchedText

/-!
# What becomes of a chain that may name an enumeration

`EnumFate` says what the rules make of a chain that the stage of enumerations comes to: whether it
is left with all its parts, replaced, or passed over, so that its parts have their own fate.  The
stage comes to a chain when nothing that is tried at the longer chains around it succeeds, and
when no edit of a stage before is in its way (`EnumTurn`).

The text reads as its fate says for every such chain, but for two kinds of chains
(`EnumSlip`, `Draft.enumFate_iff`).  An access as a whole loses the question mark before its last
name, and a single name that is both an alias and an export is not replaced.
-/

namespace SdkMigration

/-! ## Fates -/

/-- What becomes of a chain. -/
inductive EnumFate where
  /-- The chain reads like this. -/
  | reads (text : Text)
  /-- The chain is none of the stage's business, though a part of it may be. -/
  | passed

/-- The position from which a rule stands for the end of a chain: as many names from the end as
the source of the rule has, but never the first one. -/
def Chain.tailStart (chain : Chain) (rule : Rule) : Nat :=
  chain.names.length - min rule.source.names.length (chain.names.length - 1)

/-- What the last name of a chain tells about it when the chain is the source of no
replacement. -/
inductive Chain.Tells (body : Text) (bindings : Bindings) (rules : List Rule) (chain : Chain) :
    EnumFate → Prop where
  /-- Behind an alias, the last names become the target of the first rule whose source ends with
  the last name: as many names as the source has, but never the alias. -/
  | aliased {rule : Rule} {first : Segment} (whole : bindings.isAlias chain.root = true)
    (behind : chain.rest ≠ []) (found : ruleEndingWith? rules chain.last.name = some rule)
    (changes : ¬ rule.target.names <:+ chain.names.tail)
    (start : chain.segments[chain.tailStart rule]? = some first) :
    Tells body bindings rules chain (.reads (body.slice
      (Span.between chain.span.start first.span.start) ++ rule.target.dotted.toList))
  /-- Behind an alias, a chain that ends with the target already is passed over. -/
  | ends {rule : Rule} (whole : bindings.isAlias chain.root = true) (behind : chain.rest ≠ [])
    (found : ruleEndingWith? rules chain.last.name = some rule)
    (done : rule.target.names <:+ chain.names.tail) :
    Tells body bindings rules chain .passed
  /-- Behind an alias, a chain that ends like the source of no rule is passed over. -/
  | unknown (whole : bindings.isAlias chain.root = true) (behind : chain.rest ≠ [])
    (none : ruleEndingWith? rules chain.last.name = none) :
    Tells body bindings rules chain .passed
  /-- Behind a single export, a longer chain is passed over. -/
  | long (export_ : bindings.isAlias chain.root = false) (behind : chain.rest ≠ []) :
    Tells body bindings rules chain .passed
  /-- A single name that is bound to an export becomes the target of the first rule whose source
  ends with the name of the export, when that source is longer. -/
  | named {index : Nat} {named : NamedImport} {rule : Rule} (single : chain.rest = [])
    (bound : bindings.namedIndex? chain.root = some index)
    (entry : bindings.named[index]? = some named)
    (found : ruleEndingWith? rules named.exported = some rule) (longer : rule.source.rest ≠ []) :
    Tells body bindings rules chain (.reads (chain.render rule.target))
  /-- Any other single name is passed over. -/
  | single (single : chain.rest = [])
    (none : ∀ index named rule, bindings.namedIndex? chain.root = some index →
      bindings.named[index]? = some named → ruleEndingWith? rules named.exported = some rule →
      rule.source.rest = []) :
    Tells body bindings rules chain .passed

/-- What the rules make of the chain of a look. -/
inductive EnumLook.Meets (body : Text) (bindings : Bindings) (rules : List Rule)
    (look : EnumLook) : EnumFate → Prop where
  /-- A chain whose first name is not bound is left. -/
  | unbound (free : bindings.tracks look.chain.root = false) :
    Meets body bindings rules look (.reads (body.slice look.chain.span))
  /-- A chain that is the source of a replacement is left when the replacement changes nothing. -/
  | identity {replacement : Replacement} (bound : bindings.tracks look.chain.root = true)
    (found : look.chain.replacement? bindings rules = some replacement)
    (same : replacement.source = replacement.target) :
    Meets body bindings rules look (.reads (body.slice look.chain.span))
  /-- A chain that is the source of a replacement becomes its target. -/
  | exact {replacement : Replacement} (bound : bindings.tracks look.chain.root = true)
    (found : look.chain.replacement? bindings rules = some replacement)
    (changes : replacement.source ≠ replacement.target) :
    Meets body bindings rules look (.reads (look.chain.render replacement.target))
  /-- An access as a whole that is the source of no replacement is passed over. -/
  | access (bound : bindings.tracks look.chain.root = true)
    (none : look.chain.replacement? bindings rules = none) (whole : look.isAccess = true) :
    Meets body bindings rules look .passed
  /-- Any other chain is dealt with as its last name tells. -/
  | told {fate : EnumFate} (bound : bindings.tracks look.chain.root = true)
    (none : look.chain.replacement? bindings rules = none) (part : look.isAccess = false)
    (tells : look.chain.Tells body bindings rules fate) :
    Meets body bindings rules look fate

/-- Whether the stage comes to a chain: no attempt at a longer chain around it succeeds, and no
edit of a stage before is in its way.  The inner looks are those that come after it. -/
structure EnumTurn (body : Text) (rules : List Rule) (items : List Tree) (draft : Draft)
    (look : EnumLook) (inner : List EnumLook) : Prop where
  reached : ∃ nest ∈ allEnumNests items, ∃ outer, nest.enumLooks = outer ++ look :: inner ∧
    ∀ earlier ∈ outer, ∀ attempt ∈ earlier.attempts draft.bindings rules,
      ¬ attempt.Succeeds body draft.edits.held
  free : ∀ edit ∈ draft.edits.held, edit.overlaps ⟨look.chain.span, []⟩ = false

/-- The stage comes to a chain when nothing succeeds at the looks before it in its nest and no edit
is held. -/
theorem EnumTurn.of_getElem? {body : Text} {rules : List Rule} {items : List Tree}
    (draft : Draft) {nest : Tree} {look : EnumLook} {index : Nat} (hedits : draft.edits.held = [])
    (hnest : nest ∈ allEnumNests items) (hlook : nest.enumLooks[index]? = some look)
    (houter : ∀ earlier ∈ nest.enumLooks.take index, ∀ attempt ∈
      earlier.attempts draft.bindings rules, ¬ attempt.Succeeds body []) :
    EnumTurn body rules items draft look (nest.enumLooks.drop (index + 1)) where
  reached := by
    refine ⟨nest, hnest, nest.enumLooks.take index, ?_, hedits ▸ houter⟩
    obtain ⟨hlt, rfl⟩ := List.getElem?_eq_some_iff.mp hlook
    rw [← List.drop_eq_getElem_cons hlt, List.take_append_drop]
  free := by simp [hedits]

/-- Whether the fate of a chain has come true behind the stage.  That of a chain that is passed
over is to read as before unless something succeeds inside it. -/
def EnumFate.Holds (body : Text) (program : Program) (rules : List Rule) (draft : Draft)
    (look : EnumLook) (inner : List EnumLook) : EnumFate → Prop
  | .reads text =>
    (draft.rewriteEnums body program rules).edits.Reads body look.chain.span text
  | .passed =>
    (∀ other ∈ inner, ∀ attempt ∈ other.attempts draft.bindings rules,
      ¬ attempt.Succeeds body draft.edits.held) →
    (draft.rewriteEnums body program rules).edits.Reads body look.chain.span
      (body.slice look.chain.span)

/-- The chains that the stage does not do right by. -/
inductive EnumSlip (body : Text) (bindings : Bindings) (rules : List Rule) (look : EnumLook) :
    Prop where
  /-- The question mark before the last name of an access as a whole is not carried over. -/
  | hop {replacement : Replacement} (bound : bindings.tracks look.chain.root = true)
    (found : look.chain.replacement? bindings rules = some replacement)
    (changes : replacement.source ≠ replacement.target) (whole : look.isAccess = true)
    (loses : look.chain.plainLast.render replacement.target ≠
      look.chain.render replacement.target) :
    EnumSlip body bindings rules look
  /-- A single name of an export is not replaced when it is an alias as well. -/
  | alias_ {index : Nat} {named : NamedImport} {rule : Rule}
    (whole : bindings.isAlias look.chain.root = true)
    (none : look.chain.replacement? bindings rules = none) (part : look.isAccess = false)
    (single : look.chain.rest = []) (bound : bindings.namedIndex? look.chain.root = some index)
    (entry : bindings.named[index]? = some named)
    (found : ruleEndingWith? rules named.exported = some rule) (longer : rule.source.rest ≠ [])
    (differs : body.slice look.chain.span ≠ look.chain.render rule.target) :
    EnumSlip body bindings rules look

/-! ## What the text reads -/

theorem Span.between_of_le {start stop : Nat} (h : start ≤ stop) :
    Span.between start stop = ⟨start, stop, h⟩ := by
  simp [Span.between, Nat.max_eq_right h]

/-- A part of a text falls into what stands before a position and what stands behind it. -/
theorem Text.slice_split (text : Text) {span : Span} {position : Nat}
    (hstart : span.start ≤ position) (hstop : position ≤ span.stop) :
    text.slice span =
      text.slice ⟨span.start, position, hstart⟩ ++ text.slice ⟨position, span.stop, hstop⟩ := by
  have hshorter : text.take position = (text.take span.stop).take position := by
    rw [List.take_take, Nat.min_eq_left hstop]
  unfold Text.slice
  rw [hshorter]
  generalize text.take span.stop = part
  have hsplit := List.take_append_drop (position - span.start) (part.drop span.start)
  rw [List.drop_drop, Nat.add_sub_cancel' hstart] at hsplit
  rw [List.drop_take]
  exact hsplit.symm

theorem Text.slice_between_self (text : Text) (position : Nat) :
    text.slice (Span.between position position) = [] := by
  simp [Text.slice, Span.between]

/-- A part of a chain ends where the chain ends. -/
theorem Chain.HasPart.stop_eq {chain : Chain} {span : Span} (h : chain.HasPart span) {body : Text}
    {lo hi : Nat} (hplaced : chain.Placed body lo hi) : span.stop = chain.span.stop := by
  cases h with
  | whole => rfl
  | @tail segment mem =>
    have hsegment : segment ∈ chain.segments := List.mem_cons_of_mem _ mem
    have hstop := (hplaced.to_stop.segment hsegment).2.2
    have hlt := segment.span.start_le_stop
    exact Nat.max_eq_right (by omega)

/-- In a tree that is a chain the looks go inwards. -/
theorem Tree.pairwise_enumLooks {tree : Tree} {chain : Chain} (h : tree.chain? = some chain) :
    tree.enumLooks.Pairwise fun outer inner => inner.chain.Begins outer.chain := by
  fun_induction Tree.chain? tree generalizing chain with
  | case1 => exact .nil
  | case2 span object optional property found hfound ih =>
    have hobject : ∀ look ∈ object.enumLooks, look.chain.Begins found :=
      fun look hlook => (Tree.IsNest.chain hfound).begins_of_look hlook
    have hlonger := found.begins_extend ⟨property.name, property.span, optional⟩
    simp only [Tree.enumLooks, hfound, List.pairwise_cons, List.forall_mem_cons]
    exact ⟨⟨hlonger, fun look hlook => (hobject look hlook).trans hlonger⟩, hobject, ih hfound⟩
  | case3 => cases h
  | case4 span left right found hfound ih =>
    simp only [Tree.enumLooks, Tree.look?, hfound, Option.map_some, Option.toList_some,
      List.singleton_append, List.pairwise_cons]
    exact ⟨fun look hlook => (Tree.IsNest.chain hfound).begins_of_look hlook, ih hfound⟩
  | case5 => cases h
  | case6 kind start inside ih => exact ih h
  | case7 => cases h

/-- In a nest the looks go inwards. -/
theorem Tree.IsNest.pairwise_enumLooks {nest : Tree} {whole : Chain} (h : nest.IsNest whole) :
    nest.enumLooks.Pairwise fun outer inner => inner.chain.Begins outer.chain := by
  cases h with
  | chain h => exact Tree.pairwise_enumLooks h
  | typeName span h =>
    simp only [Tree.enumLooks, Tree.look?, h, allEnumLooks, Option.map_some, Option.toList_some,
      List.singleton_append, List.append_nil, List.pairwise_cons]
    exact ⟨fun look hlook => (Tree.IsNest.chain h).begins_of_look hlook,
      Tree.pairwise_enumLooks h⟩

theorem Draft.consistent_rewriteEnums {body : Text} {program : Program} {draft : Draft}
    (rules : List Rule) (hplaced : program.Placed body) (hconsistent : draft.edits.Consistent) :
    (draft.rewriteEnums body program rules).edits.Consistent := by
  have hstage : draft.Continues ((allLandmarks program.items).Within fun _ => True) .any
      (draft.rewriteEnums body program rules) :=
    continues_rewriteEnums_within hplaced.landmarks (allowsEnums_any rules)
      fun _ _ _ _ _ => trivial
  exact hstage.consistent hconsistent

namespace EnumTurn

variable {body : Text} {program : Program} {rules : List Rule} {draft : Draft} {look : EnumLook}
  {inner : List EnumLook}

theorem placed (h : EnumTurn body rules program.items draft look inner)
    (hplaced : program.Placed body) : look.chain.Placed body 0 body.length := by
  obtain ⟨nest, hnest, outer, hlooks, -⟩ := h.reached
  refine hplaced.reference (mem_allReferences_of_look program.items look (looks_subset hnest ?_))
  rw [hlooks]
  exact List.mem_append_right _ List.mem_cons_self

/-- The inner looks are at beginnings of the chain. -/
theorem begins (h : EnumTurn body rules program.items draft look inner) :
    ∀ other ∈ inner, other.chain.Begins look.chain := by
  obtain ⟨nest, hnest, outer, hlooks, -⟩ := h.reached
  obtain ⟨whole, hisNest⟩ := isNest_of_mem_all program.items nest hnest
  have hpairwise := hisNest.pairwise_enumLooks
  rw [hlooks] at hpairwise
  exact (List.pairwise_cons.mp (List.pairwise_append.mp hpairwise).2.1).1

/-- The edits of the stage in a chain that it comes to are those of the first attempt at the chain
or inside it that succeeds. -/
theorem held (h : EnumTurn body rules program.items draft look inner)
    (hplaced : program.Placed body) (hdots : NoDots draft.bindings rules) :
    let attempts := look.attempts draft.bindings rules ++
      inner.flatMap fun other => other.attempts draft.bindings rules
    let own := (attempts.find? fun attempt =>
      attempt.Succeeds body draft.edits.held).toList.flatMap (EnumAttempt.edits body)
    let after := draft.rewriteEnums body program rules
    (∀ edit ∈ own, edit ∈ after.edits.held) ∧
      ∀ edit ∈ after.edits.held, edit ∉ own → edit.overlaps ⟨look.chain.span, []⟩ = false := by
  intro attempts own after
  obtain ⟨nest, hnest, outer, hlooks, houter⟩ := h.reached
  obtain ⟨whole, hisNest⟩ := isNest_of_mem_all program.items nest hnest
  have hwhole : whole ∈ (allLandmarks program.items).chains :=
    (allNested_sublist program.items).subset
      (List.mem_filterMap.mpr ⟨nest, hnest, hisNest.nested?⟩)
  have hown : nest.enumEdits body draft.bindings rules draft.edits.held = own := by
    have hnone : (outer.flatMap fun other => other.attempts draft.bindings rules).find?
        (fun attempt => attempt.Succeeds body draft.edits.held) = none := by
      refine List.find?_eq_none.mpr fun attempt hattempt => ?_
      obtain ⟨earlier, hearlier, hattempt⟩ := List.mem_flatMap.mp hattempt
      simpa using houter earlier hearlier attempt hattempt
    simp only [Tree.enumEdits, Tree.enumAttempts, hlooks, List.flatMap_append, List.flatMap_cons,
      List.find?_append, hnone, Option.none_or, own, attempts]
  obtain ⟨hkept, helse⟩ := Draft.rewriteEnums_around hplaced hdots hnest hisNest
  rw [hown] at hkept helse
  refine ⟨hkept, fun edit hedit hother => ?_⟩
  rcases helse edit hedit with hbefore | hedit | hwithin
  · exact h.free edit hbefore
  · exact absurd hedit hother
  · have hbegins := hisNest.begins_of_look
      (hlooks ▸ List.mem_append_right _ List.mem_cons_self : look ∈ nest.enumLooks)
    exact hplaced.landmarks.not_overlaps_beginning hwhole hbegins hwithin []

/-- Where nothing is tried at a chain and nothing succeeds inside it, the chain reads as
before. -/
theorem reads_passed (h : EnumTurn body rules program.items draft look inner)
    (hplaced : program.Placed body) (hdots : NoDots draft.bindings rules)
    (hconsistent : draft.edits.Consistent) (hnone : look.attempts draft.bindings rules = [])
    (hinner : ∀ other ∈ inner, ∀ attempt ∈ other.attempts draft.bindings rules,
      ¬ attempt.Succeeds body draft.edits.held) :
    (draft.rewriteEnums body program rules).edits.Reads body look.chain.span
      (body.slice look.chain.span) := by
  obtain ⟨-, hothers⟩ := h.held hplaced hdots
  have hfails : (inner.flatMap fun other => other.attempts draft.bindings rules).find?
      (fun attempt => attempt.Succeeds body draft.edits.held) = none := by
    refine List.find?_eq_none.mpr fun attempt hattempt => ?_
    obtain ⟨other, hother, hattempt⟩ := List.mem_flatMap.mp hattempt
    simpa using hinner other hother attempt hattempt
  have hafter := Draft.consistent_rewriteEnums rules hplaced hconsistent
  refine hafter.reads_untouched body (h.placed hplaced).start_lt_stop
    fun edit hedit => hothers edit hedit ?_
  simp [hnone, hfails]

/-- Where something is tried at a chain, the chain reads as the first attempt makes it. -/
theorem reads_attempt (h : EnumTurn body rules program.items draft look inner)
    (hplaced : program.Placed body) (hdots : NoDots draft.bindings rules)
    (hconsistent : draft.edits.Consistent) {attempt : EnumAttempt} {rest : List EnumAttempt}
    (hfirst : look.attempts draft.bindings rules = attempt :: rest) :
    (draft.rewriteEnums body program rules).edits.Reads body look.chain.span
      (attempt.reading body look.chain.span) := by
  have hchain := h.placed hplaced
  have hafter := Draft.consistent_rewriteEnums rules hplaced hconsistent
  have hsucceeds : attempt.Succeeds body draft.edits.held := by
    cases attempt with
    | settle => trivial
    | replace edit origin target =>
      have hpart : look.chain.HasPart edit.span :=
        EnumLook.hasPart_of_attempt (hfirst ▸ List.mem_cons_self)
      obtain ⟨hstart, hstop⟩ := hpart.inside hchain
      exact Or.inr fun other hother =>
        Edit.not_overlaps_of_inside (h.free other hother) hstart hstop edit.newText
  obtain ⟨hkept, hothers⟩ := h.held hplaced hdots
  simp only [hfirst, List.cons_append, List.find?_cons, hsucceeds, decide_true,
    Option.toList_some, List.flatMap_singleton] at hkept hothers
  have huntouched (hnone : attempt.edits body = []) :=
    hafter.reads_untouched body hchain.start_lt_stop fun edit hedit =>
      hothers edit hedit (by simp [hnone])
  cases attempt with
  | settle => exact huntouched rfl
  | replace edit origin target =>
    have hpart : look.chain.HasPart edit.span :=
      EnumLook.hasPart_of_attempt (hfirst ▸ List.mem_cons_self)
    obtain ⟨hstart, hstop⟩ := hpart.inside hchain
    have hlt := hpart.start_lt_stop hchain
    have hstopEq := hpart.stop_eq hchain
    rw [EnumAttempt.reading, Span.between_of_le hstart]
    by_cases hsame : body.slice edit.span = edit.newText
    · have hreads := huntouched (by simp [EnumAttempt.edits, hsame])
      have hend : (⟨edit.span.start, look.chain.span.stop, Nat.le_trans hlt.le hstop⟩ : Span) =
          edit.span := by simp [← hstopEq]
      rw [body.slice_split hstart (Nat.le_trans hlt.le hstop), hend, hsame] at hreads
      exact hreads
    · simp only [EnumAttempt.edits, hsame, if_false, List.mem_singleton] at hkept hothers
      have hreads := hafter.reads_around body (hkept edit rfl) hlt hstart hstop hothers
      have hnothing : body.slice ⟨edit.span.stop, look.chain.span.stop, hstop⟩ = [] := by
        simp [Text.slice, hstopEq]
      rwa [hnothing, List.append_nil] at hreads

end EnumTurn

/-! ## Fates and attempts -/

/-- The text reads one thing in the place of a span. -/
theorem Edits.Reads.unique {edits : Edits} {text : Text} {span : Span} {spelling other : Text}
    (h : edits.Reads text span spelling) (hother : edits.Reads text span other) :
    spelling = other := by
  have hsame := h.symm.trans hother
  exact List.append_cancel_left (List.append_cancel_right hsame)

namespace EnumLook

variable {look : EnumLook} {bindings : Bindings} {rules : List Rule}

/-- At a chain that is the source of a replacement, that is tried first. -/
theorem attempts_of_found (hbound : bindings.tracks look.chain.root = true)
    {replacement : Replacement}
    (hfound : look.chain.replacement? bindings rules = some replacement) :
    ∃ rest, look.attempts bindings rules =
      (if replacement.isIdentity then .settle
        else .replace ⟨look.chain.span, look.seen.render replacement.target⟩ replacement.origin
          replacement.target) :: rest := by
  refine ⟨if look.isAccess then [] else look.chain.fallbackAttempts bindings rules, ?_⟩
  simp [attempts, Chain.exactAttempts, root_seen, hbound, replacement?_seen, hfound, span_seen]

/-- At any other chain, what its last name tells is tried. -/
theorem attempts_of_none (hnone : look.chain.replacement? bindings rules = none) :
    look.attempts bindings rules =
      if look.isAccess then [] else look.chain.fallbackAttempts bindings rules := by
  simp [attempts, Chain.exactAttempts, replacement?_seen, hnone]

end EnumLook

namespace Chain

variable {chain : Chain} {bindings : Bindings} {rules : List Rule}

theorem tracks_of_isAlias {name : String} (h : bindings.isAlias name = true) :
    bindings.tracks name = true := by simp [Bindings.tracks, h]

theorem fallbackAttempts_of_alias (rules : List Rule) (h : bindings.isAlias chain.root = true) :
    ∃ index, chain.fallbackAttempts bindings rules = chain.aliasedAttempts rules index := by
  obtain ⟨index, hindex⟩ := Option.isSome_iff_exists.mp h
  exact ⟨index, by simp [fallbackAttempts, tracks_of_isAlias h, hindex]⟩

theorem fallbackAttempts_of_export (hbound : bindings.tracks chain.root = true)
    (h : bindings.isAlias chain.root = false) :
    chain.fallbackAttempts bindings rules = chain.namedAttempts bindings rules := by
  have hnone : bindings.wholeIndex? chain.root = none := by
    simpa [Bindings.isAlias] using h
  simp [fallbackAttempts, hbound, hnone]

theorem length_names (chain : Chain) : chain.names.length = chain.rest.length + 1 := by
  simp [names, segments]

theorem tailStart_pos (hbehind : chain.rest ≠ []) (rule : Rule) : 0 < chain.tailStart rule := by
  have hlonger := List.length_pos_of_ne_nil hbehind
  have hlength := chain.length_names
  unfold tailStart
  omega

theorem exists_tail (hbehind : chain.rest ≠ []) (rule : Rule) :
    ∃ first, chain.segments[chain.tailStart rule]? = some first := by
  have hlonger := List.length_pos_of_ne_nil hbehind
  have hlength := chain.length_names
  have hlt : chain.tailStart rule < chain.segments.length := by
    simp only [tailStart, NamePath.names, segments, List.length_cons]
    omega
  exact ⟨_, List.getElem?_eq_getElem hlt⟩

/-- The end of a chain that is replaced starts where the rule stands for it. -/
theorem suffixStart_eq {rule : Rule} {first : Segment}
    (h : chain.segments[chain.tailStart rule]? = some first) :
    Draft.suffixStart chain rule = first.span.start := by
  have hlength := chain.length_names
  have hindex : max (chain.names.length - rule.source.names.length) 1 = chain.tailStart rule := by
    unfold tailStart
    omega
  simp [Draft.suffixStart, hindex, h]

end Chain

/-- Behind a single name that is an alias nothing is tried. -/
theorem EnumLook.attempts_of_alias {look other : EnumLook} {bindings : Bindings}
    {rules : List Rule} (halias : bindings.isAlias look.chain.root = true)
    (hnone : look.chain.replacement? bindings rules = none) (hsingle : look.chain.rest = [])
    (hbegins : other.chain.Begins look.chain) : other.attempts bindings rules = [] := by
  have hnames : other.chain.names = look.chain.names := by
    by_contra hne
    exact hbegins.rest_ne_nil (Ne.symm hne) hsingle
  have hrest : other.chain.rest = [] := by
    have hlength := congrArg List.length hnames
    simpa [Chain.names, Chain.segments, hsingle] using hlength
  have hnoneOther : other.chain.replacement? bindings rules = none := by
    unfold Chain.replacement? at hnone ⊢
    rwa [hnames]
  rw [hbegins.root_eq.symm] at halias
  obtain ⟨index, hfallback⟩ := Chain.fallbackAttempts_of_alias rules halias
  rw [attempts_of_none hnoneOther, hfallback]
  simp [Chain.aliasedAttempts, hrest]

/-- Everything that the stage looks at has a fate. -/
theorem EnumLook.exists_fate (body : Text) (bindings : Bindings) (rules : List Rule)
    (look : EnumLook) : ∃ fate, look.Meets body bindings rules fate := by
  cases hbound : bindings.tracks look.chain.root with
  | false => exact ⟨_, .unbound hbound⟩
  | true =>
    cases hfound : look.chain.replacement? bindings rules with
    | some replacement =>
      by_cases hsame : replacement.source = replacement.target
      · exact ⟨_, .identity hbound hfound hsame⟩
      · exact ⟨_, .exact hbound hfound hsame⟩
    | none =>
      cases haccess : look.isAccess with
      | true => exact ⟨_, .access hbound hfound haccess⟩
      | false =>
        suffices h : ∃ fate, look.chain.Tells body bindings rules fate by
          obtain ⟨fate, hfate⟩ := h
          exact ⟨fate, .told hbound hfound haccess hfate⟩
        by_cases hsingle : look.chain.rest = []
        · by_cases hnamed : ∃ index named rule,
              bindings.namedIndex? look.chain.root = some index ∧
              bindings.named[index]? = some named ∧
              ruleEndingWith? rules named.exported = some rule ∧ rule.source.rest ≠ []
          · obtain ⟨index, named, rule, hindex, hentry, hrule, hlonger⟩ := hnamed
            exact ⟨_, .named hsingle hindex hentry hrule hlonger⟩
          · refine ⟨_, .single hsingle fun index named rule hindex hentry hrule => ?_⟩
            by_contra hlonger
            exact hnamed ⟨index, named, rule, hindex, hentry, hrule, hlonger⟩
        · cases halias : bindings.isAlias look.chain.root with
          | false => exact ⟨_, .long halias hsingle⟩
          | true =>
            cases hrule : ruleEndingWith? rules look.chain.last.name with
            | none => exact ⟨_, .unknown halias hsingle hrule⟩
            | some rule =>
              by_cases hends : rule.target.names <:+ look.chain.names.tail
              · exact ⟨_, .ends halias hsingle hrule hends⟩
              · obtain ⟨first, hfirst⟩ := Chain.exists_tail hsingle rule
                exact ⟨_, .aliased halias hsingle hrule hends hfirst⟩

/-- What a chain comes to at which an attempt is made, or none at all. -/
def EnumFate.ofAttempts (body : Text) (span : Span) : List EnumAttempt → EnumFate
  | [] => .passed
  | attempt :: _ => .reads (attempt.reading body span)

/-- What the last name of a chain tells is what is tried at the chain, unless the chain is a
single name that is both an alias and an export. -/
theorem Chain.Tells.eq_ofAttempts {body : Text} {bindings : Bindings} {rules : List Rule}
    {chain : Chain} {fate : EnumFate} (h : chain.Tells body bindings rules fate)
    (hbound : bindings.tracks chain.root = true)
    (hone : bindings.isAlias chain.root = true → chain.rest ≠ []) :
    fate = .ofAttempts body chain.span (chain.fallbackAttempts bindings rules) := by
  cases h with
  | @aliased rule first whole behind found changes start =>
    obtain ⟨index, hfallback⟩ := fallbackAttempts_of_alias rules whole
    obtain ⟨second, others, hrest⟩ := List.exists_cons_of_ne_nil behind
    have hstart := suffixStart_eq start
    simp [hfallback, aliasedAttempts, hrest, found, changes, hstart, EnumFate.ofAttempts,
      EnumAttempt.reading, Span.between]
  | ends whole behind found done =>
    obtain ⟨index, hfallback⟩ := fallbackAttempts_of_alias rules whole
    obtain ⟨second, others, hrest⟩ := List.exists_cons_of_ne_nil behind
    simp [hfallback, aliasedAttempts, hrest, found, done, EnumFate.ofAttempts]
  | unknown whole behind none =>
    obtain ⟨index, hfallback⟩ := fallbackAttempts_of_alias rules whole
    obtain ⟨second, others, hrest⟩ := List.exists_cons_of_ne_nil behind
    simp [hfallback, aliasedAttempts, hrest, none, EnumFate.ofAttempts]
  | long export_ behind =>
    obtain ⟨second, others, hrest⟩ := List.exists_cons_of_ne_nil behind
    simp [fallbackAttempts_of_export hbound export_, namedAttempts, hrest, EnumFate.ofAttempts]
  | @named index named rule single bound entry found longer =>
    have hexport : bindings.isAlias chain.root = false :=
      Bool.eq_false_iff.mpr fun halias => hone halias single
    simp [fallbackAttempts_of_export hbound hexport, namedAttempts, single, bound, entry, found,
      longer, EnumFate.ofAttempts, EnumAttempt.reading, Text.slice_between_self]
  | single single none =>
    have hexport : bindings.isAlias chain.root = false :=
      Bool.eq_false_iff.mpr fun halias => hone halias single
    rw [fallbackAttempts_of_export hbound hexport]
    cases hindex : bindings.namedIndex? chain.root with
    | none => simp [namedAttempts, single, hindex, EnumFate.ofAttempts]
    | some index =>
      cases hrule : ((bindings.named[index]?).map (·.exported)).bind (ruleEndingWith? rules) with
      | none => simp only [namedAttempts, single, hindex, hrule, EnumFate.ofAttempts]
      | some rule =>
        obtain ⟨exported, hexported, hends⟩ := Option.bind_eq_some_iff.mp hrule
        obtain ⟨named, hentry, rfl⟩ := Option.map_eq_some_iff.mp hexported
        have hshort := none index named rule hindex hentry hends
        simp only [namedAttempts, single, hindex, hrule, hshort, List.isEmpty_nil, if_true,
          EnumFate.ofAttempts]

namespace EnumSlip

variable {body : Text} {bindings : Bindings} {rules : List Rule} {look : EnumLook}

theorem tracks (h : EnumSlip body bindings rules look) :
    bindings.tracks look.chain.root = true := by
  cases h with
  | hop bound _ _ _ _ => exact bound
  | alias_ whole _ _ _ _ _ _ _ _ => exact Chain.tracks_of_isAlias whole

/-- Of the chains that are sources of rules, only accesses as a whole are done wrong by. -/
theorem of_found {replacement : Replacement} (h : EnumSlip body bindings rules look)
    (hfound : look.chain.replacement? bindings rules = some replacement) :
    replacement.source ≠ replacement.target ∧ look.isAccess = true ∧
      look.chain.plainLast.render replacement.target ≠ look.chain.render replacement.target := by
  cases h with
  | hop _ found changes whole loses =>
    obtain rfl := Option.some.inj (hfound.symm.trans found)
    exact ⟨changes, whole, loses⟩
  | alias_ _ none _ _ _ _ _ _ _ =>
    rw [hfound] at none
    cases none

/-- Of the other chains, only single names that are both an alias and an export are. -/
theorem of_none (h : EnumSlip body bindings rules look)
    (hnone : look.chain.replacement? bindings rules = none) :
    bindings.isAlias look.chain.root = true ∧ look.isAccess = false ∧ look.chain.rest = [] ∧
      ∃ index named rule, bindings.namedIndex? look.chain.root = some index ∧
        bindings.named[index]? = some named ∧
        ruleEndingWith? rules named.exported = some rule ∧ rule.source.rest ≠ [] ∧
        body.slice look.chain.span ≠ look.chain.render rule.target := by
  cases h with
  | hop _ found _ _ _ =>
    rw [hnone] at found
    cases found
  | alias_ whole _ part single bound entry found longer differs =>
    exact ⟨whole, part, single, _, _, _, bound, entry, found, longer, differs⟩

end EnumSlip

section Turn

variable {body : Text} {program : Program} {rules : List Rule} {draft : Draft} {look : EnumLook}
  {inner : List EnumLook}

/-- What is tried at a chain that the stage comes to comes true. -/
theorem EnumTurn.holds_ofAttempts (h : EnumTurn body rules program.items draft look inner)
    (hplaced : program.Placed body) (hdots : NoDots draft.bindings rules)
    (hconsistent : draft.edits.Consistent) :
    (EnumFate.ofAttempts body look.chain.span (look.attempts draft.bindings rules)).Holds body
      program rules draft look inner := by
  cases hattempts : look.attempts draft.bindings rules with
  | nil => exact h.reads_passed hplaced hdots hconsistent hattempts
  | cons attempt rest => exact h.reads_attempt hplaced hdots hconsistent hattempts

/-- A single name that is an alias reads as before. -/
theorem EnumTurn.reads_alias (h : EnumTurn body rules program.items draft look inner)
    (hplaced : program.Placed body) (hdots : NoDots draft.bindings rules)
    (hconsistent : draft.edits.Consistent) (halias : draft.bindings.isAlias look.chain.root = true)
    (hnone : look.chain.replacement? draft.bindings rules = none)
    (hsingle : look.chain.rest = []) :
    (draft.rewriteEnums body program rules).edits.Reads body look.chain.span
      (body.slice look.chain.span) := by
  refine h.reads_passed hplaced hdots hconsistent
    (EnumLook.attempts_of_alias halias hnone hsingle (.refl look.chain)) fun other hother => ?_
  rw [EnumLook.attempts_of_alias halias hnone hsingle (h.begins other hother)]
  simp

/-- What the last name of a chain tells comes true, unless the chain is a single name that is
both an alias and an export. -/
theorem EnumTurn.holds_told_iff (h : EnumTurn body rules program.items draft look inner)
    (hplaced : program.Placed body) (hdots : NoDots draft.bindings rules)
    (hconsistent : draft.edits.Consistent)
    (hbound : draft.bindings.tracks look.chain.root = true)
    (hnone : look.chain.replacement? draft.bindings rules = none)
    (hpart : look.isAccess = false) {fate : EnumFate}
    (htells : look.chain.Tells body draft.bindings rules fate) :
    fate.Holds body program rules draft look inner ↔
      ¬ EnumSlip body draft.bindings rules look := by
  by_cases hboth : draft.bindings.isAlias look.chain.root = true ∧ look.chain.rest = []
  · have hreads := h.reads_alias hplaced hdots hconsistent hboth.1 hnone hboth.2
    cases htells with
    | aliased _ behind | ends _ behind | unknown _ behind | long _ behind =>
      exact absurd hboth.2 behind
    | @named index named rule single bound entry found longer =>
      constructor
      · intro hholds hslip
        obtain ⟨-, -, -, _, _, _, hindex, hentry, hrule, -, hdiffers⟩ := hslip.of_none hnone
        obtain rfl := Option.some.inj (bound.symm.trans hindex)
        obtain rfl := Option.some.inj (entry.symm.trans hentry)
        obtain rfl := Option.some.inj (found.symm.trans hrule)
        exact hdiffers (hreads.unique hholds)
      · intro hslip
        by_contra hholds
        refine hslip (.alias_ hboth.1 hnone hpart single bound entry found longer fun hsame => ?_)
        exact hholds (hsame ▸ hreads)
    | single single none =>
      refine iff_of_true (fun _ => hreads) fun hslip => ?_
      obtain ⟨-, -, -, _, _, _, hindex, hentry, hrule, hlonger, -⟩ := hslip.of_none hnone
      exact hlonger (none _ _ _ hindex hentry hrule)
  · have hattempts := EnumLook.attempts_of_none hnone
    rw [hpart] at hattempts
    have hholds := h.holds_ofAttempts hplaced hdots hconsistent
    rw [hattempts] at hholds
    rw [htells.eq_ofAttempts hbound fun halias hsingle => hboth ⟨halias, hsingle⟩]
    refine iff_of_true hholds fun hslip => ?_
    obtain ⟨halias, -, hsingle, -⟩ := hslip.of_none hnone
    exact hboth ⟨halias, hsingle⟩

/-- **What becomes of a chain.**  Suppose that no bound name and no source of a rule has a dot,
and that the stage comes to a chain.  Then the rules make something of the chain, and it comes
true exactly when the chain is not one of the two kinds that the stage does not do right by. -/
theorem Draft.rewriteEnums_fate_iff (hplaced : program.Placed body)
    (hdots : NoDots draft.bindings rules) (hconsistent : draft.edits.Consistent)
    (hturn : EnumTurn body rules program.items draft look inner) :
    (∃ fate, look.Meets body draft.bindings rules fate) ∧
      ∀ fate, look.Meets body draft.bindings rules fate →
        (fate.Holds body program rules draft look inner ↔
          ¬ EnumSlip body draft.bindings rules look) := by
  refine ⟨look.exists_fate body draft.bindings rules, fun fate hmeets => ?_⟩
  have hholds := hturn.holds_ofAttempts hplaced hdots hconsistent
  cases hmeets with
  | unbound free =>
    have hempty : look.attempts draft.bindings rules = [] := EnumLook.attempts_of_unbound free
    refine iff_of_true (hturn.reads_passed hplaced hdots hconsistent hempty ?_) ?_
    · intro other hother
      have hroot := (hturn.begins other hother).root_eq
      rw [EnumLook.attempts_of_unbound (hroot ▸ free)]
      simp
    · intro hslip
      rw [hslip.tracks] at free
      cases free
  | @identity replacement bound found same =>
    obtain ⟨rest, hattempts⟩ := EnumLook.attempts_of_found bound found
    have hidentity : replacement.isIdentity = true := beq_iff_eq.mpr same
    rw [hattempts, hidentity] at hholds
    exact iff_of_true hholds fun hslip => (hslip.of_found found).1 same
  | @exact replacement bound found changes =>
    obtain ⟨rest, hattempts⟩ := EnumLook.attempts_of_found bound found
    have hidentity : replacement.isIdentity = false := beq_eq_false_iff_ne.mpr changes
    rw [hattempts, hidentity] at hholds
    have hreads : (draft.rewriteEnums body program rules).edits.Reads body look.chain.span
        (look.seen.render replacement.target) := by
      simpa [EnumFate.Holds, EnumFate.ofAttempts, EnumAttempt.reading, Text.slice_between_self]
        using hholds
    constructor
    · intro hother hslip
      obtain ⟨-, hwhole, hloses⟩ := hslip.of_found found
      have hseen : look.seen = look.chain.plainLast := by simp [EnumLook.seen, hwhole]
      exact hloses (hseen ▸ hreads.unique hother)
    · intro hslip
      suffices hsame : look.seen.render replacement.target =
          look.chain.render replacement.target from hsame ▸ hreads
      cases haccess : look.isAccess with
      | false => simp [EnumLook.seen, haccess]
      | true =>
        by_contra hloses
        rw [EnumLook.seen, if_pos haccess] at hloses
        exact hslip (.hop bound found changes haccess hloses)
  | access bound none whole =>
    have hattempts := EnumLook.attempts_of_none none
    rw [hattempts, whole] at hholds
    refine iff_of_true hholds fun hslip => ?_
    obtain ⟨-, hpart, -⟩ := hslip.of_none none
    rw [whole] at hpart
    cases hpart
  | told bound none part tells =>
    exact hturn.holds_told_iff hplaced hdots hconsistent bound none part tells

end Turn

/-- A file with an enumeration behind a name that no rule knows. -/
private def guardedFile : Text :=
  ("import * as teams from \"@microsoft/teams-js\";\n" ++
    "const a = teams?.other.FailedReason.Timeout;\n").toList

private def reasonRule : Rule :=
  ⟨⟨"appInitialization", ["FailedReason"]⟩, ⟨"app", ["FailedReason"]⟩, none⟩

private theorem guardedFile_facts :
    ∃ program ∈ Program.read? ⟨true, false, true⟩ guardedFile,
      ∃ nest ∈ allEnumNests program.items, ∃ look ∈ nest.enumLooks[1]?,
        (∀ earlier ∈ nest.enumLooks.take 1, ∀ attempt ∈
          earlier.attempts namespaceDraft.bindings BuiltIn.enums,
            ¬ attempt.Succeeds guardedFile []) ∧
        look.isAccess = false ∧ look.chain.names = ["teams", "other", "FailedReason"] ∧
        look.chain.last.name = "FailedReason" ∧
        ∃ first ∈ look.chain.segments[1]?,
          guardedFile.slice (Span.between look.chain.span.start first.span.start) =
            "teams?.".toList := by
  decide +kernel

/-- The last names of the chain become the target, and the question mark in front of them stays. -/
theorem guardedFile_fate :
    ∃ program look inner, Program.read? ⟨true, false, true⟩ guardedFile = some program ∧
      EnumTurn guardedFile BuiltIn.enums program.items namespaceDraft look inner ∧
      look.Meets guardedFile namespaceDraft.bindings BuiltIn.enums
        (.reads "teams?.app.FailedReason".toList) ∧
      (namespaceDraft.rewriteEnums guardedFile program BuiltIn.enums).edits.Reads guardedFile
        look.chain.span "teams?.app.FailedReason".toList := by
  obtain ⟨program, hread, nest, hnest, look, hlook, houter, hpart, hnames, hlast, first, hfirst,
    htext⟩ := guardedFile_facts
  have hturn := EnumTurn.of_getElem? namespaceDraft rfl hnest hlook houter
  have hroot : look.chain.root = "teams" := (List.cons.inj hnames).1
  have hbehind : look.chain.rest ≠ [] := by
    intro hrest
    simp [Chain.names, Chain.segments, hrest] at hnames
  have hnone : look.chain.replacement? namespaceDraft.bindings BuiltIn.enums = none := by
    unfold Chain.replacement?
    rw [hnames]
    decide +kernel
  have htells : look.chain.Tells guardedFile namespaceDraft.bindings BuiltIn.enums
      (.reads "teams?.app.FailedReason".toList) := by
    have hstart : look.chain.segments[look.chain.tailStart reasonRule]? = some first := by
      rw [Chain.tailStart, hnames]
      exact hfirst
    have hchanges : ¬ reasonRule.target.names <:+ look.chain.names.tail := by
      rw [hnames]
      decide
    have haliased : look.chain.Tells guardedFile namespaceDraft.bindings BuiltIn.enums _ :=
      .aliased (by rw [hroot]; rfl) hbehind (by rw [hlast]; rfl) hchanges hstart
    rwa [htext] at haliased
  have hmeets := EnumLook.Meets.told (by rw [hroot]; rfl) hnone hpart htells
  refine ⟨program, look, _, hread, hturn, hmeets, ?_⟩
  obtain ⟨-, hfate⟩ := Draft.rewriteEnums_fate_iff (Program.placed_of_read hread)
    (namespaceDraft_noDots BuiltIn.enums_subset) Edits.consistent_nil hturn
  exact (hfate _ hmeets).mpr fun hslip => hbehind (hslip.of_none hnone).2.2.1

/-- A file with an optional access that is an enumeration as a whole. -/
private def optionalFile : Text :=
  ("import * as teams from \"@microsoft/teams-js\";\n" ++
    "const a = teams.appInitialization?.FailedReason;\n").toList

private theorem optionalFile_facts :
    ∃ program ∈ Program.read? ⟨true, false, true⟩ optionalFile,
      ∃ nest ∈ allEnumNests program.items, ∃ look ∈ nest.enumLooks[0]?,
        ∃ replacement ∈ look.chain.replacement? namespaceDraft.bindings BuiltIn.enums,
          namespaceDraft.bindings.tracks look.chain.root = true ∧
          replacement.source ≠ replacement.target ∧
          look.chain.render replacement.target = "teams.app?.FailedReason".toList ∧
          ¬ (namespaceDraft.rewriteEnums optionalFile program BuiltIn.enums).edits.Reads
            optionalFile look.chain.span "teams.app?.FailedReason".toList := by
  decide +kernel

/-- The question mark of the access is lost, though the rendering of the target has it. -/
theorem optionalFile_fate_fails :
    ∃ program look inner fate, Program.read? ⟨true, false, true⟩ optionalFile = some program ∧
      program.Placed optionalFile ∧ NoDots namespaceDraft.bindings BuiltIn.enums ∧
      namespaceDraft.edits.Consistent ∧
      EnumTurn optionalFile BuiltIn.enums program.items namespaceDraft look inner ∧
      look.Meets optionalFile namespaceDraft.bindings BuiltIn.enums fate ∧
      ¬ fate.Holds optionalFile program BuiltIn.enums namespaceDraft look inner := by
  obtain ⟨program, hread, nest, hnest, look, hlook, replacement, hfound, hbound, hchanges,
    hrender, hnot⟩ := optionalFile_facts
  refine ⟨program, look, _, .reads (look.chain.render replacement.target), hread,
    Program.placed_of_read hread, namespaceDraft_noDots BuiltIn.enums_subset, Edits.consistent_nil,
    EnumTurn.of_getElem? _ rfl hnest hlook (by simp), .exact hbound hfound hchanges, ?_⟩
  rw [hrender]
  exact hnot

end SdkMigration
