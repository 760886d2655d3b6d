import Mathlib.Data.List.Find
import SdkMigration.Proofs.Stages.Calls
import SdkMigration.Proofs.Stages.EnumNests

/-!
# What a look at an enumeration tries

A look at a chain comes down to a list of attempts, which depends on the chain, the bindings and
the rules alone: one for the replacement of the chain, and one for the rule that its last name
tells (`EnumLook.attempts`).  An attempt succeeds when the text reads like its result already or
when no edit is in its way, and the first one that succeeds is the last one that is made in a
nest.

So the edits of the stage in a nest are those of the first attempt that succeeds beside the edits
of the stages before (`Draft.rewriteEnums_around`): the other nests do not get in its way.
-/

namespace SdkMigration

/-! ## Attempts -/

/-- The chain with its last name reached by a plain access. -/
def Chain.plainLast (chain : Chain) : Chain :=
  ⟨chain.head, chain.rest.dropLast ++
    (chain.rest.getLast?.map fun segment => { segment with optional := false }).toList⟩

/-- The chain that a look sees: the last name of an access as a whole counts as reached by a
plain access. -/
def EnumLook.seen (look : EnumLook) : Chain :=
  if look.isAccess then look.chain.plainLast else look.chain

/-- One thing that a look may come to. -/
inductive EnumAttempt where
  /-- The chain is left as it is, with all its parts. -/
  | settle
  /-- A part of the chain is replaced. -/
  | replace (edit : Edit) (origin : Origin) (target : NamePath)
deriving DecidableEq

namespace EnumAttempt

/-- Whether an attempt succeeds beside edits. -/
def Succeeds (body : Text) (held : List Edit) : EnumAttempt → Prop
  | .settle => True
  | .replace edit _ _ =>
    body.slice edit.span = edit.newText ∨ ∀ other ∈ held, other.overlaps edit = false

instance (body : Text) (held : List Edit) :
    ∀ attempt : EnumAttempt, Decidable (attempt.Succeeds body held)
  | .settle => inferInstanceAs (Decidable True)
  | .replace _ _ _ => inferInstanceAs (Decidable (_ ∨ _))

/-- The edits of an attempt that succeeds. -/
def edits (body : Text) : EnumAttempt → List Edit
  | .settle => []
  | .replace edit _ _ => if body.slice edit.span = edit.newText then [] else [edit]

/-- What an attempt makes of the text of a chain at a span. -/
def reading (body : Text) (span : Span) : EnumAttempt → Text
  | .settle => body.slice span
  | .replace edit _ _ =>
    body.slice (Span.between span.start edit.span.start) ++ edit.newText

end EnumAttempt

namespace Chain

/-- The attempt at a chain that is the source of a rule. -/
def exactAttempts (chain : Chain) (bindings : Bindings) (rules : List Rule) : List EnumAttempt :=
  if bindings.tracks chain.root then
    match chain.replacement? bindings rules with
    | none => []
    | some replacement =>
      [if replacement.isIdentity then .settle
        else .replace ⟨chain.span, chain.render replacement.target⟩ replacement.origin
          replacement.target]
  else []

/-- The attempt at the end of a chain behind an alias. -/
def aliasedAttempts (chain : Chain) (rules : List Rule) (index : Nat) : List EnumAttempt :=
  match chain.rest with
  | [] => []
  | _ =>
    match ruleEndingWith? rules chain.last.name with
    | none => []
    | some rule =>
      if rule.target.names.isSuffixOf chain.names.tail then []
      else
        [.replace ⟨Span.between (Draft.suffixStart chain rule) chain.span.stop,
          rule.target.dotted.toList⟩ (.whole index) rule.target]

/-- The attempt at a single name that is bound to an export. -/
def namedAttempts (chain : Chain) (bindings : Bindings) (rules : List Rule) :
    List EnumAttempt :=
  match chain.rest, bindings.namedIndex? chain.root with
  | [], some index =>
    match ((bindings.named[index]?).map (·.exported)).bind (ruleEndingWith? rules) with
    | some rule =>
      if rule.source.rest.isEmpty then []
      else [.replace ⟨chain.span, chain.render rule.target⟩ (.named index) rule.target]
    | none => []
  | _, _ => []

/-- The attempt at a chain of which the last name tells an enumeration. -/
def fallbackAttempts (chain : Chain) (bindings : Bindings) (rules : List Rule) :
    List EnumAttempt :=
  if bindings.tracks chain.root then
    match bindings.wholeIndex? chain.root with
    | some index => chain.aliasedAttempts rules index
    | none => chain.namedAttempts bindings rules
  else []

end Chain

/-- What is tried at a look, in order. -/
def EnumLook.attempts (look : EnumLook) (bindings : Bindings) (rules : List Rule) :
    List EnumAttempt :=
  look.seen.exactAttempts bindings rules ++
    if look.isAccess then [] else look.chain.fallbackAttempts bindings rules

/-! ### The chain that is seen -/

namespace Chain

theorem plainLast_extend (chain : Chain) (segment : Segment) :
    (chain.extend segment).plainLast = chain.extend { segment with optional := false } := by
  simp [plainLast, extend]

theorem identifiers_plainLast (chain : Chain) :
    chain.plainLast.identifiers = chain.identifiers := by
  obtain ⟨head, rest⟩ := chain
  rcases List.eq_nil_or_concat rest with rfl | ⟨init, segment, rfl⟩
  · simp [plainLast, identifiers, segments]
  · simp [plainLast, identifiers, segments]

end Chain

namespace EnumLook

theorem identifiers_seen (look : EnumLook) : look.seen.identifiers = look.chain.identifiers := by
  unfold seen
  split
  · exact look.chain.identifiers_plainLast
  · rfl

theorem names_seen (look : EnumLook) : look.seen.names = look.chain.names :=
  Chain.names_eq_of_identifiers look.identifiers_seen

theorem span_seen (look : EnumLook) : look.seen.span = look.chain.span :=
  Chain.span_eq_of_identifiers look.identifiers_seen

theorem root_seen (look : EnumLook) : look.seen.root = look.chain.root :=
  Chain.root_eq_of_names look.names_seen

theorem replacement?_seen (look : EnumLook) (bindings : Bindings) (rules : List Rule) :
    look.seen.replacement? bindings rules = look.chain.replacement? bindings rules := by
  unfold Chain.replacement?
  rw [look.names_seen]

theorem placed_seen {look : EnumLook} {body : Text} {lo hi : Nat}
    (h : look.chain.Placed body lo hi) : look.seen.Placed body lo hi := by
  unfold Chain.Placed
  rw [look.identifiers_seen]
  exact h

variable {look : EnumLook} {bindings : Bindings} {rules : List Rule}

/-- Nothing is tried at a chain whose first name is not bound. -/
theorem attempts_of_unbound (h : bindings.tracks look.chain.root = false) :
    look.attempts bindings rules = [] := by
  simp [attempts, Chain.exactAttempts, Chain.fallbackAttempts, root_seen, h]

/-- What is tried at a look is to replace the chain or an end of it behind its first name. -/
theorem hasPart_of_attempt {edit : Edit} {origin : Origin} {target : NamePath}
    (h : .replace edit origin target ∈ look.attempts bindings rules) :
    look.chain.HasPart edit.span := by
  rcases List.mem_append.mp h with h | h
  · unfold Chain.exactAttempts at h
    split at h
    · split at h
      · cases h
      · split at h
        · cases List.mem_singleton.mp h
        · cases List.mem_singleton.mp h
          rw [look.span_seen]
          exact .whole
    · cases h
  · split at h
    · cases h
    · unfold Chain.fallbackAttempts at h
      split at h
      · split at h
        · unfold Chain.aliasedAttempts at h
          split at h
          · cases h
          · next hbehind =>
            split at h
            · cases h
            · next rule _ =>
              split at h
              · cases h
              · cases List.mem_singleton.mp h
                exact Draft.hasPart_suffix hbehind rule
        · unfold Chain.namedAttempts at h
          split at h
          · split at h
            · split at h
              · cases h
              · cases List.mem_singleton.mp h
                exact .whole
            · cases h
          · cases h
      · cases h

end EnumLook

/-! ## Attempts one after the other -/

namespace Draft

/-- Makes one attempt. -/
def attempt (draft : Draft) (body : Text) : EnumAttempt → Draft × Bool
  | .settle => (draft, true)
  | .replace edit origin target => draft.replaceEnum body edit.span edit.newText origin target

/-- Makes attempts until one of them succeeds. -/
def tryAll (body : Text) : List EnumAttempt → Draft → Draft × Bool
  | [], draft => (draft, false)
  | first :: rest, draft =>
    let (next, done) := draft.attempt body first
    if done then (next, true) else tryAll body rest next

section Attempts

variable {draft : Draft} {body : Text}

/-- An attempt that does not succeed leaves a note. -/
theorem attempt_of_fails {attempt : EnumAttempt}
    (h : ¬ attempt.Succeeds body draft.edits.held) :
    ∃ notes, draft.attempt body attempt = (draft.addNotes notes, false) := by
  cases attempt with
  | settle => exact absurd trivial h
  | replace edit origin target =>
    obtain ⟨hdiffers, htaken⟩ := not_or.mp h
    cases hconflict : draft.edits.conflict? edit with
    | none => exact absurd (Edits.conflict?_eq_none.mp hconflict) htaken
    | some existing =>
      refine ⟨[.editSkipped edit.span existing.span], ?_⟩
      simp [Draft.attempt, replaceEnum, hdiffers, tryEdit, hconflict]

/-- An attempt that succeeds adds its edits. -/
theorem attempt_of_succeeds {attempt : EnumAttempt}
    (h : attempt.Succeeds body draft.edits.held) :
    (draft.attempt body attempt).2 = true ∧
      (draft.attempt body attempt).1.edits.held = draft.edits.held ++ attempt.edits body := by
  cases attempt with
  | settle => simp [Draft.attempt, EnumAttempt.edits]
  | replace edit origin target =>
    by_cases hsame : body.slice edit.span = edit.newText
    · simp [Draft.attempt, replaceEnum, EnumAttempt.edits, hsame]
    · have hfree := h.resolve_left hsame
      simp [Draft.attempt, replaceEnum, EnumAttempt.edits, hsame, tryEdit_of_free hfree,
        Edits.append, recordMatch, addNotes, count]

/-- Attempts end with the first one that succeeds. -/
theorem held_tryAll (attempts : List EnumAttempt) :
    (tryAll body attempts draft).1.edits.held = draft.edits.held ++
      (attempts.find? fun attempt => attempt.Succeeds body draft.edits.held).toList.flatMap
        (EnumAttempt.edits body) := by
  induction attempts generalizing draft with
  | nil => simp [tryAll]
  | cons first rest ih =>
    by_cases hfirst : first.Succeeds body draft.edits.held
    · obtain ⟨hdone, hheld⟩ := attempt_of_succeeds hfirst
      simp only [tryAll, hdone, if_true, hheld, List.find?_cons, hfirst, decide_true]
      simp
    · obtain ⟨notes, hnotes⟩ := attempt_of_fails hfirst
      simp only [tryAll, hnotes, Bool.false_eq_true, if_false, List.find?_cons, hfirst,
        decide_false]
      exact ih

theorem tryAll_append (attempts others : List EnumAttempt) :
    tryAll body (attempts ++ others) draft =
      if (tryAll body attempts draft).2 then tryAll body attempts draft
      else tryAll body others (tryAll body attempts draft).1 := by
  induction attempts generalizing draft with
  | nil => simp [tryAll]
  | cons first rest ih =>
    cases hdone : (draft.attempt body first).2 <;> simp [tryAll, hdone, ih]

/-- When no attempt has succeeded, the bindings are as before. -/
theorem bindings_tryAll {attempts : List EnumAttempt}
    (h : (tryAll body attempts draft).2 = false) :
    (tryAll body attempts draft).1.bindings = draft.bindings := by
  induction attempts generalizing draft with
  | nil => rfl
  | cons first rest ih =>
    by_cases hfirst : first.Succeeds body draft.edits.held
    · have hdone := (attempt_of_succeeds hfirst).1
      simp only [tryAll, hdone, if_true] at h
      cases h
    · obtain ⟨notes, hnotes⟩ := attempt_of_fails hfirst
      simp only [tryAll, hnotes, Bool.false_eq_true, if_false] at h ⊢
      exact ih h

end Attempts

/-! ## Looks one after the other -/

/-- Looks at one place. -/
def rewriteLook (draft : Draft) (rules : EnumRules) (look : EnumLook) : Draft × Bool :=
  if look.isAccess then draft.rewriteExactEnum rules look.seen
  else draft.rewriteEnum rules look.chain

/-- Looks at places until one look settles the matter. -/
def rewriteLooks (rules : EnumRules) : List EnumLook → Draft → Draft × Bool
  | [], draft => (draft, false)
  | first :: rest, draft =>
    let (next, done) := draft.rewriteLook rules first
    if done then (next, true) else rewriteLooks rules rest next

end Draft

/-- In a tree that is a chain the stage goes from look to look. -/
theorem Tree.rewriteEnums_eq_looks (rules : EnumRules) {tree : Tree} {chain : Chain}
    (h : tree.chain? = some chain) (draft : Draft) :
    tree.rewriteEnums rules draft = (Draft.rewriteLooks rules tree.enumLooks draft).1 := by
  fun_induction Tree.chain? tree generalizing chain draft with
  | case1 => rfl
  | case2 span object optional property inner hinner ih =>
    have hseen : (⟨inner.extend ⟨property.name, property.span, optional⟩, true⟩ : EnumLook).seen =
        inner.extend ⟨property.name, property.span, false⟩ := Chain.plainLast_extend _ _
    simp only [Tree.enumLooks, hinner, Tree.rewriteEnums, Draft.rewriteLooks, Draft.rewriteLook,
      hseen, Draft.rewriteWholeMember, Draft.rewriteEnumTree, if_true]
    cases (draft.rewriteExactEnum rules
      (inner.extend ⟨property.name, property.span, false⟩)).2 with
    | true => rfl
    | false =>
      simp only [Bool.false_eq_true, if_false]
      generalize draft.rewriteExactEnum rules
        (inner.extend ⟨property.name, property.span, false⟩) = first
      cases (first.1.rewriteEnum rules inner).2 with
      | true => rfl
      | false => exact ih hinner _
  | case3 => cases h
  | case4 span left right inner hinner ih =>
    simp only [Tree.enumLooks, Tree.look?, hinner, Tree.rewriteEnums, Draft.rewriteLooks,
      Draft.rewriteLook, Draft.rewriteEnumTree, Option.map_some, Option.toList_some,
      List.singleton_append, Bool.false_eq_true, if_false]
    cases (draft.rewriteEnum rules inner).2 with
    | true => rfl
    | false => exact ih hinner _
  | case5 => cases h
  | case6 kind start inner ih => exact ih h draft
  | case7 => cases h

/-- In a nest the stage goes from look to look. -/
theorem Tree.IsNest.rewriteEnums_eq_looks {nest : Tree} {whole : Chain} (h : nest.IsNest whole)
    (rules : EnumRules) (draft : Draft) :
    nest.rewriteEnums rules draft = (Draft.rewriteLooks rules nest.enumLooks draft).1 := by
  cases h with
  | chain h => exact Tree.rewriteEnums_eq_looks rules h draft
  | typeName span h =>
    simp only [Tree.enumLooks, Tree.look?, h, allEnumLooks, Tree.rewriteEnums, rewriteAllEnums,
      Draft.rewriteLooks, Draft.rewriteLook, Draft.rewriteEnumTree, Option.map_some,
      Option.toList_some, List.singleton_append, List.append_nil, Bool.false_eq_true, if_false]
    cases (draft.rewriteEnum rules whole).2 with
    | true => rfl
    | false => exact Tree.rewriteEnums_eq_looks rules h _

/-! ## What a look tries -/

namespace Draft

section Looks

variable {lessons : Lessons} {draft : Draft} {body : Text} {bindings : Bindings}
  {rules : List Rule} {lo hi : Nat} {chain : Chain}

theorem tryAll_singleton (attempt : EnumAttempt) :
    tryAll body [attempt] draft = draft.attempt body attempt := by
  cases hresult : draft.attempt body attempt with
  | mk next done => cases done <;> simp [tryAll, hresult]

theorem rewriteExactEnum_eq (hdots : NoDots bindings rules)
    (hlearns : bindings.Learns lessons draft.bindings) (hchain : chain.Placed body lo hi) :
    draft.rewriteExactEnum (enumRules body bindings rules) chain =
      tryAll body (chain.exactAttempts bindings rules) draft := by
  unfold rewriteExactEnum Chain.exactAttempts
  rw [hlearns.tracks_eq, find?_eq_replacement? hdots hchain]
  split
  · cases chain.replacement? bindings rules with
    | none => rfl
    | some replacement =>
      simp only [tryAll_singleton]
      cases replacement.isIdentity <;> rfl
  · rfl

theorem rewriteAliasedEnum_eq (index : Nat) :
    draft.rewriteAliasedEnum (enumRules body bindings rules) chain index =
      tryAll body (chain.aliasedAttempts rules index) draft := by
  unfold rewriteAliasedEnum Chain.aliasedAttempts
  cases chain.rest with
  | nil => rfl
  | cons second others =>
    simp only
    cases ruleEndingWith? rules chain.last.name with
    | none => rfl
    | some rule =>
      simp only
      split
      · rfl
      · rw [tryAll_singleton]
        rfl

theorem rewriteNamedEnum_eq (hlearns : bindings.Learns lessons draft.bindings) :
    draft.rewriteNamedEnum (enumRules body bindings rules) chain =
      tryAll body (chain.namedAttempts bindings rules) draft := by
  have hexported : ∀ index : Nat, (draft.bindings.named[index]?).map (·.exported) =
      (bindings.named[index]?).map (·.exported) := by
    intro index
    rw [← List.getElem?_map, ← List.getElem?_map, hlearns.map_exported]
  unfold rewriteNamedEnum Chain.namedAttempts
  rw [hlearns.namedIndex?_eq]
  cases chain.rest with
  | cons second others => rfl
  | nil =>
    cases bindings.namedIndex? chain.root with
    | none => rfl
    | some index =>
      simp only [hexported]
      cases ((bindings.named[index]?).map (·.exported)).bind (ruleEndingWith? rules) with
      | none => rfl
      | some rule =>
        simp only
        split
        · rfl
        · rw [tryAll_singleton]
          rfl

theorem rewriteEnum_eq (hdots : NoDots bindings rules)
    (hlearns : bindings.Learns lessons draft.bindings) (hchain : chain.Placed body lo hi) :
    draft.rewriteEnum (enumRules body bindings rules) chain =
      tryAll body (chain.exactAttempts bindings rules ++ chain.fallbackAttempts bindings rules)
        draft := by
  cases hbound : bindings.tracks chain.root with
  | false =>
    have hnone : chain.exactAttempts bindings rules = [] := by simp [Chain.exactAttempts, hbound]
    have hnoFallback : chain.fallbackAttempts bindings rules = [] := by
      simp [Chain.fallbackAttempts, hbound]
    simp [rewriteEnum, hlearns.tracks_eq, hbound, hnone, hnoFallback, tryAll]
  | true =>
    simp only [rewriteEnum, hlearns.tracks_eq, hbound, if_true, tryAll_append,
      rewriteExactEnum_eq hdots hlearns hchain]
    cases hdone : (tryAll body (chain.exactAttempts bindings rules) draft).2 with
    | true => exact Prod.ext rfl hdone.symm
    | false =>
      have hnext := bindings_tryAll hdone
      have hnextLearns : bindings.Learns lessons
          (tryAll body (chain.exactAttempts bindings rules) draft).1.bindings := by
        rwa [hnext]
      simp only [Bool.false_eq_true, if_false, Chain.fallbackAttempts, hbound, if_true,
        hnextLearns.wholeIndex?_eq]
      cases bindings.wholeIndex? chain.root with
      | some index => exact rewriteAliasedEnum_eq index
      | none => exact rewriteNamedEnum_eq hnextLearns

theorem rewriteLook_eq (hdots : NoDots bindings rules)
    (hlearns : bindings.Learns lessons draft.bindings) {look : EnumLook}
    (hlook : look.chain.Placed body lo hi) :
    draft.rewriteLook (enumRules body bindings rules) look =
      tryAll body (look.attempts bindings rules) draft := by
  unfold rewriteLook EnumLook.attempts
  cases haccess : look.isAccess with
  | true =>
    simp only [if_true, List.append_nil]
    exact rewriteExactEnum_eq hdots hlearns (EnumLook.placed_seen hlook)
  | false =>
    have hseen : look.seen = look.chain := by simp [EnumLook.seen, haccess]
    simp only [Bool.false_eq_true, if_false, hseen]
    exact rewriteEnum_eq hdots hlearns hlook

/-- Looks one after the other are their attempts one after the other. -/
theorem rewriteLooks_eq (hdots : NoDots bindings rules)
    (hlearns : bindings.Learns lessons draft.bindings) {looks : List EnumLook}
    (hlooks : ∀ look ∈ looks, look.chain.Placed body lo hi) :
    rewriteLooks (enumRules body bindings rules) looks draft =
      tryAll body (looks.flatMap fun look => look.attempts bindings rules) draft := by
  induction looks generalizing draft with
  | nil => rfl
  | cons first rest ih =>
    simp only [rewriteLooks, List.flatMap_cons, tryAll_append,
      rewriteLook_eq hdots hlearns (hlooks first List.mem_cons_self)]
    cases hdone : (tryAll body (first.attempts bindings rules) draft).2 with
    | true => exact Prod.ext rfl hdone.symm
    | false =>
      simp only [Bool.false_eq_true, if_false]
      refine ih ?_ fun look hlook => hlooks look (List.mem_cons_of_mem _ hlook)
      rwa [bindings_tryAll hdone]

end Looks

end Draft

/-! ## A nest among the others -/

/-- What is tried in a nest, from the outside in. -/
def Tree.enumAttempts (nest : Tree) (bindings : Bindings) (rules : List Rule) :
    List EnumAttempt :=
  nest.enumLooks.flatMap fun look => look.attempts bindings rules

/-- The edits of the first attempt in a nest that succeeds beside edits. -/
def Tree.enumEdits (nest : Tree) (body : Text) (bindings : Bindings) (rules : List Rule)
    (held : List Edit) : List Edit :=
  ((nest.enumAttempts bindings rules).find? fun attempt =>
    attempt.Succeeds body held).toList.flatMap (EnumAttempt.edits body)

section Nest

variable {body : Text} {program : Program} {rules : List Rule} {draft later : Draft} {nest : Tree}
  {whole : Chain} {bindings : Bindings}

theorem Tree.IsNest.begins_of_look (h : nest.IsNest whole) {look : EnumLook}
    (hlook : look ∈ nest.enumLooks) : look.chain.Begins whole :=
  h.begins (Tree.mem_references_of_look nest look hlook)

/-- An attempt in a nest succeeds beside the edits inside other nests when it succeeds without
them. -/
theorem EnumAttempt.succeeds_iff (hplaced : program.Placed body) (hisNest : nest.IsNest whole)
    (hwhole : whole ∈ (allLandmarks program.items).chains)
    (hlater : draft.Continues ((allLandmarks program.items).Within (· ≠ whole)) .any later)
    {attempt : EnumAttempt} (hattempt : attempt ∈ nest.enumAttempts bindings rules) :
    attempt.Succeeds body later.edits.held ↔ attempt.Succeeds body draft.edits.held := by
  cases attempt with
  | settle => exact Iff.rfl
  | replace edit origin target =>
    obtain ⟨look, hlook, hattempt⟩ := List.mem_flatMap.mp hattempt
    have hbegins := hisNest.begins_of_look hlook
    have hwholePlaced := hplaced.landmarks.chains whole hwhole
    obtain ⟨hstart, hstop⟩ :=
      (EnumLook.hasPart_of_attempt hattempt).inside (hbegins.placed hwholePlaced)
    refine or_congr_right ⟨fun h other hother => h other (hlater.kept other hother), fun h => ?_⟩
    refine hlater.forall_held h fun other hother => ?_
    refine Edit.not_overlaps_of_inside
      (hplaced.landmarks.not_overlaps_chain hwhole hother []) ?_ ?_ edit.newText
    · rw [← hbegins.start_eq]
      exact hstart
    · exact Nat.le_trans hstop (hbegins.stop_le hwholePlaced)

theorem Bindings.not_tracks_of_isEmpty {name : String} (h : bindings.isEmpty = true) :
    bindings.tracks name = false := by
  simp only [Bindings.isEmpty, Bool.and_eq_true, List.isEmpty_iff] at h
  simp [Bindings.tracks, Bindings.isAlias, Bindings.wholeIndex?, Bindings.namedIndex?, h]

theorem Tree.enumEdits_of_isEmpty (h : bindings.isEmpty = true) (held : List Edit) :
    nest.enumEdits body bindings rules held = [] := by
  have hnone : nest.enumAttempts bindings rules = [] :=
    List.flatMap_eq_nil_iff.mpr fun look _ =>
      EnumLook.attempts_of_unbound (Bindings.not_tracks_of_isEmpty h)
  simp [Tree.enumEdits, hnone]

/-- When the stage has come to a nest, the first attempt that succeeds there is the one that
succeeds beside the edits of the stages before. -/
theorem Tree.IsNest.held_rewriteEnums (hisNest : nest.IsNest whole)
    (hplaced : program.Placed body) (hdots : NoDots draft.bindings rules)
    (hwhole : whole ∈ (allLandmarks program.items).chains)
    (hlater : draft.Continues ((allLandmarks program.items).Within (· ≠ whole)) .any later) :
    (nest.rewriteEnums (Draft.enumRules body draft.bindings rules) later).edits.held =
      later.edits.held ++ nest.enumEdits body draft.bindings rules draft.edits.held := by
  have hlooks : ∀ look ∈ nest.enumLooks, look.chain.Placed body 0 body.length :=
    fun look hlook =>
      (hisNest.begins_of_look hlook).placed (hplaced.landmarks.chains whole hwhole)
  have hsame : (nest.enumAttempts draft.bindings rules).find?
        (fun attempt => attempt.Succeeds body later.edits.held) =
      (nest.enumAttempts draft.bindings rules).find?
        (fun attempt => attempt.Succeeds body draft.edits.held) := by
    refine List.find?_congr fun attempt hattempt => ?_
    exact decide_eq_decide.mpr
      (EnumAttempt.succeeds_iff hplaced hisNest hwhole hlater hattempt)
  rw [hisNest.rewriteEnums_eq_looks, Draft.rewriteLooks_eq hdots hlater.bindings hlooks,
    Draft.held_tryAll]
  exact congrArg (fun found : Option EnumAttempt =>
    later.edits.held ++ found.toList.flatMap (EnumAttempt.edits body)) hsame

/-- **The stage around a nest.**  The edits of the stage in a nest are those of the first attempt
that succeeds beside the edits of the stages before, and all others lie elsewhere. -/
theorem Draft.rewriteEnums_around (hplaced : program.Placed body)
    (hdots : NoDots draft.bindings rules) (hnest : nest ∈ allEnumNests program.items)
    (hisNest : nest.IsNest whole) :
    let after := draft.rewriteEnums body program rules
    let own := nest.enumEdits body draft.bindings rules draft.edits.held
    (∀ edit ∈ own, edit ∈ after.edits.held) ∧ ∀ edit ∈ after.edits.held,
      edit ∈ draft.edits.held ∨ edit ∈ own ∨
        (allLandmarks program.items).Within (· ≠ whole) edit := by
  intro after own
  have hsublist := allNested_sublist program.items
  have hwhole : whole ∈ (allLandmarks program.items).chains :=
    hsublist.subset (List.mem_filterMap.mpr ⟨nest, hnest, hisNest.nested?⟩)
  by_cases hempty : draft.bindings.isEmpty = true
  · have hafter : after = draft := by simp [after, Draft.rewriteEnums, hempty]
    have hown : own = [] := Tree.enumEdits_of_isEmpty hempty _
    rw [hafter, hown]
    exact ⟨by simp, fun edit hedit => Or.inl hedit⟩
  · obtain ⟨before, others, hsplit, helsewhere⟩ := exists_split_at
      (hplaced.landmarks.nodup_chains.sublist hsublist) hnest hisNest.nested?
    let noted := draft.addNotes (Lookups.build draft.bindings rules).2
    let step (later : Draft) (nest : Tree) : Draft :=
      nest.rewriteEnums (enumRules body draft.bindings rules) later
    have helse : ∀ later : Draft, draft.bindings.Learns .any later.bindings →
        ∀ other ∈ before ++ others, later.Continues
          ((allLandmarks program.items).Within (· ≠ whole)) .any (step later other) :=
      fun later hlater other hother => Draft.continues_nests hplaced.landmarks
        (allowsEnums_any rules) _ later hlater other
        (hsplit ▸ (List.mem_append.mp hother).elim (List.mem_append_left _)
          fun h => List.mem_append_right _ (List.mem_cons_of_mem _ h))
        (helsewhere other hother)
    have hafter : after = others.foldl step (step (before.foldl step noted) nest) := by
      simp [after, Draft.rewriteEnums, hempty, rewriteAllEnums_eq_foldl, hsplit, noted, step]
    have hreached : draft.Continues ((allLandmarks program.items).Within (· ≠ whole)) .any
        (before.foldl step noted) :=
      (continues_addNotes _).trans (continues_foldl _ fun later hlater other hother =>
        helse later hlater.bindings other (List.mem_append_left _ hother))
    generalize before.foldl step noted = reached at hafter hreached
    have hown : (step reached nest).edits.held = reached.edits.held ++ own :=
      hisNest.held_rewriteEnums hplaced hdots hwhole hreached
    have hin : reached.Continues (fun _ => True) .any (step reached nest) :=
      Tree.continues_rewriteEnums (allowsEnums_any rules) nest reached
        (fun _ _ _ _ _ => trivial) hreached.bindings
    have hleft : (step reached nest).Continues
        ((allLandmarks program.items).Within (· ≠ whole)) .any after := by
      rw [hafter]
      exact continues_foldl _ fun later hlater other hother =>
        helse later (hreached.bindings.trans (hin.bindings.trans hlater.bindings)) other
          (List.mem_append_right _ hother)
    constructor
    · intro edit hedit
      exact hleft.kept edit (hown ▸ List.mem_append_right _ hedit)
    · intro edit hedit
      rcases hleft.added edit hedit with hedit | hedit
      · rw [hown] at hedit
        rcases List.mem_append.mp hedit with hedit | hedit
        · exact (hreached.added edit hedit).imp_right Or.inr
        · exact Or.inr (Or.inl hedit)
      · exact Or.inr (Or.inr hedit)

end Nest

end SdkMigration
