import SdkMigration.Program.Grammar.Basic
import SdkMigration.Proofs.Grammar.Parts
import SdkMigration.Proofs.Grammar.Scanning

/-!
# Readers and landmarks

A reader returns trees, names and other things, all of which have landmarks.
`Reader.Places` says that those lie between the token that comes next before
the reader runs and the one that comes next behind it.  A reader goes on in the
text and the dialect that it starts in.

A production reads its parts one after the other and puts them together in an
order of its own.  `Reader.Yields` follows it: what was read so far is placed
from a position on, and what is returned in the end is part of it.  The rules
for `Yields` go with the steps of a production.  A step that returns nothing
with landmarks is a `Yields.step`, one that returns a part is a `Yields.part`,
and one that goes on from the parts read so far is a `Yields.next`.
-/

namespace SdkMigration

/-! ## What readers return -/

/-- Whether the points of a tree that is a chain do not lie behind its start. -/
def Tree.PointsFirst (tree : Tree) : Prop :=
  ∀ chain, tree.chain? = some chain → ∀ point ∈ tree.landmarks.points, point ≤ chain.span.start

theorem Tree.PointsFirst.of_chainless {tree : Tree} (h : tree.chain? = none) :
    tree.PointsFirst := by
  intro chain hchain
  rw [h] at hchain
  cases hchain

theorem Tree.PointsFirst.identifier (role : Role) (id : Identifier) :
    (Tree.identifier role id).PointsFirst := by
  intro chain _ point hpoint
  cases hpoint

/-- The landmarks of what a reader may return, and what holds of it besides. -/
class Located (α : Type) where
  marks : α → Landmarks
  Regular : Text → Dialect → α → Prop

/-- Most things have no landmarks. -/
instance (priority := low) Located.plain {α : Type} : Located α := ⟨fun _ => {}, fun _ _ _ => True⟩

instance : Located Tree := ⟨Tree.landmarks, fun _ _ tree => tree.PointsFirst⟩

instance : Located (List Tree) := ⟨allLandmarks, fun _ _ _ => True⟩

instance : Located Identifier := ⟨Landmarks.name, fun _ _ id => DotFree id.name⟩

@[simp] theorem marks_plain {α : Type} (found : α) : Located.plain.marks found = {} := rfl

@[simp] theorem marks_tree (tree : Tree) : Located.marks tree = tree.landmarks := rfl

@[simp] theorem marks_trees (trees : List Tree) : Located.marks trees = allLandmarks trees := rfl

@[simp] theorem marks_name (id : Identifier) : Located.marks id = Landmarks.name id := rfl

/-- A chain stays placed when a name behind it extends it. -/
theorem Landmarks.Placed.extend {text : Text} {lo middle hi : Nat} {tree : Tree}
    (hplaced : tree.landmarks.Placed text lo middle) {chain : Chain}
    (hchain : tree.chain? = some chain)
    (hpoints : ∀ point ∈ tree.landmarks.points, point ≤ chain.span.start) {id : Identifier}
    (hid : (Landmarks.name id).Placed text middle hi) {optional : Bool} :
    ({ tree.landmarks with chains := [chain.extend ⟨id.name, id.span, optional⟩] } :
      Landmarks).Placed text lo hi := by
  obtain ⟨hchains, himports, hbound⟩ := Tree.landmarks_of_chain hchain
  have hfirst : chain.Placed text lo middle := hplaced.chains chain (by simp [hchains])
  obtain ⟨hstart, hname, hstop⟩ :=
    hid.chains ⟨⟨id.name, id.span, false⟩, []⟩ (List.mem_singleton_self _)
  have hextended : (chain.extend ⟨id.name, id.span, optional⟩).Placed text lo id.span.stop :=
    hfirst.extend hstart hname
  have hle := hid.le
  refine ⟨Nat.le_trans hplaced.le hle, ?_, by simp [himports], by simp [himports], ?_, ?_, ?_,
    by simp [hbound], hplaced.called⟩
  · intro other hother
    obtain rfl := List.mem_singleton.mp hother
    exact hextended.mono (Nat.le_refl _) hstop
  · intro point hpoint
    obtain ⟨hlo, hhi⟩ := hplaced.points point hpoint
    exact ⟨hlo, Nat.le_trans hhi hle⟩
  · simp [Landmarks.spans, himports]
  · intro point hpoint span hspan
    simp only [Landmarks.spans, himports, List.append_nil, List.map_singleton,
      List.mem_singleton] at hspan
    rw [hspan]
    exact Or.inl (hpoints point hpoint)

theorem Landmarks.Placed.point (text : Text) (position : Nat) :
    (Landmarks.point position).Placed text position position := by
  refine ⟨Nat.le_refl _, by simp [Landmarks.point], by simp [Landmarks.point],
    by simp [Landmarks.point], ?_, by simp [Landmarks.point, Landmarks.spans],
    by simp [Landmarks.point, Landmarks.spans], by simp [Landmarks.point],
    by simp [Landmarks.point]⟩
  intro point hpoint
  obtain rfl := List.mem_singleton.mp hpoint
  exact ⟨Nat.le_refl _, Nat.le_refl _⟩

/-! ## Readers that place what they return -/

/-- Whether the next token of a state lies in a text, behind the last one that was
taken, and the state is one in a dialect. -/
structure ReaderState.At (text : Text) (dialect : Dialect) (state : ReaderState) : Prop where
  token : state.token.At text
  lastStop_le : state.lastStop ≤ state.token.start
  dialect_eq : state.dialect = dialect

namespace Reader

/-- Whether a reader places what it returns between the next token before it runs
and the next token behind it, and stays in its dialect. -/
class Places {α : Type} [Located α] (text : Text) (dialect : Dialect) (reader : Reader α) :
    Prop where
  places : ∀ {state : ReaderState} {found : α} {after : ReaderState}, state.At text dialect →
    reader state = some (found, after) →
    after.At text dialect ∧ (Located.marks found).Placed text state.token.start after.token.start ∧
      Located.Regular text dialect found

/-- Whether a reader, when landmarks are placed from a position up to the next
token, places a result from that position up to the token that comes next
then. -/
structure Yields {α : Type} [Located α] (text : Text) (dialect : Dialect) (lo : Nat)
    (before : Landmarks) (reader : Reader α) (result : α → Landmarks) : Prop where
  yields : ∀ {state : ReaderState} {found : α} {after : ReaderState}, state.At text dialect →
    before.Placed text lo state.token.start → reader state = some (found, after) →
    after.At text dialect ∧ (result found).Placed text lo after.token.start ∧
      Located.Regular text dialect found

variable {α β : Type} {text : Text} {dialect : Dialect} {lo : Nat} {before : Landmarks}

/-- A reader that is made of two has run when both have. -/
theorem bind_eq_some {reader : Reader α} {rest : α → Reader β} {state after : ReaderState}
    {found : β} (h : (reader >>= rest) state = some (found, after)) :
    ∃ middle between, reader state = some (middle, between) ∧
      rest middle between = some (found, after) := by
  obtain ⟨⟨middle, between⟩, hfirst, hrest⟩ := Option.bind_eq_some_iff.mp h
  exact ⟨middle, between, hfirst, hrest⟩

namespace Yields

/-! ## Steps of a production -/

section Steps

variable [Located β] {result : β → Landmarks}

/-- A reader that returns a part goes first. -/
theorem part [Located α] {reader : Reader α} {rest : α → Reader β}
    [first : Places text dialect reader]
    (h : ∀ found, Located.Regular text dialect found →
      Yields text dialect lo (before.join (Located.marks found)) (rest found) result) :
    Yields text dialect lo before (reader >>= rest) result := by
  refine ⟨fun {state found after} hstate hbefore hrun => ?_⟩
  obtain ⟨middle, between, hfirst, hrest⟩ := bind_eq_some hrun
  obtain ⟨hbetween, hmiddle, hregular⟩ := first.places hstate hfirst
  exact (h middle hregular).yields hbetween (hbefore.join hmiddle) hrest

/-- A reader that returns nothing with landmarks goes first. -/
theorem step {reader : Reader α} {rest : α → Reader β}
    [first : @Places α .plain text dialect reader]
    (h : ∀ found, Yields text dialect lo before (rest found) result) :
    Yields text dialect lo before (reader >>= rest) result := by
  refine ⟨fun {state found after} hstate hbefore hrun => ?_⟩
  obtain ⟨middle, between, hfirst, hrest⟩ := bind_eq_some hrun
  obtain ⟨hbetween, hmiddle, _⟩ := first.places hstate hfirst
  exact (h middle).yields hbetween (hbefore.mono (Nat.le_refl _) hmiddle.le) hrest

/-- A reader that goes on from what was read so far goes first. -/
theorem next [Located α] {reader : Reader α} {rest : α → Reader β} {middle : α → Landmarks}
    (hfirst : Yields text dialect lo before reader middle)
    (h : ∀ found, Located.Regular text dialect found →
      Yields text dialect lo (middle found) (rest found) result) :
    Yields text dialect lo before (reader >>= rest) result := by
  refine ⟨fun {state found after} hstate hbefore hrun => ?_⟩
  obtain ⟨middle, between, hrun, hrest⟩ := bind_eq_some hrun
  obtain ⟨hbetween, hmiddle, hregular⟩ := hfirst.yields hstate hbefore hrun
  exact (h middle hregular).yields hbetween hmiddle hrest

/-- The span of what was read starts where that starts. -/
theorem span {start : Nat} {rest : Span → Reader β}
    (h : ∀ stop, Yields text dialect lo before (rest (.between start stop)) result) :
    Yields text dialect lo before (spanFrom start >>= rest) result := by
  refine ⟨fun {state found after} hstate hbefore hrun => ?_⟩
  exact (h state.lastStop).yields hstate hbefore hrun

/-- The place of the next token may become a point. -/
theorem point {rest : Nat → Reader β}
    (h : ∀ start, Yields text dialect lo (before.join (.point start)) (rest start) result) :
    Yields text dialect lo before (here >>= rest) result := by
  refine ⟨fun {state found after} hstate hbefore hrun => ?_⟩
  exact (h state.token.start).yields hstate (hbefore.join (.point text _)) hrun

/-- What is placed from a later point on stands behind that point. -/
theorem behind {start : Nat} {reader : Reader β} (h : Yields text dialect start {} reader result) :
    Yields text dialect lo (.point start) reader fun found =>
      (Landmarks.point start).join (result found) := by
  refine ⟨fun {state found after} hstate hbefore hrun => ?_⟩
  obtain ⟨hlo, hhi⟩ := hbefore.points start (List.mem_singleton_self _)
  obtain ⟨hafter, hfound, hregular⟩ := h.yields hstate (.empty hhi) hrun
  refine ⟨hafter, Landmarks.Placed.mono (Landmarks.PartOf.placed (fun mark hmark => ?_) hfound) hlo
    (Nat.le_refl _), hregular⟩
  simp [hmark]

/-- Names that are bound have no place of their own. -/
theorem bound {names : List String} (hnames : ∀ name ∈ names, DotFree name) {reader : Reader β}
    (h : Yields text dialect lo (before.join { bound := names }) reader result) :
    Yields text dialect lo before reader result := by
  refine ⟨fun {state found after} hstate hbefore hrun => ?_⟩
  refine h.yields hstate (hbefore.join ?_) hrun
  exact ⟨Nat.le_refl _, by simp, by simp, by simp, by simp, by simp [Landmarks.spans], by simp,
    hnames, by simp⟩

/-- A call that starts where everything starts begins no later than its callee. -/
theorem called (callee : Tree) {reader : Reader β}
    (h : Yields text dialect lo (before.join (.ofCall lo callee)) reader result)
    (hpart : Landmarks.PartOf lo callee.landmarks before := by
      intro mark hmark; simp [hmark] <;> omega) :
    Yields text dialect lo before reader result := by
  refine ⟨fun {state found after} hstate hbefore hrun => ?_⟩
  refine h.yields hstate (hbefore.join ?_) hrun
  refine ⟨Nat.le_refl _, by simp [Landmarks.ofCall], by simp [Landmarks.ofCall],
    by simp [Landmarks.ofCall], by simp [Landmarks.ofCall],
    by simp [Landmarks.ofCall, Landmarks.spans], by simp [Landmarks.ofCall],
    by simp [Landmarks.ofCall], ?_⟩
  intro call hcall
  obtain ⟨chain, hchain, rfl⟩ := Option.map_eq_some_iff.mp (Option.mem_toList.mp hcall)
  have hmem : chain ∈ callee.landmarks.chains := by
    rw [(Tree.landmarks_of_chain hchain).1]
    exact List.mem_singleton_self _
  exact ((hpart.placed hbefore).chains chain hmem).lo_le

/-- An access goes on from the tree that it is an access of. -/
theorem access {object : Tree} (hobject : object.PointsFirst) (optional : Bool)
    {reader : Reader Identifier} [property : Places text dialect reader]
    {rest : Identifier → Reader β}
    (h : ∀ id, (Tree.member default object optional id).PointsFirst →
      Yields text dialect lo (Tree.member default object optional id).landmarks (rest id) result) :
    Yields text dialect lo object.landmarks (reader >>= rest) result := by
  refine ⟨fun {state found after} hstate hbefore hrun => ?_⟩
  obtain ⟨id, between, hfirst, hrest⟩ := bind_eq_some hrun
  obtain ⟨hbetween, hid, _⟩ := property.places hstate hfirst
  have hle := hid.le
  cases hchain : object.chain? with
  | none =>
    have hlandmarks : (Tree.member default object optional id).landmarks = object.landmarks := by
      simp only [Tree.landmarks, hchain]
    refine (h id (.of_chainless (by simp [Tree.chain?, hchain]))).yields hbetween ?_ hrest
    rw [hlandmarks]
    exact hbefore.mono (Nat.le_refl _) hle
  | some chain =>
    have hmember : (Tree.member default object optional id).chain? =
        some (chain.extend ⟨id.name, id.span, optional⟩) := by simp [Tree.chain?, hchain]
    have hlandmarks : (Tree.member default object optional id).landmarks =
        { object.landmarks with chains := [chain.extend ⟨id.name, id.span, optional⟩] } := by
      simp only [Tree.landmarks, hchain]
    refine (h id ?_).yields hbetween ?_ hrest
    · intro extended hextended point hpoint
      rw [hmember] at hextended
      obtain rfl := Option.some.inj hextended
      rw [hlandmarks] at hpoint
      exact hobject chain hchain point hpoint
    · rw [hlandmarks]
      exact hbefore.extend hchain (hobject chain hchain) hid

/-- A state from before is gone back to, and what was read since is dropped. -/
theorem back {earlier : ReaderState} (hearlier : earlier.At text dialect)
    {rest : PUnit → Reader β} (h : Yields text dialect earlier.token.start {} (rest ⟨⟩) result) :
    Yields text dialect earlier.token.start before (set earlier >>= rest) result := by
  refine ⟨fun {state found after} _ _ hrun => ?_⟩
  exact h.yields hearlier (.empty (Nat.le_refl _)) hrun

/-! ## Ends of a production -/

theorem failure : Yields text dialect lo before (failure : Reader β) result := by
  refine ⟨fun {state found after} _ _ hrun => ?_⟩
  cases hrun

/-- What is returned is part of what was read. -/
theorem pure {found : β} (hregular : Located.Regular text dialect found)
    (hpart : Landmarks.PartOf lo (result found) before := by
      intro mark hmark; simp [hmark] <;> omega) :
    Yields text dialect lo before (pure found) result := by
  refine ⟨fun {state other after} hstate hbefore hrun => ?_⟩
  obtain ⟨rfl, rfl⟩ := Prod.mk.inj (Option.some.inj hrun)
  exact ⟨hstate, hpart.placed hbefore, hregular⟩

/-- The last reader of a production returns a part. -/
theorem last {reader : Reader β} [h : Places text dialect reader]
    (hpart : ∀ found, Landmarks.PartOf lo (result found) (before.join (Located.marks found)) := by
      intro found mark hmark; simp [hmark] <;> omega) :
    Yields text dialect lo before reader result := by
  refine ⟨fun {state found after} hstate hbefore hrun => ?_⟩
  obtain ⟨hafter, hfound, hregular⟩ := h.places hstate hrun
  exact ⟨hafter, (hpart found).placed (hbefore.join hfound), hregular⟩

/-- A reader needs only part of what was read so far. -/
theorem weaken {reader : Reader β} {part : Landmarks}
    (h : Yields text dialect lo part reader result)
    (hpart : Landmarks.PartOf lo part before := by
      intro mark hmark; simp [hmark] <;> omega) :
    Yields text dialect lo before reader result := by
  refine ⟨fun {state found after} hstate hbefore hrun => ?_⟩
  exact h.yields hstate (hpart.placed hbefore) hrun

/-- Nothing is an empty frame. -/
theorem unframed {reader : Reader β}
    (h : Yields text dialect lo (Landmarks.join {} before) reader fun found =>
      Landmarks.join {} (result found)) : Yields text dialect lo before reader result := h

/-! ## Choices -/

theorem ite {condition : Prop} [Decidable condition] {yes no : Reader β}
    (hyes : condition → Yields text dialect lo before yes result)
    (hno : ¬ condition → Yields text dialect lo before no result) :
    Yields text dialect lo before (if condition then yes else no) result := by
  split
  · rename_i h
    exact hyes h
  · rename_i h
    exact hno h

theorem orElse {first second : Reader β} (hfirst : Yields text dialect lo before first result)
    (hsecond : Yields text dialect lo before second result) :
    Yields text dialect lo before (first <|> second) result := by
  refine ⟨fun {state found after} hstate hbefore hrun => ?_⟩
  have horElse : (first state).orElse (fun _ => second state) = some (found, after) := hrun
  cases hfound : first state with
  | none =>
    rw [hfound] at horElse
    exact hsecond.yields hstate hbefore horElse
  | some other =>
    rw [hfound] at horElse
    exact hfirst.yields hstate hbefore (hfound.trans horElse)

end Steps

/-! ## Trees at the end of a production -/

section Trees

variable {result : Tree → Landmarks}

/-- A tree that is no chain is returned. -/
theorem tree {found : Tree} (hchain : found.chain? = none := by rfl)
    (hpart : Landmarks.PartOf lo (result found) before := by
      intro mark hmark; simp [hmark] <;> omega) :
    Yields text dialect lo before (Pure.pure found) result :=
  pure (Tree.PointsFirst.of_chainless hchain) hpart

/-- A branch that is made of what was read is returned. -/
theorem branchFrom {kind : BranchKind} {start : Nat} {children : List Tree}
    (hpart : ∀ span, Landmarks.PartOf lo (result (.branch kind span children)) before := by
      intro span mark hmark; simp [hmark] <;> omega) :
    Yields text dialect lo before (branchFrom kind start children) result :=
  span fun _ => tree rfl (hpart _)

/-- A branch that is made of what was read is read on from. -/
theorem branch [Located β] {result : β → Landmarks} {kind : BranchKind} {start : Nat}
    {children : List Tree} {rest : Tree → Reader β}
    (h : ∀ found : Tree, found.PointsFirst →
      Yields text dialect lo found.landmarks (rest found) result)
    (hpart : Landmarks.PartOf lo (allLandmarks children) before := by
      intro mark hmark; simp [hmark] <;> omega) :
    Yields text dialect lo before (Reader.branchFrom kind start children >>= rest) result :=
  next (branchFrom fun _ => hpart) h

/-- A tree that was read gets a point where everything starts. -/
theorem wrap [Located β] {reader : Reader β} {result : β → Landmarks} (kind : AnchorKind)
    {inner : Tree} (hinner : inner.PointsFirst)
    (h : (Tree.anchored kind lo inner).PointsFirst →
      Yields text dialect lo (Tree.anchored kind lo inner).landmarks reader result)
    (hpart : Landmarks.PartOf lo inner.landmarks before := by
      intro mark hmark; simp [hmark] <;> omega) :
    Yields text dialect lo before reader result := by
  refine ⟨fun {state found after} hstate hbefore hrun => ?_⟩
  have hplaced : (Tree.anchored kind lo inner).landmarks.Placed text lo state.token.start := by
    refine Landmarks.PartOf.placed (fun mark hmark => ?_) hbefore
    simpa [hmark] using hpart mark hmark
  refine (h fun chain hchain point hpoint => ?_).yields hstate hplaced hrun
  rcases List.mem_cons.mp hpoint with rfl | hpoint
  · have hmem : chain ∈ (Tree.anchored kind point inner).landmarks.chains := by
      rw [(Tree.landmarks_of_chain hchain).1]
      exact List.mem_singleton_self _
    exact (hplaced.chains chain hmem).lo_le
  · exact hinner chain hchain point hpoint

/-- A tree with a point where everything starts is returned. -/
theorem anchored {kind : AnchorKind} {inner : Tree} (hinner : inner.PointsFirst)
    (hpart : Landmarks.PartOf lo inner.landmarks before := by
      intro mark hmark; simp [hmark] <;> omega) :
    Yields text dialect lo before (Pure.pure (.anchored kind lo inner)) Tree.landmarks :=
  wrap kind hinner (fun hanchored => pure hanchored (.refl lo _)) hpart

end Trees

end Yields

/-! ## Starts of a production -/

namespace Places

variable [Located β]

theorem of_yields {reader : Reader β} (h : ∀ lo, Yields text dialect lo {} reader Located.marks) :
    Places text dialect reader :=
  ⟨fun hstate hrun => (h _).yields hstate (.empty (Nat.le_refl _)) hrun⟩

/-- The reader looks at where the next token starts before it reads. -/
theorem start {rest : Nat → Reader β}
    (h : ∀ start, Yields text dialect start {} (rest start) Located.marks) :
    Places text dialect (here >>= rest) :=
  ⟨fun hstate hrun => (h _).yields hstate (.empty (Nat.le_refl _)) hrun⟩

/-- The reader looks at the next token before it reads. -/
theorem token {rest : Token → Reader β}
    (h : ∀ token : Token, Yields text dialect token.start {} (rest token) Located.marks) :
    Places text dialect (peek >>= rest) :=
  ⟨fun hstate hrun => (h _).yields hstate (.empty (Nat.le_refl _)) hrun⟩

/-- The reader keeps the state before it reads. -/
theorem state {rest : Nat → ReaderState → Reader β}
    (h : ∀ state : ReaderState, state.At text dialect →
      Yields text dialect state.token.start {} (rest state.token.start state) Located.marks) :
    Places text dialect (here >>= fun start => get >>= rest start) :=
  ⟨fun hstate hrun => (h _ hstate).yields hstate (.empty (Nat.le_refl _)) hrun⟩

end Places

/-! ## The form of what is returned -/

/-- Whether everything that a reader returns has a property. -/
def Returns (p : α → Prop) (reader : Reader α) : Prop :=
  ∀ state found after, reader state = some (found, after) → p found

namespace Returns

variable {p : β → Prop}

theorem pure {found : β} (h : p found) : Returns p (pure found) := by
  intro state other after hrun
  obtain ⟨rfl, rfl⟩ := Prod.mk.inj (Option.some.inj hrun)
  exact h

theorem failure : Returns p failure := by
  intro state found after hrun
  cases hrun

theorem bind {reader : Reader α} {rest : α → Reader β} (h : ∀ found, Returns p (rest found)) :
    Returns p (reader >>= rest) := by
  intro state found after hrun
  obtain ⟨middle, between, _, hrest⟩ := bind_eq_some hrun
  exact h middle between found after hrest

theorem bindOf {q : α → Prop} {reader : Reader α} {rest : α → Reader β} (h : Returns q reader)
    (hrest : ∀ found, q found → Returns p (rest found)) : Returns p (reader >>= rest) := by
  intro state found after hrun
  obtain ⟨middle, between, hfirst, hmore⟩ := bind_eq_some hrun
  exact hrest middle (h _ _ _ hfirst) _ _ _ hmore

theorem mono {q : β → Prop} {reader : Reader β} (h : Returns p reader)
    (hpq : ∀ found, p found → q found) : Returns q reader :=
  fun state found after hrun => hpq found (h state found after hrun)

theorem ite {condition : Prop} [Decidable condition] {yes no : Reader β}
    (hyes : Returns p yes) (hno : Returns p no) :
    Returns p (if condition then yes else no) := by
  split
  · exact hyes
  · exact hno

theorem orElse {first second : Reader β} (hfirst : Returns p first) (hsecond : Returns p second) :
    Returns p (first <|> second) := by
  intro state found after hrun
  have horElse : (first state).orElse (fun _ => second state) = some (found, after) := hrun
  cases hfound : first state with
  | none =>
    rw [hfound] at horElse
    exact hsecond state found after horElse
  | some other =>
    rw [hfound] at horElse
    exact hfirst state found after (hfound.trans horElse)

end Returns

/-- A reader of which more is known goes first. -/
theorem Yields.nextOf [Located α] [Located β] {result : β → Landmarks} {reader : Reader α}
    {rest : α → Reader β} {middle : α → Landmarks} {p : α → Prop}
    (hfirst : Yields text dialect lo before reader middle) (hreturns : Returns p reader)
    (h : ∀ found, p found → Yields text dialect lo (middle found) (rest found) result) :
    Yields text dialect lo before (reader >>= rest) result := by
  refine ⟨fun {state found after} hstate hbefore hrun => ?_⟩
  obtain ⟨middle, between, hrun, hrest⟩ := bind_eq_some hrun
  obtain ⟨hbetween, hmiddle, _⟩ := hfirst.yields hstate hbefore hrun
  exact (h middle (hreturns _ _ _ hrun)).yields hbetween hmiddle hrest

end Reader

/-- Whether the readers that a production may call place what they return. -/
class Grammar.Placing (text : Text) (dialect : Dialect) (g : Grammar) : Prop where
  read : ∀ nonterminal, Reader.Places text dialect (g.read nonterminal)

instance {text : Text} {dialect : Dialect} {g : Grammar} [h : g.Placing text dialect]
    (nonterminal : Nonterminal) : Reader.Places text dialect (g.read nonterminal) :=
  h.read nonterminal

end SdkMigration
