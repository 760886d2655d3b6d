import SdkMigration.Proofs.Addresses
import SdkMigration.Proofs.Walks

/-!
# Where a walk stops

A walk through a program that was read from a text stops at every call exactly once, at whatever
depth and whatever its handler consumes around the call, and at every identifier exactly once
that is in no `import name = …` declaration and in no callee that was consumed
(`Program.walk_reaches`).  At each stop the handler is told of the node and of the starts of the
nodes around it, and in the end the walk is among no nodes.

A `Trace` notes where a walk stopped and what its handler was told there.  `Traced` says that it
has the stops that it should have.  The trace of a node comes from those of its parts: the traces
of trees that stand beside each other are put together by `Traced.beside`, and the stop at the
node itself comes before them (`Traced.inner`, `Traced.stop`, `Traced.consumed`).  The walk
follows these steps (`Tree.covers`).
-/

namespace SdkMigration

variable {σ : Type}

/-! ## Stops -/

/-- Whether a handler is told of what stands at a spot, and of the nodes around it. -/
inductive Invocation.IsAt : Invocation → Spot → Prop
  | call {span : Span} {callee : Tree} {arguments typeArguments : List Tree} {anchors : List Nat}
      {consumed : Bool} :
      IsAt (.call ⟨callee, arguments, span.start⟩ anchors consumed)
        ⟨.call span callee arguments typeArguments, anchors⟩
  | identifier {role : Role} {id : Identifier} {anchors : List Nat} :
      IsAt (.identifier id anchors) ⟨.identifier role id, anchors⟩
  | declaration {kind : DeclarationKind} {id : Identifier} {parts : List Tree}
      {anchors : List Nat} : IsAt (.identifier id anchors) ⟨.declaration kind id parts, anchors⟩

/-- Whether a node is an identifier, or a declaration with an identifier of its own. -/
def Tree.isName : Tree → Bool
  | .identifier _ _ => true
  | .declaration _ _ _ => true
  | _ => false

/-- Whether a walk stops at a node. -/
def Tree.isStop (tree : Tree) : Bool := tree.isCall || tree.isName

/-- Whether a node is an `import name = …` declaration. -/
def Tree.isImportEquals : Tree → Bool
  | .importEquals _ _ => true
  | _ => false

/-- What a handler is told, each with the address of the stop. -/
abbrev Trace := List (Address × Invocation)

namespace Trace

/-- The addresses of the stops. -/
def addresses (trace : Trace) : List Address := trace.map Prod.fst

/-- A trace with its addresses moved. -/
def under (move : Address → Address) (trace : Trace) : Trace :=
  trace.map fun stop => (move stop.1, stop.2)

/-- Whether a callee that is consumed stands at an address. -/
def Consumes (trace : Trace) (address : Address) : Prop :=
  ∃ above site anchors, (above, .call site anchors true) ∈ trace ∧ address = above ++ [0]

end Trace

/-- Whether an address lies in a node whose address has a property. -/
def Address.Within (p : Address → Prop) (address : Address) : Prop :=
  ∃ above, above <+: address ∧ p above

/-- Whether a walk passes over the node at an address: an `import name = …` declaration, or a
callee that is consumed. -/
def Skipped (find : Address → Option Spot) (trace : Trace) (address : Address) : Prop :=
  (∃ spot, find address = some spot ∧ spot.node.isImportEquals = true) ∨ trace.Consumes address

/-- Whether a trace has a stop at every node to stop at that is not passed over, one each, and
tells of each what stands there. -/
structure Traced (find : Address → Option Spot) (trace : Trace) : Prop where
  once : trace.addresses.Nodup
  told : ∀ {address invocation}, (address, invocation) ∈ trace →
    ∃ spot, find address = some spot ∧ invocation.IsAt spot
  reached : ∀ {address spot}, find address = some spot → spot.node.isStop = true →
    (address ∈ trace.addresses ↔ ¬address.Within (Skipped find trace))

/-! ## Addresses in traces -/

namespace Address

variable {p : Address → Prop} {index : Nat} {rest : Address}

theorem within_nil : Within p [] ↔ p [] := by
  simp [Within, List.prefix_nil]

theorem within_cons (h : ¬p []) :
    Within p (index :: rest) ↔ Within (fun address => p (index :: address)) rest := by
  simp only [Within, List.prefix_cons_iff]
  constructor
  · rintro ⟨above, rfl | ⟨more, rfl, hmore⟩, hp⟩
    · exact absurd hp h
    · exact ⟨more, hmore, hp⟩
  · rintro ⟨more, hmore, hp⟩
    exact ⟨index :: more, .inr ⟨more, rfl, hmore⟩, hp⟩

/-- An address behind a first tree. -/
def later : Address → Address
  | [] => []
  | index :: rest => (index + 1) :: rest

theorem later_injective : Function.Injective later := by
  rintro (_ | ⟨i, a⟩) (_ | ⟨j, b⟩) heq
  · rfl
  · cases heq
  · cases heq
  · obtain ⟨hindex, rfl⟩ := List.cons.inj heq
    rw [Nat.succ.inj hindex]

end Address

namespace Trace

variable {trace first others : Trace} {index : Nat} {address : Address}
  {invocation told : Invocation}

theorem mem_addresses :
    address ∈ trace.addresses ↔ ∃ invocation, (address, invocation) ∈ trace := by
  simp [addresses]

theorem mem_under {move : Address → Address} : (address, invocation) ∈ trace.under move ↔
    ∃ other, (other, invocation) ∈ trace ∧ move other = address := by
  simp only [under, List.mem_map, Prod.mk.injEq, Prod.exists]
  constructor
  · rintro ⟨other, _, hmem, hmove, rfl⟩
    exact ⟨other, hmem, hmove⟩
  · rintro ⟨other, hmem, hmove⟩
    exact ⟨other, _, hmem, hmove, rfl⟩

theorem addresses_under (move : Address → Address) (trace : Trace) :
    (trace.under move).addresses = trace.addresses.map move := by
  simp [under, addresses]

theorem map_snd_under (move : Address → Address) (trace : Trace) :
    (trace.under move).map Prod.snd = trace.map Prod.snd := by
  simp [under]

/-- The traces of a first tree and of those behind it as one. -/
def beside (first others : Trace) : Trace :=
  first.under (List.cons 0) ++ others.under Address.later

theorem mem_beside_zero : (0 :: address, invocation) ∈ first.beside others ↔
    (address, invocation) ∈ first := by
  simp only [beside, List.mem_append, mem_under]
  constructor
  · rintro (⟨other, hmem, hother⟩ | ⟨other, hmem, hother⟩)
    · cases hother
      exact hmem
    · cases other <;> cases hother
  · exact fun hmem => .inl ⟨address, hmem, rfl⟩

theorem mem_beside_succ : ((index + 1) :: address, invocation) ∈ first.beside others ↔
    (index :: address, invocation) ∈ others := by
  simp only [beside, List.mem_append, mem_under]
  constructor
  · rintro (⟨other, hmem, hother⟩ | ⟨other, hmem, hother⟩)
    · cases hother
    · cases other with
      | nil => cases hother
      | cons =>
        cases hother
        exact hmem
  · exact fun hmem => .inr ⟨index :: address, hmem, rfl⟩

theorem mem_beside_nil : ([], invocation) ∈ first.beside others ↔ ([], invocation) ∈ others := by
  simp only [beside, List.mem_append, mem_under]
  constructor
  · rintro (⟨other, hmem, hother⟩ | ⟨other, hmem, hother⟩)
    · cases hother
    · cases other with
      | nil => exact hmem
      | cons => cases hother
  · exact fun hmem => .inr ⟨[], hmem, rfl⟩

/-- A stop has no say about an address where it consumes no callee. -/
theorem consumes_cons {stop : Address × Invocation}
    (h : ∀ above site anchors, stop = (above, .call site anchors true) → address ≠ above ++ [0]) :
    Consumes (stop :: trace) address ↔ trace.Consumes address := by
  refine exists_congr fun above => exists_congr fun site => exists_congr fun anchors =>
    and_congr_left fun haddress => ?_
  rw [List.mem_cons, or_iff_right]
  exact fun heq => h above site anchors heq.symm haddress

/-- The stop at a node itself is none of those inside it. -/
theorem mem_stop : (index :: address, invocation) ∈ ([], told) :: trace ↔
    (index :: address, invocation) ∈ trace := by
  simp only [List.mem_cons, Prod.mk.injEq, reduceCtorEq, false_and, false_or]

end Trace

/-! ## Traces of trees that stand beside each other -/

namespace Traced

variable {anchors : List Nat} {tree : Tree} {trees : List Tree} {trace first others : Trace}

theorem nil : Traced (spotIn? anchors []) [] where
  once := List.nodup_nil
  told := nofun
  reached := by
    rintro (_ | ⟨index, rest⟩) spot hfind
    · cases hfind
    · cases hfind

theorem nil_notMem (h : Traced (spotIn? anchors trees) trace) (invocation : Invocation) :
    ([], invocation) ∉ trace := by
  intro hmem
  obtain ⟨spot, hspot, -⟩ := h.told hmem
  cases hspot

theorem not_skipped_nil (trace : Trace) : ¬Skipped (spotIn? anchors trees) trace [] := by
  rintro (⟨spot, hfind, -⟩ | ⟨above, site, around, -, hnil⟩)
  · cases hfind
  · simp at hnil

/-- Traces of trees that stand beside each other consume what the first one does. -/
theorem consumes_beside_zero (hothers : Traced (spotIn? anchors trees) others)
    {address : Address} :
    (first.beside others).Consumes (0 :: address) ↔ first.Consumes address := by
  constructor
  · rintro ⟨_ | ⟨index, above⟩, site, around, hmem, heq⟩
    · exact absurd (Trace.mem_beside_nil.mp hmem) (hothers.nil_notMem _)
    · obtain ⟨rfl, hrest⟩ := List.cons.inj heq
      exact ⟨above, site, around, Trace.mem_beside_zero.mp hmem, hrest⟩
  · rintro ⟨above, site, around, hmem, rfl⟩
    exact ⟨0 :: above, site, around, Trace.mem_beside_zero.mpr hmem, rfl⟩

/-- Traces of trees that stand beside each other consume what the one behind the first does. -/
theorem consumes_beside_succ (hothers : Traced (spotIn? anchors trees) others) {index : Nat}
    {address : Address} :
    (first.beside others).Consumes ((index + 1) :: address) ↔
      others.Consumes (index :: address) := by
  constructor
  · rintro ⟨_ | ⟨other, above⟩, site, around, hmem, heq⟩
    · exact absurd (Trace.mem_beside_nil.mp hmem) (hothers.nil_notMem _)
    · obtain ⟨rfl, hrest⟩ := List.cons.inj heq
      exact ⟨index :: above, site, around, Trace.mem_beside_succ.mp hmem,
        congrArg (List.cons index) hrest⟩
  · rintro ⟨_ | ⟨other, above⟩, site, around, hmem, heq⟩
    · exact absurd hmem (hothers.nil_notMem _)
    · obtain ⟨rfl, hrest⟩ := List.cons.inj heq
      exact ⟨(index + 1) :: above, site, around, Trace.mem_beside_succ.mpr hmem,
        congrArg (List.cons (index + 1)) hrest⟩

theorem skipped_beside_zero (hothers : Traced (spotIn? anchors trees) others)
    (address : Address) :
    Skipped (spotIn? anchors (tree :: trees)) (first.beside others) (0 :: address) ↔
      Skipped (tree.spot? anchors) first address :=
  or_congr Iff.rfl (consumes_beside_zero hothers)

theorem skipped_beside_succ (hothers : Traced (spotIn? anchors trees) others) (index : Nat)
    (address : Address) :
    Skipped (spotIn? anchors (tree :: trees)) (first.beside others) ((index + 1) :: address) ↔
      Skipped (spotIn? anchors trees) others (index :: address) :=
  or_congr Iff.rfl (consumes_beside_succ hothers)

/-- The traces of trees that stand beside each other are one trace. -/
theorem beside (hfirst : Traced (tree.spot? anchors) first)
    (hothers : Traced (spotIn? anchors trees) others) :
    Traced (spotIn? anchors (tree :: trees)) (first.beside others) where
  once := by
    have hzero : Function.Injective (List.cons 0 : Address → Address) :=
      fun _ _ heq => (List.cons.inj heq).2
    rw [Trace.addresses, Trace.beside, List.map_append, ← Trace.addresses, ← Trace.addresses,
      Trace.addresses_under, Trace.addresses_under, List.nodup_append]
    refine ⟨hfirst.once.map hzero, hothers.once.map Address.later_injective, ?_⟩
    rintro _ hzeroMem _ hlaterMem rfl
    obtain ⟨address, -, rfl⟩ := List.mem_map.mp hzeroMem
    obtain ⟨_ | ⟨index, rest⟩, -, heq⟩ := List.mem_map.mp hlaterMem
    · cases heq
    · cases heq
  told := by
    rintro (_ | ⟨_ | index, rest⟩) invocation hmem
    · exact absurd (Trace.mem_beside_nil.mp hmem) (hothers.nil_notMem _)
    · exact hfirst.told (Trace.mem_beside_zero.mp hmem)
    · exact hothers.told (Trace.mem_beside_succ.mp hmem)
  reached := by
    rintro (_ | ⟨_ | index, rest⟩) spot hfind hstop
    · cases hfind
    · have hreached := hfirst.reached hfind hstop
      simpa only [Trace.mem_addresses, Trace.mem_beside_zero, skipped_beside_zero hothers,
        Address.within_cons (not_skipped_nil _)] using hreached
    · have hfound : spotIn? anchors trees (index :: rest) = some spot := hfind
      have hreached := hothers.reached hfound hstop
      simpa only [Trace.mem_addresses, Trace.mem_beside_succ, skipped_beside_succ hothers,
        Address.within_cons (not_skipped_nil _)] using hreached

/-! ## The trace of a node from those of its parts -/

theorem not_skipped_root (hequals : tree.isImportEquals = false) :
    ¬Skipped (tree.spot? anchors) trace [] := by
  rintro (⟨spot, hfind, hspot⟩ | ⟨above, site, around, -, hnil⟩)
  · cases hfind
    rw [hequals] at hspot
    cases hspot
  · simp at hnil

/-- A stop at a node itself is told of once when the stops inside are. -/
theorem once_stop (h : trace.addresses.Nodup) (hnil : ∀ invocation, ([], invocation) ∉ trace)
    (invocation : Invocation) : (Trace.addresses (([], invocation) :: trace)).Nodup := by
  refine List.nodup_cons.mpr ⟨fun hmem => ?_, h⟩
  obtain ⟨other, hother⟩ := Trace.mem_addresses.mp hmem
  exact hnil other hother

/-- What is passed over in a node that is not so itself is passed over in its parts. -/
theorem within_parts (hequals : tree.isImportEquals = false) {whole : Trace}
    (hconsumes : ∀ address, whole.Consumes address ↔ trace.Consumes address) {index : Nat}
    {rest : Address} :
    Address.Within (Skipped (tree.spot? anchors) whole) (index :: rest) ↔
      Address.Within (Skipped (spotIn? (anchors ++ tree.anchor) tree.parts) trace)
        (index :: rest) := by
  rw [Address.within_cons (not_skipped_root hequals), Address.within_cons (not_skipped_nil _)]
  simp only [Skipped, hconsumes]
  rfl

/-- At a node that is no stop the trace is that of its parts. -/
theorem inner (h : Traced (spotIn? (anchors ++ tree.anchor) tree.parts) trace)
    (hstop : tree.isStop = false) (hequals : tree.isImportEquals = false) :
    Traced (tree.spot? anchors) trace where
  once := h.once
  told := by
    rintro (_ | ⟨index, rest⟩) invocation hmem
    · exact absurd hmem (h.nil_notMem _)
    · exact h.told hmem
  reached := by
    rintro (_ | ⟨index, rest⟩) spot hfind hspot
    · cases hfind
      rw [hstop] at hspot
      cases hspot
    · have hfound : spotIn? (anchors ++ tree.anchor) tree.parts (index :: rest) = some spot :=
        hfind
      rw [within_parts hequals fun _ => Iff.rfl]
      exact h.reached hfound hspot

/-- There is no stop in an `import name = …` declaration. -/
theorem importEquals {header : ImportEquals} {module : Tree} :
    Traced ((Tree.importEquals header module).spot? anchors) [] where
  once := List.nodup_nil
  told := nofun
  reached := by
    intro address spot hfind hstop
    exact iff_of_false List.not_mem_nil fun hnot => hnot ⟨[], List.nil_prefix, .inl ⟨_, rfl, rfl⟩⟩

theorem not_within_root (hequals : tree.isImportEquals = false) :
    ¬Address.Within (Skipped (tree.spot? anchors) trace) [] := by
  rw [Address.within_nil]
  exact not_skipped_root hequals

/-- At a stop where nothing is consumed, the trace of the parts is behind the stop. -/
theorem stop (h : Traced (spotIn? (anchors ++ tree.anchor) tree.parts) trace)
    (hequals : tree.isImportEquals = false) {invocation : Invocation}
    (hat : invocation.IsAt ⟨tree, anchors⟩)
    (hkeeps : ∀ site around, invocation ≠ .call site around true) :
    Traced (tree.spot? anchors) (([], invocation) :: trace) where
  once := once_stop h.once h.nil_notMem invocation
  told := by
    rintro (_ | ⟨index, rest⟩) other hmem
    · rcases List.mem_cons.mp hmem with heq | hmem
      · obtain ⟨-, rfl⟩ := Prod.mk.inj heq
        exact ⟨_, rfl, hat⟩
      · exact absurd hmem (h.nil_notMem _)
    · exact h.told (Trace.mem_stop.mp hmem)
  reached := by
    rintro (_ | ⟨index, rest⟩) spot hfind hspot
    · exact iff_of_true List.mem_cons_self (not_within_root hequals)
    · have hfound : spotIn? (anchors ++ tree.anchor) tree.parts (index :: rest) = some spot :=
        hfind
      have hconsumes : ∀ address, Trace.Consumes (([], invocation) :: trace) address ↔
          trace.Consumes address := by
        refine fun address => Trace.consumes_cons fun above site around heq => ?_
        exact absurd (Prod.mk.inj heq).2 (hkeeps site around)
      have hreached := h.reached hfound hspot
      simpa only [Trace.mem_addresses, Trace.mem_stop, within_parts hequals hconsumes]
        using hreached

section Consumed

variable {span : Span} {callee : Tree} {arguments typeArguments : List Tree}

/-- The trace of a call whose callee is consumed, from that of its arguments. -/
def whenConsumed (site : CallSite) (anchors : List Nat) (trace : Trace) : Trace :=
  ([], .call site anchors true) :: Trace.beside [] trace

/-- Behind a consumed callee, the same is passed over as without the call. -/
theorem skipped_whenConsumed
    (h : Traced (spotIn? (anchors ++ []) (arguments ++ typeArguments)) trace) {site : CallSite}
    (index : Nat) (address : Address) :
    Skipped ((Tree.call span callee arguments typeArguments).spot? anchors)
        (whenConsumed site anchors trace) ((index + 1) :: address) ↔
      Skipped (spotIn? (anchors ++ []) (arguments ++ typeArguments)) trace (index :: address) := by
  have hbeside : (Trace.beside [] trace).Consumes ((index + 1) :: address) ↔
      trace.Consumes (index :: address) := consumes_beside_succ h
  refine or_congr Iff.rfl (Iff.trans (Trace.consumes_cons ?_) hbeside)
  rintro above other around heq hnil
  obtain ⟨rfl, -⟩ := Prod.mk.inj heq
  cases hnil

/-- At a call whose callee is consumed, the trace of the arguments is behind the stop. -/
theorem consumed (h : Traced (spotIn? (anchors ++ []) (arguments ++ typeArguments)) trace) :
    Traced ((Tree.call span callee arguments typeArguments).spot? anchors)
      (whenConsumed ⟨callee, arguments, span.start⟩ anchors trace) where
  once := by
    refine once_stop ?_ (fun invocation hnil => ?_) _
    · exact (Trace.addresses_under Address.later trace).symm ▸
        h.once.map Address.later_injective
    · exact h.nil_notMem _ (Trace.mem_beside_nil.mp hnil)
  told := by
    rintro (_ | ⟨_ | index, rest⟩) other hmem
    · rcases List.mem_cons.mp hmem with heq | hmem
      · obtain ⟨-, rfl⟩ := Prod.mk.inj heq
        exact ⟨_, rfl, .call⟩
      · exact absurd (Trace.mem_beside_nil.mp hmem) (h.nil_notMem _)
    · cases Trace.mem_beside_zero.mp (Trace.mem_stop.mp hmem)
    · exact h.told (Trace.mem_beside_succ.mp (Trace.mem_stop.mp hmem))
  reached := by
    rintro (_ | ⟨_ | index, rest⟩) spot hfind hspot
    · exact iff_of_true List.mem_cons_self (not_within_root rfl)
    · -- The callee itself is passed over, so nothing is told of it.
      refine iff_of_false (fun hmem => ?_) (fun hnot => hnot ?_)
      · obtain ⟨invocation, hmem⟩ := Trace.mem_addresses.mp hmem
        cases Trace.mem_beside_zero.mp (Trace.mem_stop.mp hmem)
      · exact ⟨[0], ⟨rest, rfl⟩, .inr ⟨[], _, _, List.mem_cons_self, rfl⟩⟩
    · have hfound : spotIn? (anchors ++ []) (arguments ++ typeArguments) (index :: rest) =
          some spot := hfind
      have hmem : (index + 1) :: rest ∈
            (whenConsumed ⟨callee, arguments, span.start⟩ anchors trace).addresses ↔
          index :: rest ∈ trace.addresses := by
        simp only [Trace.mem_addresses, whenConsumed, Trace.mem_stop, Trace.mem_beside_succ]
      have hcall : (Tree.call span callee arguments typeArguments).isImportEquals = false := rfl
      rw [hmem, h.reached hfound hspot, Address.within_cons (not_skipped_root hcall),
        Address.within_cons (not_skipped_nil _)]
      simp only [skipped_whenConsumed h]

end Consumed

end Traced

/-! ## The walk comes to every stop -/

namespace Handler

/-- Whether a handler, told one thing after the other, comes from one state to another and gives
the answers that are noted. -/
inductive Runs (handler : Handler σ) : σ → List Invocation → σ → Prop
  | done {state : σ} : Runs handler state [] state
  | call {site : CallSite} {anchors : List Nat} {consumed : Bool} {state next last : σ}
      {more : List Invocation} (answer : handler.call site anchors state = (consumed, next))
      (rest : Runs handler next more last) :
      Runs handler state (.call site anchors consumed :: more) last
  | identifier {id : Identifier} {anchors : List Nat} {state last : σ} {more : List Invocation}
      (rest : Runs handler (handler.identifier id anchors state) more last) :
      Runs handler state (.identifier id anchors :: more) last

variable {handler : Handler σ}

theorem Runs.append {first middle last : σ} {told more : List Invocation}
    (h : handler.Runs first told middle) (hmore : handler.Runs middle more last) :
    handler.Runs first (told ++ more) last := by
  induction h with
  | done => exact hmore
  | call answer _ ih => exact .call answer (ih hmore)
  | identifier _ ih => exact .identifier (ih hmore)

/-- A call that is noted as consumed was answered so in some state. -/
theorem Runs.answered {first last : σ} {told : List Invocation}
    (h : handler.Runs first told last) {site : CallSite} {anchors : List Nat}
    (hmem : .call site anchors true ∈ told) :
    ∃ state, (handler.call site anchors state).1 = true := by
  induction h with
  | done => cases hmem
  | @call other around consumed state next last more answer _ ih =>
    rcases List.mem_cons.mp hmem with heq | hmem
    · cases heq
      exact ⟨state, by rw [answer]⟩
    · exact ih hmem
  | identifier _ ih =>
    rcases List.mem_cons.mp hmem with heq | hmem
    · cases heq
    · exact ih hmem

/-- Whether a walk that starts among anchors comes back to them, having told its handler of
what stands where it went. -/
def Covers (handler : Handler σ) (find : Address → Option Spot) (anchors : List Nat)
    (walk : Walker σ → Walker σ) : Prop :=
  ∀ told state, ∃ trace last,
    walk ⟨anchors, told, state⟩ = ⟨anchors, told ++ trace.map Prod.snd, last⟩ ∧
      handler.Runs state (trace.map Prod.snd) last ∧ Traced find trace

/-- A walk through trees covers them when it covers each of them. -/
theorem covers_walkAll {trees : List Tree} (h : ∀ tree ∈ trees, ∀ anchors,
    handler.Covers (tree.spot? anchors) anchors (tree.walk handler)) (anchors : List Nat) :
    handler.Covers (spotIn? anchors trees) anchors (walkAll handler trees) := by
  induction trees with
  | nil => exact fun told state => ⟨[], state, by rw [walkAll, List.map_nil, List.append_nil],
      .done, .nil⟩
  | cons tree rest ih =>
    intro told state
    obtain ⟨first, middle, hwalk, hruns, htraced⟩ := h tree (.head _) anchors told state
    obtain ⟨others, last, hrest, hrunsRest, htracedRest⟩ :=
      ih (fun other hother => h other (.tail _ hother)) (told ++ first.map Prod.snd) middle
    have htold : (first.beside others).map Prod.snd =
        first.map Prod.snd ++ others.map Prod.snd := by
      rw [Trace.beside, List.map_append, Trace.map_snd_under, Trace.map_snd_under]
    refine ⟨first.beside others, last, ?_, ?_, htraced.beside htracedRest⟩
    · rw [walkAll, hwalk, hrest, htold, List.append_assoc]
    · rw [htold]
      exact hruns.append hrunsRest

variable {tree : Tree} {anchors : List Nat}

/-- A walk covers a node that it only goes through when it covers the parts. -/
theorem covers_inner (h : handler.Covers (spotIn? (anchors ++ tree.anchor) tree.parts)
      (anchors ++ tree.anchor) (walkAll handler tree.parts))
    (hwalk : tree.walk handler = walkAll handler tree.parts) (hanchor : tree.anchor = [])
    (hstop : tree.isStop = false) (hequals : tree.isImportEquals = false) :
    handler.Covers (tree.spot? anchors) anchors (tree.walk handler) := by
  intro told state
  obtain ⟨trace, last, hparts, hruns, htraced⟩ := h told state
  refine ⟨trace, last, ?_, hruns, htraced.inner hstop hequals⟩
  rw [hanchor, List.append_nil] at hparts
  rw [hwalk, hparts]

/-- A walk covers a node that tells of an identifier when it covers the parts. -/
theorem covers_tell (h : handler.Covers (spotIn? (anchors ++ tree.anchor) tree.parts)
      (anchors ++ tree.anchor) (walkAll handler tree.parts)) {id : Identifier}
    (hwalk : ∀ walker,
      tree.walk handler walker = walkAll handler tree.parts (walker.tell handler id))
    (hat : (Invocation.identifier id anchors).IsAt ⟨tree, anchors⟩) (hanchor : tree.anchor = [])
    (hequals : tree.isImportEquals = false) :
    handler.Covers (tree.spot? anchors) anchors (tree.walk handler) := by
  intro told state
  obtain ⟨trace, last, hparts, hruns, htraced⟩ :=
    h (told ++ [.identifier id anchors]) (handler.identifier id anchors state)
  refine ⟨([], .identifier id anchors) :: trace, last, ?_, .identifier hruns,
    htraced.stop hequals hat nofun⟩
  rw [hanchor, List.append_nil] at hparts
  rw [hwalk, Walker.tell, hparts, List.map_cons, List.append_assoc, List.singleton_append]

end Handler

/-- A walk covers every tree. -/
theorem Tree.covers (handler : Handler σ) (tree : Tree) (anchors : List Nat) :
    handler.Covers (tree.spot? anchors) anchors (tree.walk handler) := by
  induction tree using Tree.induction_parts generalizing anchors with
  | step tree ih =>
  have hparts := Handler.covers_walkAll ih (anchors ++ tree.anchor)
  cases tree with
  | leaf | text | binding | member | qualified | typeReference | heritage | importDeclaration
  | branch => exact Handler.covers_inner hparts rfl rfl rfl rfl
  | identifier role id => exact Handler.covers_tell hparts (fun _ => rfl) .identifier rfl rfl
  | declaration kind id parts =>
    exact Handler.covers_tell hparts (fun _ => rfl) .declaration rfl rfl
  | importEquals header module =>
    exact fun told state => ⟨[], state, by rw [walk, List.map_nil, List.append_nil], .done,
      .importEquals⟩
  | anchored kind start inner =>
    intro told state
    obtain ⟨trace, last, hinner, hruns, htraced⟩ := hparts told state
    refine ⟨trace, last, ?_, hruns, htraced.inner rfl rfl⟩
    have hwalk : inner.walk handler ⟨anchors ++ [start], told, state⟩ =
        ⟨anchors ++ [start], told ++ trace.map Prod.snd, last⟩ := hinner
    rw [walk, Walker.enter, hwalk, Walker.leave, List.dropLast_concat]
  | call span callee arguments typeArguments =>
    intro told state
    cases hanswer : handler.call ⟨callee, arguments, span.start⟩ anchors state with
    | mk consumed next =>
    cases consumed with
    | false =>
      obtain ⟨trace, last, hwalk, hruns, htraced⟩ := hparts (told ++ [.call _ anchors false]) next
      refine ⟨([], .call _ anchors false) :: trace, last, ?_, .call hanswer hruns,
        htraced.stop rfl .call nofun⟩
      have hnone : (call span callee arguments typeArguments).anchor = [] := rfl
      rw [hnone, List.append_nil, List.append_assoc, List.singleton_append] at hwalk
      rw [walk_call_kept hanswer]
      exact hwalk
    | true =>
      have harguments : handler.Covers (spotIn? (anchors ++ []) (arguments ++ typeArguments))
          (anchors ++ []) (walkAll handler (arguments ++ typeArguments)) :=
        Handler.covers_walkAll (fun part hpart => ih part (.tail _ hpart)) _
      obtain ⟨trace, last, hwalk, hruns, htraced⟩ :=
        harguments (told ++ [.call _ anchors true]) next
      have htold : (Trace.beside [] trace).map Prod.snd = trace.map Prod.snd :=
        Trace.map_snd_under _ trace
      refine ⟨Traced.whenConsumed _ anchors trace, last, ?_, ?_, htraced.consumed⟩
      · rw [List.append_nil] at hwalk
        rw [walk_call_consumed hanswer, hwalk, Traced.whenConsumed, List.map_cons, htold,
          List.append_assoc, List.singleton_append]
      · rw [Traced.whenConsumed, List.map_cons, htold]
        exact .call hanswer hruns

/-! ## What a handler is told of a program -/

/-- Whether a handler consumes callees only where they are made of names alone. -/
def Handler.ConsumesChains (handler : Handler σ) : Prop :=
  ∀ site anchors state,
    (handler.call site anchors state).1 = true → site.callee.chain?.isSome = true

theorem Handler.consumesChains_ofStep {consumes : CallSite → Bool} {step : σ → Visit → σ}
    (h : ∀ site, consumes site = true → site.callee.chain?.isSome = true) :
    (Handler.ofStep consumes step).ConsumesChains :=
  fun site _ _ hanswer => h site hanswer

/-- The replacement of callees consumes a callee only where it is made of names alone. -/
theorem Lookups.consumesChains_rewriteCall (text : Text) (lookups : Lookups) :
    (Handler.ofStep (fun site => (lookups.forCall? site).isSome)
      (Draft.rewriteCall text lookups)).ConsumesChains := by
  refine Handler.consumesChains_ofStep fun site hsite => ?_
  unfold Lookups.forCall? at hsite
  split at hsite
  · rename_i hchain
    rw [hchain]
    rfl
  · cases hsite

/-- Whether a trace has a stop at every call of a program, and at every identifier that is not
passed over, one each, and tells of each what stands there. -/
structure Program.Reaches (program : Program) (trace : Trace) : Prop where
  once : trace.addresses.Nodup
  told : ∀ {address invocation}, (address, invocation) ∈ trace →
    ∃ spot, program.spot? address = some spot ∧ invocation.IsAt spot
  calls : ∀ {address spot}, program.spot? address = some spot → spot.node.isCall = true →
    address ∈ trace.addresses
  names : ∀ {address spot}, program.spot? address = some spot → spot.node.isName = true →
    (address ∈ trace.addresses ↔ ¬address.Within (Skipped program.spot? trace))

/-- Nothing that is passed over has a call in it. -/
theorem Traced.not_isCall {program : Program} (hnamed : AllWellNamed program.items)
    {trace : Trace} (htraced : Traced program.spot? trace)
    (hchains : ∀ {address site anchors}, (address, .call site anchors true) ∈ trace →
      site.callee.chain?.isSome = true) {address : Address}
    (h : address.Within (Skipped program.spot? trace)) {spot : Spot}
    (hspot : program.spot? address = some spot) : spot.node.isCall = false := by
  obtain ⟨_, ⟨more, rfl⟩, ⟨⟨node, anchors⟩, hnode, hequals⟩ | ⟨above, site, around, hmem, rfl⟩⟩ := h
  · have hinside := (spotIn?_append hnode more).symm.trans hspot
    have hwellNamed : node.WellNamed :=
      spotIn?_inherits Tree.WellNamed.of_mem_parts (allWellNamed_iff.mp hnamed) hnode
    cases node with
    | importEquals header module => exact hwellNamed.isCall_in_importEquals hinside
    | _ => cases hequals
  · obtain ⟨_, hcall, hat⟩ := htraced.told hmem
    have hchain := hchains hmem
    rw [List.append_assoc] at hspot
    have hinside := (spotIn?_append hcall _).symm.trans hspot
    cases hat with
    | call => exact Tree.isCall_in_chain hchain hinside

/-- A walk whose handler consumes only callees made of names comes to every call of a program
and to every identifier that is not passed over, once each.  It tells its handler of what stands
there and of the starts of the nodes around, and in the end it is among no nodes.  Where the
handler takes the steps of a stage, what it is told of are the visits of the program. -/
theorem Program.walk_reaches {dialect : Dialect} {text : Text} {program : Program}
    (hread : Program.read? dialect text = some program) {handler : Handler σ}
    (hchains : handler.ConsumesChains) (state : σ) :
    (∃ trace : Trace, program.Reaches trace ∧
      (program.walk handler state).told = trace.map Prod.snd ∧
      handler.Runs state (trace.map Prod.snd) (program.walk handler state).state ∧
      (program.walk handler state).anchors = []) ∧
    ∀ consumes step, handler = .ofStep consumes step →
      (program.walk handler state).told =
          (program.visits consumes).map (Visit.invocation consumes) ∧
        (program.walk handler state).state = (program.visits consumes).foldl step state := by
  have hcovers : handler.Covers program.spot? [] (walkAll handler program.items) :=
    Handler.covers_walkAll (fun tree _ => tree.covers handler) []
  obtain ⟨trace, last, hwalk, hruns, htraced⟩ := hcovers [] state
  have hconsumed : ∀ {address site anchors}, (address, .call site anchors true) ∈ trace →
      site.callee.chain?.isSome = true := by
    intro address site anchors hmem
    obtain ⟨before, hanswer⟩ := hruns.answered (List.mem_map.mpr ⟨_, hmem, rfl⟩)
    exact hchains site anchors before hanswer
  have hcalls : ∀ {address spot}, program.spot? address = some spot →
      spot.node.isCall = true → address ∈ trace.addresses := by
    intro address spot hspot hcall
    refine (htraced.reached hspot (by rw [Tree.isStop, hcall, Bool.true_or])).mpr fun hwithin => ?_
    have hnone := htraced.not_isCall (allWellNamed_of_read hread) hconsumed hwithin hspot
    rw [hcall] at hnone
    cases hnone
  have hnames : ∀ {address spot}, program.spot? address = some spot →
      spot.node.isName = true →
      (address ∈ trace.addresses ↔ ¬address.Within (Skipped program.spot? trace)) :=
    fun hspot hname => htraced.reached hspot (by rw [Tree.isStop, hname, Bool.or_true])
  refine ⟨⟨trace, ⟨htraced.once, htraced.told, hcalls, hnames⟩, ?_, ?_, ?_⟩, ?_⟩
  · rw [walk, hwalk, List.nil_append]
  · rw [walk, hwalk]
    exact hruns
  · rw [walk, hwalk]
  · rintro consumes step rfl
    rw [walk_ofStep]
    exact ⟨rfl, rfl⟩

/-- A file with three calls inside each other behind an `import name = …` declaration. -/
private def stopsFile : Text := "import N = require(\"n\");\nf(() => a.b(g(x)));\n".toList

/-- A handler that counts the calls that it is told of and consumes every second callee, if it is
made of names. -/
private def everySecond : Handler Nat where
  call site _ calls := (site.callee.chain?.isSome && calls % 2 == 0, calls + 1)
  identifier _ _ calls := calls

/-- The starts of the nodes around a stop. -/
private def Invocation.anchors : Invocation → List Nat
  | .call _ anchors _ => anchors
  | .identifier _ anchors => anchors

private theorem stopsFile_facts :
    (Program.read? ⟨true, false, true⟩ stopsFile).isSome = true ∧
    ∀ program ∈ Program.read? ⟨true, false, true⟩ stopsFile,
      (program.walk everySecond 0).told.map Invocation.anchors =
        [[25, 25], [25, 25, 27, 33], [25, 25, 27, 33, 33, 33], [25, 25, 27, 33, 37],
          [25, 25, 27, 33, 37, 39]] := by
  decide +kernel

/-- The calls of `f`, `a.b` and `g` are told of with the names `a` and `x`; `f` and `g` are
consumed, and `N` is not told of. -/
theorem stopsFile_reached :
    ∃ program trace, Program.read? ⟨true, false, true⟩ stopsFile = some program ∧
      everySecond.ConsumesChains ∧ program.Reaches trace ∧
      (program.walk everySecond 0).told = trace.map Prod.snd ∧
      everySecond.Runs 0 (trace.map Prod.snd) (program.walk everySecond 0).state ∧
      (program.walk everySecond 0).anchors = [] ∧
      (trace.map Prod.snd).map Invocation.anchors =
        [[25, 25], [25, 25, 27, 33], [25, 25, 27, 33, 33, 33], [25, 25, 27, 33, 37],
          [25, 25, 27, 33, 37, 39]] := by
  obtain ⟨hreads, hfacts⟩ := stopsFile_facts
  obtain ⟨program, hread⟩ := Option.isSome_iff_exists.mp hreads
  have hchains : everySecond.ConsumesChains :=
    fun site anchors calls hanswer => (Bool.and_eq_true_iff.mp hanswer).1
  obtain ⟨⟨trace, hreaches, htold, hruns, hanchors⟩, -⟩ := Program.walk_reaches hread hchains 0
  exact ⟨program, trace, hread, hchains, hreaches, htold, hruns, hanchors,
    htold ▸ hfacts program hread⟩

end SdkMigration
