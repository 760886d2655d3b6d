import SdkMigration.Migration.Calls
import SdkMigration.Migration.Leftovers
import SdkMigration.Proofs.OpaqueLoads

/-!
# Walks through programs

A walk goes through the nodes of a program and stops at calls and identifiers.  At a stop it
tells its `Handler`, which keeps a state between the stops.  The handler may consume the callee
of a call, and may decide so by its state; the walk then passes over the callee.

Three stages of a migration take walks: the replacement of callees
(`Draft.rewriteCalls_walks`), the search for references that are left
(`Draft.flagLeftovers_walks`) and the search for loads (`Program.opaqueLoads_walks`).  Their
handlers consume by the call alone, and what they are told of are the stops of
`Program.visits`.
-/

namespace SdkMigration

/-! ## Handlers and walkers -/

/-- What a walk calls at its stops, together with the starts of the nodes around the stop,
outermost first.  `σ` is what it keeps between the stops. -/
structure Handler (σ : Type) where
  /-- Deals with a call, and tells whether the callee is consumed. -/
  call : CallSite → List Nat → σ → Bool × σ
  /-- Deals with an identifier. -/
  identifier : Identifier → List Nat → σ → σ

/-- What a handler is told once, with its answer about a call. -/
inductive Invocation where
  | call (site : CallSite) (anchors : List Nat) (consumed : Bool)
  | identifier (id : Identifier) (anchors : List Nat)

/-- A walk on its way. -/
structure Walker (σ : Type) where
  /-- The starts of the nodes around it, outermost first. -/
  anchors : List Nat
  /-- What its handler was told. -/
  told : List Invocation
  /-- What its handler keeps. -/
  state : σ

variable {σ : Type}

namespace Walker

/-- Goes into a node that starts at a position. -/
def enter (start : Nat) (walker : Walker σ) : Walker σ :=
  { walker with anchors := walker.anchors ++ [start] }

/-- Goes out of the node entered last. -/
def leave (walker : Walker σ) : Walker σ := { walker with anchors := walker.anchors.dropLast }

/-- Tells the handler of a call, and gives its answer. -/
def ask (handler : Handler σ) (site : CallSite) (walker : Walker σ) : Bool × Walker σ :=
  let answer := handler.call site walker.anchors walker.state
  (answer.1, { walker with
    told := walker.told ++ [.call site walker.anchors answer.1]
    state := answer.2 })

/-- Tells the handler of an identifier. -/
def tell (handler : Handler σ) (id : Identifier) (walker : Walker σ) : Walker σ :=
  { walker with
    told := walker.told ++ [.identifier id walker.anchors]
    state := handler.identifier id walker.anchors walker.state }

end Walker

mutual

/-- Walks through a tree. -/
def Tree.walk (handler : Handler σ) : Tree → Walker σ → Walker σ
  | .leaf _ _, walker => walker
  | .text _ _, walker => walker
  | .identifier _ id, walker => walker.tell handler id
  | .binding _ type, walker => walkAll handler type walker
  | .member _ object _ _, walker => object.walk handler walker
  | .call span callee arguments typeArguments, walker =>
    let asked := walker.ask handler ⟨callee, arguments, span.start⟩
    let behind := if asked.1 then asked.2 else callee.walk handler asked.2
    walkAll handler typeArguments (walkAll handler arguments behind)
  | .qualified _ left _, walker => left.walk handler walker
  | .typeReference _ name arguments, walker =>
    walkAll handler arguments (name.walk handler walker)
  | .heritage _ value arguments, walker =>
    walkAll handler arguments (value.walk handler walker)
  | .declaration _ id parts, walker => walkAll handler parts (walker.tell handler id)
  | .importDeclaration _, walker => walker
  | .importEquals _ _, walker => walker
  | .anchored _ start inner, walker => (inner.walk handler (walker.enter start)).leave
  | .branch _ _ children, walker => walkAll handler children walker

/-- Walks through trees. -/
def walkAll (handler : Handler σ) : List Tree → Walker σ → Walker σ
  | [], walker => walker
  | tree :: rest, walker => walkAll handler rest (tree.walk handler walker)

end

/-- Walks through a program. -/
def Program.walk (program : Program) (handler : Handler σ) (state : σ) : Walker σ :=
  walkAll handler program.items ⟨[], [], state⟩

theorem walkAll_append (handler : Handler σ) (trees more : List Tree) (walker : Walker σ) :
    walkAll handler (trees ++ more) walker =
      walkAll handler more (walkAll handler trees walker) := by
  induction trees generalizing walker with
  | nil => rfl
  | cons tree rest ih => exact ih _

section Calls

variable {handler : Handler σ} {span : Span} {callee : Tree} {arguments typeArguments : List Tree}
  {anchors : List Nat} {told : List Invocation} {state next : σ}

theorem walk_call_kept
    (h : handler.call ⟨callee, arguments, span.start⟩ anchors state = (false, next)) :
    (Tree.call span callee arguments typeArguments).walk handler ⟨anchors, told, state⟩ =
      walkAll handler (callee :: (arguments ++ typeArguments))
        ⟨anchors, told ++ [.call ⟨callee, arguments, span.start⟩ anchors false], next⟩ := by
  simp only [Tree.walk, Walker.ask, h, walkAll, walkAll_append, Bool.false_eq_true, if_false]

theorem walk_call_consumed
    (h : handler.call ⟨callee, arguments, span.start⟩ anchors state = (true, next)) :
    (Tree.call span callee arguments typeArguments).walk handler ⟨anchors, told, state⟩ =
      walkAll handler (arguments ++ typeArguments)
        ⟨anchors, told ++ [.call ⟨callee, arguments, span.start⟩ anchors true], next⟩ := by
  simp only [Tree.walk, Walker.ask, h, walkAll_append, if_true]

end Calls

/-! ## The walks that a migration takes -/

/-- The handler that takes a step at every stop and tells by the call alone whether a callee is
consumed. -/
def Handler.ofStep (consumes : CallSite → Bool) (step : σ → Visit → σ) : Handler σ where
  call site anchors state := (consumes site, step state (.call site anchors.reverse))
  identifier id anchors state := step state (.identifier id anchors.reverse)

/-- What such a handler is told at a stop. -/
def Visit.invocation (consumes : CallSite → Bool) : Visit → Invocation
  | .call site around => .call site around.reverse (consumes site)
  | .identifier id around => .identifier id around.reverse

section Visits

variable {consumes : CallSite → Bool} {step : σ → Visit → σ}

namespace Walker

/-- A walk that has told of some more stops. -/
private def behind (consumes : CallSite → Bool) (step : σ → Visit → σ) (walker : Walker σ)
    (visits : List Visit) : Walker σ :=
  { walker with
    told := walker.told ++ visits.map (Visit.invocation consumes)
    state := visits.foldl step walker.state }

variable (walker : Walker σ)

private theorem behind_anchors (visits : List Visit) :
    (walker.behind consumes step visits).anchors = walker.anchors := rfl

private theorem behind_nil : walker.behind consumes step [] = walker := by
  rw [behind, List.map_nil, List.append_nil, List.foldl_nil]

private theorem behind_append (visits more : List Visit) :
    walker.behind consumes step (visits ++ more) =
      (walker.behind consumes step visits).behind consumes step more := by
  simp only [behind, List.map_append, List.append_assoc, List.foldl_append]

private theorem behind_cons (visit : Visit) (more : List Visit) :
    walker.behind consumes step (visit :: more) =
      (walker.behind consumes step [visit]).behind consumes step more :=
  walker.behind_append [visit] more

private theorem ask_ofStep (site : CallSite) : walker.ask (.ofStep consumes step) site =
    (consumes site, walker.behind consumes step [.call site walker.anchors.reverse]) := by
  simp only [ask, Handler.ofStep, behind, Visit.invocation, List.map_cons, List.map_nil,
    List.reverse_reverse, List.foldl_cons, List.foldl_nil]

private theorem tell_ofStep (id : Identifier) : walker.tell (.ofStep consumes step) id =
    walker.behind consumes step [.identifier id walker.anchors.reverse] := by
  simp only [tell, Handler.ofStep, behind, Visit.invocation, List.map_cons, List.map_nil,
    List.reverse_reverse, List.foldl_cons, List.foldl_nil]

end Walker

mutual

/-- A walk with such a handler tells of the stops in a tree. -/
private theorem Tree.walk_ofStep (walker : Walker σ) : (tree : Tree) →
    tree.walk (.ofStep consumes step) walker =
      walker.behind consumes step (tree.visits consumes walker.anchors.reverse)
  | .leaf _ _ => walker.behind_nil.symm
  | .text _ _ => walker.behind_nil.symm
  | .identifier _ id => walker.tell_ofStep id
  | .binding _ type => walkAll_ofStep walker type
  | .member _ object _ _ => object.walk_ofStep walker
  | .call span callee arguments typeArguments => by
    rw [Tree.walk, Tree.visits, Walker.ask_ofStep, List.append_assoc,
      Walker.behind_cons _ _ (_ ++ _), Walker.behind_append, Walker.behind_append]
    split
    · rw [Walker.behind_nil, walkAll_ofStep _ arguments, walkAll_ofStep _ typeArguments]
      rfl
    · rw [callee.walk_ofStep, walkAll_ofStep _ arguments, walkAll_ofStep _ typeArguments]
      rfl
  | .qualified _ left _ => left.walk_ofStep walker
  | .typeReference _ name arguments => by
    rw [Tree.walk, Tree.visits, Walker.behind_append, name.walk_ofStep,
      walkAll_ofStep _ arguments, Walker.behind_anchors]
  | .heritage _ value arguments => by
    rw [Tree.walk, Tree.visits, Walker.behind_append, value.walk_ofStep,
      walkAll_ofStep _ arguments, Walker.behind_anchors]
  | .declaration _ id parts => by
    rw [Tree.walk, Tree.visits, Walker.behind_cons, Walker.tell_ofStep, walkAll_ofStep _ parts,
      Walker.behind_anchors]
  | .importDeclaration _ => walker.behind_nil.symm
  | .importEquals _ _ => walker.behind_nil.symm
  | .anchored _ start inner => by
    simp only [Tree.walk, Tree.visits, Walker.enter, inner.walk_ofStep, Walker.leave,
      Walker.behind, List.reverse_append, List.reverse_singleton, List.singleton_append,
      List.dropLast_concat]
  | .branch _ _ children => walkAll_ofStep walker children

private theorem walkAll_ofStep (walker : Walker σ) : (trees : List Tree) →
    walkAll (.ofStep consumes step) trees walker =
      walker.behind consumes step (visitsAll consumes walker.anchors.reverse trees)
  | [] => walker.behind_nil.symm
  | tree :: rest => by
    rw [walkAll, visitsAll, Walker.behind_append, tree.walk_ofStep, walkAll_ofStep _ rest,
      Walker.behind_anchors]

end

/-- A walk with such a handler tells of the stops of a program and takes the steps at them. -/
theorem Program.walk_ofStep (program : Program) (state : σ) :
    program.walk (.ofStep consumes step) state =
      ⟨[], (program.visits consumes).map (Visit.invocation consumes),
        (program.visits consumes).foldl step state⟩ := by
  rw [Program.walk, walkAll_ofStep]
  rfl

end Visits

section Stages

variable (text : Text) (program : Program)

/-- The replacement of callees takes a walk, unless nothing is bound from the module. -/
theorem Draft.rewriteCalls_walks {draft : Draft} (h : draft.bindings.isEmpty = false)
    (rules : List Rule) :
    let (lookups, notes) := Lookups.build draft.bindings rules
    draft.rewriteCalls text program rules =
      (program.walk (.ofStep (fun site => (lookups.forCall? site).isSome)
        (Draft.rewriteCall text lookups)) (draft.addNotes notes)).state := by
  simp only [Program.walk_ofStep, Draft.rewriteCalls, h]
  rfl

/-- The search for references that are left takes a walk, unless no name was dropped. -/
theorem Draft.flagLeftovers_walks {draft : Draft} (h : droppedNames 0 draft.bindings.named ≠ []) :
    draft.flagLeftovers text program =
      (program.walk (.ofStep (fun _ => false)
        (Leftovers.flag text (droppedNames 0 draft.bindings.named))) { draft }).state.draft := by
  rw [Program.walk_ofStep, Draft.flagLeftovers]
  split
  · exact absurd ‹_› h
  · rfl

/-- The search for loads takes a walk. -/
theorem Program.opaqueLoads_walks (module globalName : String) :
    (program.importSites text module globalName).opaqueLoads =
      (program.walk (.ofStep (fun _ => false) fun loads visit =>
        loads ++ (opaqueLoad? text module visit).toList) []).state := by
  rw [Program.walk_ofStep, Program.opaqueLoads_eq, List.filterMap_eq_flatMap_toList,
    List.flatMap_eq_foldl]

end Stages

end SdkMigration
