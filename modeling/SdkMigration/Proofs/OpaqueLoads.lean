import SdkMigration.Proofs.CommentLines
import SdkMigration.Proofs.UnrelatedFiles

/-!
# Files that only load the module

A file that binds nothing from the module can still load it, by `require` or by `import()`,
anywhere in its trees.  All that a migration does in such a file is to write a comment line
about each load (`transform_flags_loads`); it counts the loads and nothing else.

The walk of the migration comes to every load, since it goes wherever there are nodes
(`Program.opaqueLoads_eq_loads`).  From a load outwards it looks for the place of the comment
as long as the nodes begin on the line of the load.  Where a node on the way begins on another
line, one further out that begins on the line of the load is not reached: a class that is
exported behind its decorators begins behind them.
-/

namespace SdkMigration

/-! ## Loads of a module -/

mutual

/-- The nodes inside a tree, at any depth, each with the starts of the nodes around it,
innermost first.  What an import names is no part of the program. -/
def Tree.inside (around : List Nat) : Tree → List (Tree × List Nat)
  | .leaf _ _ => []
  | .text _ _ => []
  | .identifier _ _ => []
  | .binding _ type => nodesOf around type
  | .member _ object _ _ => (object, around) :: object.inside around
  | .call _ callee arguments typeArguments =>
    (callee, around) :: callee.inside around ++ nodesOf around arguments ++
      nodesOf around typeArguments
  | .qualified _ left _ => (left, around) :: left.inside around
  | .typeReference _ name arguments =>
    (name, around) :: name.inside around ++ nodesOf around arguments
  | .heritage _ value arguments =>
    (value, around) :: value.inside around ++ nodesOf around arguments
  | .declaration _ _ parts => nodesOf around parts
  | .importDeclaration _ => []
  | .importEquals _ _ => []
  | .anchored _ start inner => (inner, start :: around) :: inner.inside (start :: around)
  | .branch _ _ children => nodesOf around children

/-- The nodes of trees. -/
def nodesOf (around : List Nat) : List Tree → List (Tree × List Nat)
  | [] => []
  | tree :: rest => (tree, around) :: tree.inside around ++ nodesOf around rest

end

/-- A load of a module. -/
structure Load where
  kind : LoadKind
  start : Nat
  /-- The starts of the nodes around it, innermost first. -/
  around : List Nat
deriving DecidableEq

/-- The load of a module that a node is, if it is one: a call of `require` or `import` whose
first argument is the name of the module. -/
def Tree.load? (module : String) (around : List Nat) : Tree → Option Load
  | .call span callee arguments _ =>
    if firstText? arguments = some module then
      (CallSite.loadKind? ⟨callee, arguments, span.start⟩).map fun kind =>
        ⟨kind, span.start, around⟩
    else none
  | _ => none

/-- The loads of a module at any depth of a program. -/
def Program.loads (program : Program) (module : String) : List Load :=
  (nodesOf [] program.items).filterMap fun node => node.1.load? module node.2

namespace Load

/-- Where a migration writes about a load. -/
def place (body : Text) (load : Load) : Nat :=
  insertionPoint body.lineIndex load.around load.start

/-- Where the load begins and, from there outwards, where the nodes around it do as long as
they begin on its line. -/
def run (body : Text) (load : Load) : List Nat :=
  load.start :: load.around.takeWhile fun outer => body.lineIndex outer == body.lineIndex load.start

/-- Whether the start of the outermost node that begins on the line of a load is come to from
the load outwards, nothing on the way beginning before it. -/
def Reached (body : Text) (load : Load) : Prop :=
  ∃ position ∈ load.run body, OutermostStart body load.around load.start position ∧
    ∀ other ∈ load.run body, position ≤ other

end Load

/-! ## The walk comes to every load -/

/-- The load of a module that a walk stops at, if it does. -/
def Visit.load? (module : String) : Visit → Option Load
  | .call site around =>
    if firstText? site.arguments = some module then
      site.loadKind?.map fun kind => ⟨kind, site.start, around⟩
    else none
  | .identifier _ _ => none

/-- The loads among nodes. -/
private def loadsAmong (module : String) (nodes : List (Tree × List Nat)) : List Load :=
  nodes.filterMap fun node => node.1.load? module node.2

section Walk

variable {body : Text} {module : String}

private theorem loadsAmong_append (nodes more : List (Tree × List Nat)) :
    loadsAmong module (nodes ++ more) = loadsAmong module nodes ++ loadsAmong module more :=
  List.filterMap_append

private theorem loadsAmong_cons_of_none {tree : Tree} {around : List Nat}
    (h : tree.load? module around = none) (nodes : List (Tree × List Nat)) :
    loadsAmong module ((tree, around) :: nodes) = loadsAmong module nodes :=
  List.filterMap_cons_none h

mutual

/-- The loads that a walk through a tree stops at are those among its nodes. -/
private theorem Tree.loads_visits (around : List Nat) : (tree : Tree) →
    (tree.visits (fun _ => false) around).filterMap (Visit.load? module) =
      loadsAmong module ((tree, around) :: tree.inside around)
  | .leaf _ _ => rfl
  | .text _ _ => rfl
  | .identifier _ _ => rfl
  | .binding _ type => loads_visitsAll around type
  | .member _ object _ _ => object.loads_visits around
  | .call span callee arguments typeArguments => by
    have hcallee := callee.loads_visits around
    have harguments := loads_visitsAll around arguments
    have htypeArguments := loads_visitsAll around typeArguments
    -- The walk stops at the call itself, which is a load or not.
    have hcall : Visit.load? module (.call ⟨callee, arguments, span.start⟩ around) =
        (Tree.call span callee arguments typeArguments).load? module around := rfl
    simp only [Tree.visits, Tree.inside, Bool.false_eq_true, if_false, List.filterMap_cons,
      List.filterMap_append, hcallee, harguments, htypeArguments, hcall]
    rw [← loadsAmong_append, ← loadsAmong_append]
    rfl
  | .qualified _ left _ => left.loads_visits around
  | .typeReference _ name arguments => by
    have hname := name.loads_visits around
    have harguments := loads_visitsAll around arguments
    rw [loadsAmong_cons_of_none rfl]
    simp only [Tree.visits, Tree.inside, List.filterMap_append, loadsAmong_append, hname,
      harguments]
  | .heritage _ value arguments => by
    have hvalue := value.loads_visits around
    have harguments := loads_visitsAll around arguments
    rw [loadsAmong_cons_of_none rfl]
    simp only [Tree.visits, Tree.inside, List.filterMap_append, loadsAmong_append, hvalue,
      harguments]
  | .declaration _ _ parts => loads_visitsAll around parts
  | .importDeclaration _ => rfl
  | .importEquals _ _ => rfl
  | .anchored _ start inner => inner.loads_visits (start :: around)
  | .branch _ _ children => loads_visitsAll around children

/-- The loads that a walk through trees stops at are those among their nodes. -/
private theorem loads_visitsAll (around : List Nat) : (trees : List Tree) →
    (visitsAll (fun _ => false) around trees).filterMap (Visit.load? module) =
      loadsAmong module (nodesOf around trees)
  | [] => rfl
  | tree :: rest => by
    have htree := tree.loads_visits around
    have hrest := loads_visitsAll around rest
    simp only [visitsAll, nodesOf, List.filterMap_append, loadsAmong_append, htree, hrest]

end

/-- A walk through a program stops at every load, and at each of them once. -/
theorem Program.loads_eq_visits (program : Program) :
    program.loads module = (program.visits fun _ => false).filterMap (Visit.load? module) :=
  (loads_visitsAll [] program.items).symm

/-- What a migration keeps of a load. -/
def Load.found (body : Text) (load : Load) : OpaqueLoad := ⟨load.kind, load.place body⟩

theorem opaqueLoad?_eq (visit : Visit) :
    opaqueLoad? body module visit = (visit.load? module).map (Load.found body) := by
  cases visit with
  | identifier => rfl
  | call site around =>
    simp only [opaqueLoad?, Visit.load?]
    cases site.loadKind? with
    | none => simp
    | some kind =>
      by_cases htext : firstText? site.arguments = some module <;>
        simp [htext, Load.found, Load.place]

/-- A migration finds the loads of a program. -/
theorem Program.opaqueLoads_eq_loads (program : Program) (globalName : String) :
    (program.importSites body module globalName).opaqueLoads =
      (program.loads module).map (Load.found body) := by
  rw [Program.opaqueLoads_eq, Program.loads_eq_visits, List.map_filterMap]
  exact congrArg (List.filterMap · _) (funext opaqueLoad?_eq)

end Walk

/-! ## Where the comments go -/

namespace Load

variable {body : Text} {load : Load}

/-- The place is the first in the text of those that are come to. -/
theorem place_eq_iff {position : Nat} :
    load.place body = position ↔
      position ∈ load.run body ∧ ∀ other ∈ load.run body, position ≤ other := by
  rw [← List.min?_eq_some_iff, run, min?_insertionPoint, Option.some.injEq]
  rfl

/-- The comment goes to the start of the outermost node on the line exactly when it is come
to. -/
theorem reached_iff :
    load.Reached body ↔ OutermostStart body load.around load.start (load.place body) := by
  constructor
  · rintro ⟨position, hmem, houtermost, hle⟩
    rwa [place_eq_iff.mpr ⟨hmem, hle⟩]
  · intro houtermost
    obtain ⟨hmem, hle⟩ := place_eq_iff.mp rfl
    exact ⟨load.place body, hmem, houtermost, hle⟩

instance : Decidable (load.Reached body) :=
  have : Decidable (OutermostStart body load.around load.start (load.place body)) :=
    inferInstanceAs (Decidable (_ = some _))
  decidable_of_iff _ reached_iff.symm

end Load

/-- Where nodes are nested, the outermost node on the line of a load is come to. -/
theorem Program.Nested.reached {program : Program} (h : program.Nested) (body : Text)
    {module : String} {load : Load} (hload : load ∈ program.loads module) :
    load.Reached body := by
  rw [Program.loads_eq_visits] at hload
  obtain ⟨visit, hvisit, hsome⟩ := List.mem_filterMap.mp hload
  cases visit with
  | identifier => cases hsome
  | call site around =>
    have hnested := h _ (List.mem_filter.mpr ⟨hvisit, rfl⟩)
    unfold Visit.load? at hsome
    obtain ⟨-, kind, -, rfl⟩ := by
      simpa only [Option.ite_none_right_eq_some, Option.map_eq_some_iff] using hsome
    exact Load.reached_iff.mpr (outermostStart_insertionPoint body hnested)

/-! ## What is written -/

/-- Whether a text is what is written before a place about a load: nothing where its comment
line stands directly above already, and else the line and the indentation of the place. -/
inductive Load.Writes (body : Text) (place : Nat) (load : Load) : Text → Prop
  | present (above : load.kind.advisory.StandsAbove body place) : Writes body place load []
  | missing {indent : Text} (absent : ¬load.kind.advisory.StandsAbove body place)
      (indents : body.Indents place indent) :
    Writes body place load (load.kind.advisory.comment.toList ++ '\n' :: indent)

/-- Whether a text is another one with a comment line about each load of a module before its
place, and no other change. -/
def Program.Flagged (program : Program) (module : String) (body : Text) (place : Load → Nat)
    (output : Text) : Prop :=
  ∃ line : Load → Text,
    (∀ load ∈ program.loads module, load.Writes body (place load) (line load)) ∧
      output = body.inserting (fun position =>
        ((program.loads module).filter fun load => place load == position).flatMap line) 0

/-- Whether a text is another one with a comment line about each load of a module before the
outermost node that begins on its line, and no other change. -/
def Program.FlaggedOutermost (program : Program) (module : String) (body output : Text) : Prop :=
  ∃ place : Load → Nat, program.Flagged module body place output ∧
    ∀ load ∈ program.loads module, OutermostStart body load.around load.start (place load)

section Comments

variable {body : Text}

/-- The edits about a load. -/
def Load.comments (body : Text) (load : Load) : List Edit :=
  missingComments body (load.place body) [load.kind.advisory]

theorem Load.writes_comments {load : Load} (hplace : load.place body ≤ body.length) :
    load.Writes body (load.place body) ((load.comments body).flatMap Edit.newText) := by
  have habove : load.kind.advisory ∈ Advisory.above body (load.place body) ↔ _ :=
    Advisory.mem_above_iff hplace
  unfold Load.comments missingComments
  by_cases hpresent : load.kind.advisory ∈ Advisory.above body (load.place body)
  · simpa [hpresent] using .present (habove.mp hpresent)
  · simpa [hpresent, Advisory.insertion] using
      .missing (mt habove.mpr hpresent) (Text.indents_lineIndent hplace)

theorem Load.insertsAt_of_mem_comments (load : Load) {edit : Edit}
    (hedit : edit ∈ load.comments body) : edit.insertsAt (load.place body) = true := by
  obtain ⟨advisory, -, rfl⟩ := List.mem_map.mp hedit
  exact Edit.insertsAt_iff.mpr ⟨rfl, rfl⟩

/-- Whether a draft holds nothing but comments about loads, and counts nothing but these. -/
structure Draft.TellsOf (body : Text) (loads : List Load) (draft : Draft) : Prop where
  held : draft.edits.held = loads.flatMap (Load.comments body)
  report : draft.report = { opaqueSites := loads.length }

namespace Draft.TellsOf

variable {loads : List Load} {draft : Draft}

/-- One more load is told of behind the others, no comment being refused. -/
theorem flagLoad (h : draft.TellsOf body loads) (load : Load) :
    (draft.flagLoad body (load.found body)).TellsOf body (loads ++ [load]) := by
  have hfree : ∀ edit ∈ draft.edits.held, ∀ newText,
      edit.overlaps ⟨Span.point (load.place body), newText⟩ = false := by
    intro edit hedit newText
    rw [h.held] at hedit
    obtain ⟨other, -, hedit⟩ := List.mem_flatMap.mp hedit
    exact Edit.not_overlaps_of_isInsertion
      (Edit.isInsertion_of_insertsAt (other.insertsAt_of_mem_comments hedit))
      (Edit.isInsertion_point _ _)
  have hcommented : ∀ counted : Draft, counted.edits = draft.edits →
      (counted.insertComments body (load.place body) [load.kind.advisory]).1 =
        { counted with edits := ⟨draft.edits.held ++ load.comments body⟩ } := by
    intro counted hedits
    rw [insertComments_of_free _ (hedits ▸ hfree), hedits]
    rfl
  have hflagged : draft.flagLoad body (load.found body) =
      { draft with
        edits := ⟨draft.edits.held ++ load.comments body⟩
        report := { draft.report with opaqueSites := draft.report.opaqueSites + 1 } } :=
    hcommented _ rfl
  rw [hflagged]
  exact ⟨by simp [h.held], by simp [h.report]⟩

/-- All loads are told of, one after the other. -/
theorem flagLoads (h : draft.TellsOf body loads) (more : List Load) :
    ((more.map (Load.found body)).foldl (Draft.flagLoad body) draft).TellsOf body
      (loads ++ more) := by
  induction more generalizing draft loads with
  | nil => rwa [List.append_nil]
  | cons load rest ih =>
    rw [List.append_cons]
    exact ih (h.flagLoad load)

end Draft.TellsOf

end Comments

/-! ## Files -/

section Files

variable {options : MigrationOptions} {mediaType : MediaType} {dialect : Dialect} {text : Text}
  {program : Program}

/-- The place of a comment lies in the text. -/
theorem Program.Placed.place_le {body : Text} {module : String} (hplaced : program.Placed body)
    {load : Load} (hload : load ∈ program.loads module) : load.place body ≤ body.length := by
  have hfound : load.found body ∈ (program.importSites body module "").opaqueLoads := by
    rw [program.opaqueLoads_eq_loads]
    exact List.mem_map_of_mem hload
  obtain ⟨visit, hmarked, hposition⟩ := Program.exists_visit_of_load hfound
  exact hposition.trans_le (hplaced.landmarks.insertionPoint_le body.lineIndex hmarked)

/-- **Loads are told of and left as they are.**  A file that binds nothing from the module is
migrated, by whatever rules, to its text with a comment line about each load of the module
before its place.  Its loads, at any depth, are counted and nothing else is.  The comment goes
before the outermost node that begins on the line of its load exactly when that node is come to
from the load, as it is wherever nodes are nested. -/
theorem transform_flags_loads (hdialect : mediaType.dialect? = some dialect)
    (hread : Program.read? dialect (Program.withoutMark text) = some program)
    (hunbound : program.Unbound options.module options.globalName) (location : String) :
    let body := Program.withoutMark text
    let loads := program.loads options.module
    ∃ file, transform options location mediaType text = .ok file ∧
      file.report = { opaqueSites := loads.length } ∧
      program.Flagged options.module body (Load.place body) file.text ∧
      (∀ load ∈ loads, OutermostStart body load.around load.start (load.place body) ↔
        load.Reached body) ∧
      (program.Nested → ∀ load ∈ loads, load.Reached body) ∧
      ((∀ load ∈ loads, load.Reached body) →
        program.FlaggedOutermost options.module body file.text) := by
  intro body loads
  have hplaced : program.Placed body := Program.placed_of_read hread
  obtain ⟨final, hfinal⟩ : ∃ final, final = finalDraft options dialect body program := ⟨_, rfl⟩
  have htransform : transform options location mediaType text =
      .ok ⟨final.edits.apply body, final.report, final.notes⟩ := by
    unfold transform
    simp only [hdialect, hread, migrateProgram, hfinal]
    rfl
  have htells : final.TellsOf body loads := by
    rw [hfinal, hunbound.finalDraft_eq, program.opaqueLoads_eq_loads]
    have hopened : ∀ bindings notes, Draft.TellsOf body [] { bindings, notes } :=
      fun _ _ => ⟨rfl, rfl⟩
    exact (hopened _ _).flagLoads loads
  have hflagged : program.Flagged options.module body (Load.place body)
      (final.edits.apply body) :=
    ⟨fun load => (load.comments body).flatMap Edit.newText,
      fun load hload => Load.writes_comments (hplaced.place_le hload),
      Edits.apply_insertions_at htells.held (fun load _ _ => load.insertsAt_of_mem_comments)
        fun load hload => hplaced.place_le hload⟩
  exact ⟨_, htransform, htells.report, hflagged, fun load _ => Load.reached_iff.symm,
    fun hnested load hload => hnested.reached body hload, fun hreached =>
      ⟨Load.place body, hflagged, fun load hload => Load.reached_iff.mp (hreached load hload)⟩⟩

end Files

/-- A file with three loads, above one of which its comment line stands already. -/
private def loadsFile : Text :=
  "const teams = require?.(\"@microsoft/teams-js\");\nasync function load() \x7b\n  ".toList ++
    Advisory.dynamicImportNotHandled.comment.toList ++
      ("\n  return [await import(\"@microsoft/teams-js\"), require(\"@microsoft/teams-js\")];\n" ++
        "\x7d\n").toList

private theorem loadsFile_facts :
    (Program.read? ⟨true, false, true⟩ loadsFile).isSome = true ∧
    (∀ program ∈ Program.read? ⟨true, false, true⟩ loadsFile,
      program.Unbound defaultModule defaultAlias ∧ program.Nested ∧
        (program.loads defaultModule).map Load.kind = [.require, .dynamicImport, .require]) := by
  decide +kernel

/-- The two lines that are missing are written, each before the statement of its load. -/
theorem loadsFile_flagged :
    MediaType.dialect? .typeScript = some ⟨true, false, true⟩ ∧
    ∃ program file, Program.read? ⟨true, false, true⟩ loadsFile = some program ∧
      program.Unbound defaultModule defaultAlias ∧
      transform {} "file:///p/a.ts" .typeScript loadsFile = .ok file ∧
      file.report = { opaqueSites := 3 } ∧
      program.FlaggedOutermost defaultModule loadsFile file.text := by
  obtain ⟨hreads, hfacts⟩ := loadsFile_facts
  obtain ⟨program, hread⟩ := Option.isSome_iff_exists.mp hreads
  obtain ⟨hunbound, hnested, hkinds⟩ := hfacts program hread
  obtain ⟨file, hfile, hreport, -, -, hreached, houtermost⟩ :=
    @transform_flags_loads {} .typeScript ⟨true, false, true⟩ loadsFile program rfl hread hunbound
      "file:///p/a.ts"
  refine ⟨rfl, program, file, hread, hunbound, hfile, hreport.trans ?_,
    houtermost (hreached hnested)⟩
  rw [← List.length_map Load.kind, hkinds]
  rfl

/-- A class that is exported behind its decorator, in which the module is loaded, on the line on
which the namespace around it begins. -/
private def namespaceFile : Text :=
  ("namespace N \x7b @dec(require(\"@microsoft/teams-js\"))\n" ++
    "export class A \x7b\x7d \x7d\n").toList

private theorem namespaceFile_facts :
    (Program.read? ⟨true, false, true⟩ namespaceFile).isSome = true ∧
    (∀ program ∈ Program.read? ⟨true, false, true⟩ namespaceFile,
      program.Unbound defaultModule defaultAlias ∧
        program.loads defaultModule = [⟨.require, 19, [19, 15, 51, 0]⟩]) ∧
    ((transform {} "file:///p/a.ts" .typeScript namespaceFile).toOption.map fun file =>
      (file.text.head?, file.report)) = some (some 'n', { opaqueSites := 1 }) ∧
    namespaceFile.head? = some 'n' ∧
    (([19, 19, 15, 51, 0] : List Nat).filter fun outer =>
      namespaceFile.lineIndex outer == namespaceFile.lineIndex 19).getLast? = some 0 ∧
    Advisory.requireNotHandled ∉ Advisory.above namespaceFile 0 := by
  decide +kernel

/-- The comment is not written before the namespace, where the outermost node on the line of the
load begins. -/
theorem namespaceFile_not_flagged :
    ∃ program file, Program.read? ⟨true, false, true⟩ namespaceFile = some program ∧
      program.Unbound defaultModule defaultAlias ∧
      transform {} "file:///p/a.ts" .typeScript namespaceFile = .ok file ∧
      file.report = { opaqueSites := 1 } ∧
      ¬program.FlaggedOutermost defaultModule namespaceFile file.text := by
  obtain ⟨hreads, hfacts, houtput, hstart, houter, hmissing⟩ := namespaceFile_facts
  obtain ⟨program, hread⟩ := Option.isSome_iff_exists.mp hreads
  obtain ⟨hunbound, hloads⟩ := hfacts program hread
  generalize hresult : transform {} "file:///p/a.ts" .typeScript namespaceFile = result at houtput
  obtain error | file := result
  · cases houtput
  obtain ⟨hhead, hreport⟩ := Prod.mk.inj (Option.some.inj houtput)
  refine ⟨program, file, hread, hunbound, rfl, hreport, ?_⟩
  rintro ⟨place, ⟨line, hwrites, htext⟩, houtermost⟩
  rw [hloads] at hwrites htext houtermost
  have hplace : place ⟨.require, 19, [19, 15, 51, 0]⟩ = 0 :=
    Option.some.inj ((houtermost _ (List.mem_singleton_self _)).symm.trans houter)
  have hline := hwrites _ (List.mem_singleton_self _)
  rw [hplace] at hline
  -- With the comment before the namespace the text would not start as the file does.
  obtain ⟨rest, hrest⟩ := List.head?_eq_some_iff.mp hstart
  rw [hrest, Text.inserting, List.filter_singleton, hplace, beq_self_eq_true, cond_true,
    List.flatMap_singleton] at htext
  rw [htext] at hhead
  generalize line ⟨.require, 19, [19, 15, 51, 0]⟩ = written at hline hhead
  cases hline with
  | present above => exact hmissing ((Advisory.mem_above_iff (Nat.zero_le _)).mpr above)
  | missing absent indents =>
    obtain ⟨tail, htail⟩ := Advisory.requireNotHandled.comment_spelled.1
    simp [LoadKind.advisory, ← htail] at hhead

end SdkMigration
