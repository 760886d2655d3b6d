import Mathlib.Data.List.Forall2
import SdkMigration.Proofs.Project.Reports

/-!
# Files that are migrated independently

What one program of a project says, and whether it can be read, migrated or written, has no
influence on anything else: a run over a file system that differs in this file alone finds
the same programs, ends in the same way, reports the same on every other file, and leaves the
same at every other key (`migrates_independently`).
-/

namespace SdkMigration

/-! ## Nodes that look alike -/

/-- Whether two nodes are the same but for what a file says. -/
def Node.Alike (x y : Node) : Prop := x = y ∨ x.isFile = true ∧ y.isFile = true

/-- Whether two entries of a directory are the same but for what a file says. -/
structure DirectoryEntry.Alike (x y : DirectoryEntry) : Prop where
  name : x.name = y.name
  path : x.path = y.path
  node : x.node.Alike y.node

/-- Whether two file systems have the same faults and the same tree, and differ only in what
the file at a key says. -/
structure FileSystem.DifferAt (a b : FileSystem) (key : PathKey) : Prop where
  faults : a.faults = b.faults
  others : ∀ other, other ≠ key → a.node? other = b.node? other
  file : ∃ x y, a.node? key = some x ∧ b.node? key = some y ∧ x.isFile = true ∧ y.isFile = true

namespace FileSystem

variable {a b : FileSystem} {key : PathKey}

theorem DifferAt.agreeAt (h : a.DifferAt b key) {other : PathKey} (hother : other ≠ key) :
    a.AgreeAt b other :=
  ⟨h.faults, h.others other hother⟩

/-- Putting one or another file at a path makes no other difference. -/
theorem differAt_put (files : FileSystem) (path : Path) {x y : Node} (hx : x.isFile = true)
    (hy : y.isFile = true) : (files.put path x).DifferAt (files.put path y) path.key where
  faults := rfl
  others other hother := by
    unfold node? put
    rw [lookup_putNode _ _ hother.symm, lookup_putNode _ _ hother.symm]
  file := ⟨x, y, lookup_putNode_self _ _ _, lookup_putNode_self _ _ _, hx, hy⟩

theorem WellFormed.mem_keys_iff (h : a.WellFormed) :
    key ∈ a.nodes.map (·.1) ↔ ∃ node, a.node? key = some node := by
  rw [List.mem_map]
  constructor
  · rintro ⟨⟨found, node⟩, hnode, rfl⟩
    exact ⟨node, h.node?_eq_some_iff.mpr hnode⟩
  · rintro ⟨node, hnode⟩
    exact ⟨(key, node), h.node?_eq_some_iff.mp hnode, rfl⟩

/-- A file system in good order is told by what is at its keys. -/
theorem WellFormed.keys_eq (ha : a.WellFormed) (hb : b.WellFormed)
    (h : ∀ key, (∃ node, a.node? key = some node) ↔ ∃ node, b.node? key = some node) :
    a.nodes.map (·.1) = b.nodes.map (·.1) := by
  have hordered : ∀ {files : FileSystem}, files.WellFormed →
      (files.nodes.map (·.1)).Pairwise fun x y => PathKey.before x y = true :=
    fun hfiles => List.pairwise_map.mpr hfiles.ordered
  have hnodup : ∀ {files : FileSystem}, files.WellFormed → (files.nodes.map (·.1)).Nodup := by
    intro files hfiles
    refine (hordered hfiles).imp ?_
    rintro x _ hbefore rfl
    exact PathKey.before_irrefl x hbefore
  have hperm : (a.nodes.map (·.1)).Perm (b.nodes.map (·.1)) := by
    rw [List.perm_ext_iff_of_nodup (hnodup ha) (hnodup hb)]
    intro key
    rw [ha.mem_keys_iff, hb.mem_keys_iff, h]
  refine hperm.eq_of_pairwise ?_ (hordered ha) (hordered hb)
  intro x y _ _ hxy hyx
  exact absurd (PathKey.before_trans hxy hyx) (PathKey.before_irrefl x)

theorem forall₂_of_keys_eq {R : PathKey × Node → PathKey × Node → Prop}
    {xs ys : List (PathKey × Node)} (hkeys : xs.map (·.1) = ys.map (·.1))
    (hR : ∀ x ∈ xs, ∀ y ∈ ys, x.1 = y.1 → R x y) : List.Forall₂ R xs ys := by
  induction xs generalizing ys with
  | nil =>
    cases ys with
    | nil => exact .nil
    | cons y ys => cases hkeys
  | cons x xs ih =>
    cases ys with
    | nil => cases hkeys
    | cons y ys =>
      obtain ⟨hfirst, hrest⟩ := List.cons.inj hkeys
      refine .cons (hR x (.head xs) y (.head ys) hfirst) (ih hrest ?_)
      intro x' hx y' hy
      exact hR x' (.tail x hx) y' (.tail y hy)

/-- Two file systems that differ in one file hold alike nodes in the same order. -/
theorem DifferAt.nodes (h : a.DifferAt b key) (ha : a.WellFormed) (hb : b.WellFormed) :
    List.Forall₂ (fun x y => x.1 = y.1 ∧ x.2.Alike y.2) a.nodes b.nodes := by
  obtain ⟨x, y, hx, hy, hxfile, hyfile⟩ := h.file
  refine forall₂_of_keys_eq (ha.keys_eq hb ?_) ?_
  · intro other
    by_cases hother : other = key
    · subst hother
      exact ⟨fun _ => ⟨y, hy⟩, fun _ => ⟨x, hx⟩⟩
    · rw [h.others other hother]
  · rintro ⟨other, first⟩ hfirst ⟨_, second⟩ hsecond rfl
    have hfirst' := ha.node?_eq_some_iff.mpr hfirst
    have hsecond' := hb.node?_eq_some_iff.mpr hsecond
    refine ⟨rfl, ?_⟩
    by_cases hother : other = key
    · subst hother
      rw [hx] at hfirst'
      rw [hy] at hsecond'
      rw [← Option.some.inj hfirst', ← Option.some.inj hsecond']
      exact Or.inr ⟨hxfile, hyfile⟩
    · rw [h.others other hother, hsecond'] at hfirst'
      exact Or.inl (Option.some.inj hfirst').symm

theorem childName_alike {directory : Path} {x y : PathKey × Node}
    (h : x.1 = y.1 ∧ x.2.Alike y.2) :
    Option.Rel DirectoryEntry.Alike
      ((childName? directory.key x.1).map fun name => ⟨name, directory.join name, x.2⟩)
      ((childName? directory.key y.1).map fun name => ⟨name, directory.join name, y.2⟩) := by
  rw [h.1]
  cases childName? directory.key y.1 with
  | none => exact .none
  | some name => exact .some ⟨rfl, rfl, h.2⟩

/-- A directory lists alike entries in two file systems that differ in one file, or cannot be
listed in either. -/
theorem DifferAt.list (h : a.DifferAt b key) (ha : a.WellFormed) (hb : b.WellFormed)
    (directory : Path) :
    (∃ failure, a.list directory = .error failure ∧ b.list directory = .error failure) ∨
    ∃ xs ys, a.list directory = .ok xs ∧ b.list directory = .ok ys ∧
      List.Forall₂ DirectoryEntry.Alike xs ys := by
  unfold FileSystem.list
  have hfault : a.fault? directory .list = b.fault? directory .list := by
    unfold fault?
    rw [h.faults]
  rw [hfault]
  cases b.fault? directory .list with
  | some failure => exact Or.inl ⟨failure, rfl, rfl⟩
  | none =>
    simp only
    by_cases hkey : directory.key = key
    · obtain ⟨x, y, hx, hy, hxfile, hyfile⟩ := h.file
      rw [hkey, hx, hy]
      left
      cases x <;> cases y <;> simp [Node.isFile] at hxfile hyfile ⊢
    · rw [h.others _ hkey]
      cases b.node? directory.key with
      | none => exact Or.inl ⟨_, rfl, rfl⟩
      | some node =>
        cases node with
        | directory =>
          refine Or.inr ⟨_, _, rfl, rfl, List.rel_filterMap ?_ (h.nodes ha hb)⟩
          intro x y hentries
          exact childName_alike hentries
        | text content | bytes content | link => exact Or.inl ⟨_, rfl, rfl⟩

variable {exclude : List String} {root : Path}

/-- Among alike entries the same programs are found. -/
theorem programsAmong_alike (hfaults : a.faults = b.faults)
    (below : Path → Except ProjectError (List Path)) {xs ys : List DirectoryEntry}
    (h : List.Forall₂ DirectoryEntry.Alike xs ys) :
    programsAmong a exclude below xs = programsAmong b exclude below ys := by
  induction h with
  | nil => rfl
  | @cons x y xs ys hentry _ ih =>
    have hfault : ∀ access, a.fault? y.path access = b.fault? y.path access := by
      intro access
      unfold fault?
      rw [hfaults]
    obtain ⟨hname, hpath, hnode⟩ := hentry
    rw [programsAmong, programsAmong]
    simp only [hname, hpath, hfault, ih]
    rcases hnode with hsame | ⟨hx, hy⟩
    · rw [hsame]
    · cases hfirst : x.node with
      | directory | link =>
        rw [hfirst] at hx
        cases hx
      | text _ | bytes _ =>
        cases hsecond : y.node with
        | directory | link =>
          rw [hsecond] at hy
          cases hy
        | text _ | bytes _ => rfl

/-- A search finds the same programs, or fails in the same way, in two file systems that
differ in one file. -/
theorem DifferAt.programsBelow (h : a.DifferAt b key) (ha : a.WellFormed) (hb : b.WellFormed)
    (exclude : List String) (depth : Nat) (directory : Path) :
    programsBelow a exclude depth directory = programsBelow b exclude depth directory := by
  induction depth generalizing directory with
  | zero => rfl
  | succ depth ih =>
    rw [SdkMigration.programsBelow, SdkMigration.programsBelow]
    have hbelow : SdkMigration.programsBelow a exclude depth =
        SdkMigration.programsBelow b exclude depth := funext ih
    rcases h.list ha hb directory with ⟨failure, hx, hy⟩ | ⟨xs, ys, hx, hy, hentries⟩
    · rw [hx, hy]
    · rw [hx, hy, hbelow]
      exact programsAmong_alike h.faults _ hentries

/-- A run finds the same programs, or is stopped in the same way, in two file systems that
differ in one file. -/
theorem DifferAt.walk_eq (h : a.DifferAt b key) (ha : a.WellFormed) (hb : b.WellFormed)
    (exclude : List String) (root : Path) :
    SdkMigration.programsBelow a exclude (a.nodes.length + 1) root =
      SdkMigration.programsBelow b exclude (b.nodes.length + 1) root := by
  rw [(h.nodes ha hb).length_eq]
  exact h.programsBelow ha hb exclude _ root

end FileSystem

/-! ## What is told on the other files -/

/-- What is told about each path but one depends on these paths alone. -/
theorem filterMap_apart {α : Type} {f g : Path → Option α} {pathOf : α → Path}
    (hf : ∀ path found, f path = some found → pathOf found = path)
    (hg : ∀ path found, g path = some found → pathOf found = path) {paths : List Path} {p : Path}
    (h : ∀ path ∈ paths, path ≠ p → f path = g path) :
    (paths.filterMap f).filter (fun found => pathOf found ≠ p) =
      (paths.filterMap g).filter fun found => pathOf found ≠ p := by
  rw [List.filter_filterMap, List.filter_filterMap]
  refine List.filterMap_congr ?_
  intro path hpath
  by_cases hsame : path = p
  · subst hsame
    have hnone : ∀ {told : Path → Option α}, (∀ path found, told path = some found →
        pathOf found = path) → (told path).filter (fun found => pathOf found ≠ path) = none := by
      intro told htold
      cases hfound : told path with
      | none => rfl
      | some found => simp [htold path found hfound]
    rw [hnone hf, hnone hg]
  · rw [h path hpath hsame]

variable {options : ProjectOptions} {a b : FileSystem} {p root : Path} {paths : List Path}

theorem files_reportOn_apart (h : ∀ path ∈ paths, path ≠ p → a.AgreeAt b path.key) :
    (reportOn options a paths {}).files.filter (fun entry => entry.path ≠ p) =
      (reportOn options b paths {}).files.filter fun entry => entry.path ≠ p := by
  have htold : ∀ (files : FileSystem) (path : Path) (entry : FileEntry),
      FileEntry.ofResult? (migrateFile options files path).2 = some entry → entry.path = path :=
    fun files path entry hentry =>
      path_of_migrateFile (FileEntry.ofResult?_eq_some_iff.mp hentry)
  rw [files_reportOn, files_reportOn, List.nil_append]
  refine filterMap_apart (htold a) (htold b) ?_
  intro path hpath hother
  rw [(migrateFile_congr (h path hpath hother)).1]

theorem failures_reportOn_apart (h : ∀ path ∈ paths, path ≠ p → a.AgreeAt b path.key) :
    (reportOn options a paths {}).failures.filter (fun failure => failure.path ≠ p) =
      (reportOn options b paths {}).failures.filter fun failure => failure.path ≠ p := by
  have htold : ∀ (files : FileSystem) (path : Path) (failure : FileFailure),
      FileFailure.ofResult? path (migrateFile options files path).2 = some failure →
        failure.path = path :=
    fun files path failure hfailure => (FileFailure.ofResult?_eq_some_iff.mp hfailure).1
  rw [failures_reportOn, failures_reportOn, List.nil_append]
  refine filterMap_apart (htold a) (htold b) ?_
  intro path hpath hother
  rw [(migrateFile_congr (h path hpath hother)).1]

/-! ## Two runs -/

/-- Whether two runs came to the same but for one file: both failed in the same way, or both
succeeded and report the same on every other file and on the package description. -/
inductive SameApart (p : Path) :
    Except ProjectError ProjectReport → Except ProjectError ProjectReport → Prop
  | failed (error : ProjectError) : SameApart p (.error error) (.error error)
  | succeeded {x y : ProjectReport}
      (files : x.files.filter (fun entry => entry.path ≠ p) =
        y.files.filter fun entry => entry.path ≠ p)
      (failures : x.failures.filter (fun failure => failure.path ≠ p) =
        y.failures.filter fun failure => failure.path ≠ p)
      (description : x.packageUpdated = y.packageUpdated) : SameApart p (.ok x) (.ok y)

/-- Runs over two file systems that agree at all programs but one, and everywhere else, come to
the same but for this program. -/
theorem RunOver.apart (ha : RunOver options a root paths) (hb : RunOver options b root paths)
    (hagree : ∀ key, key ≠ p.key → a.AgreeAt b key)
    (hpaths : ∀ path ∈ paths, path ≠ p → path.key ≠ p.key)
    (hdescription : p.key ≠ (descriptionPath root).key) :
    SameApart p (migrateProject options a root).2 (migrateProject options b root).2 ∧
      ∀ key, key ≠ p.key → (migrateProject options a root).1.node? key =
        (migrateProject options b root).1.node? key := by
  have hothers : ∀ path ∈ paths, path ≠ p → a.AgreeAt b path.key :=
    fun path hpath hother => hagree path.key (hpaths path hpath hother)
  obtain ⟨hupdate, hupdated⟩ := updateDescription_congr options (hagree _ hdescription.symm)
  refine ⟨?_, ?_⟩
  · cases hlast : (updateDescription options b root).2 with
    | error error =>
      rw [ha.error_iff.mpr (hupdate.trans hlast), hb.error_iff.mpr hlast]
      exact .failed error
    | ok updated =>
      rw [ha.ok_iff.mpr ⟨updated, hupdate.trans hlast, rfl⟩, hb.ok_iff.mpr ⟨updated, hlast, rfl⟩]
      exact .succeeded (files_reportOn_apart hothers) (failures_reportOn_apart hothers) rfl
  · intro key hkey
    by_cases hpackage : key = (descriptionPath root).key
    · subst hpackage
      rw [ha.description.node, hb.description.node, hupdated.node]
    by_cases hprogram : ∃ path ∈ paths, path.key = key
    · obtain ⟨path, hpath, rfl⟩ := hprogram
      rw [(ha.each path hpath).node, (hb.each path hpath).node,
        (migrateFile_congr (hagree _ hkey)).2.node]
    · have hnone : ∀ path ∈ paths, path.key ≠ key := fun path hpath hsame =>
        hprogram ⟨path, hpath, hsame⟩
      rw [(ha.others key hpackage hnone).node, (hb.others key hpackage hnone).node,
        (hagree key hkey).node]

/-- Two file systems that differ only in what a program of the project says lead to the same
run but for this program, whatever becomes of it in either. -/
theorem migrates_independently (ha : a.WellFormed) (hb : b.WellFormed)
    (hdiffer : a.DifferAt b p.key) (hsource : a.IsSource options.exclude root p) :
    SameApart p (migrateProject options a root).2 (migrateProject options b root).2 ∧
      ∀ key, key ≠ p.key → (migrateProject options a root).1.node? key =
        (migrateProject options b root).1.node? key := by
  have hwalk := hdiffer.walk_eq ha hb options.exclude root
  cases hfound : programsBelow a options.exclude (a.nodes.length + 1) root with
  | error error =>
    rw [hfound] at hwalk
    rw [migrateProject_of_walk_error hfound, migrateProject_of_walk_error hwalk.symm]
    exact ⟨.failed error, hdiffer.others⟩
  | ok found =>
    rw [hfound] at hwalk
    obtain ⟨hsorted, hsources, -⟩ := sources_of_walk_ok ha hfound
    refine (migrateProject_of_walk_ok ha hfound).apart (migrateProject_of_walk_ok hb hwalk.symm)
      (fun key hkey => hdiffer.agreeAt hkey) ?_ (hsource.key_ne_description root)
    intro path hpath hother
    exact key_ne_of_sorted hsorted hpath ((hsources p).mpr hsource) hother

/-- A project with two programs, of which one is the given node. -/
private def twoPrograms (node : Node) : FileSystem :=
  (({} : FileSystem).put ⟨"/p/b.js".toList⟩
    (.text "import * as teams from \"@microsoft/teams-js\";\nteams.print();\n".toList)).put
    ⟨"/p/a.js".toList⟩ node

private theorem twoPrograms_facts :
    programsBelow (twoPrograms (.text [])) [] ((twoPrograms (.text [])).nodes.length + 1)
        ⟨"/p".toList⟩ = .ok [⟨"/p/a.js".toList⟩, ⟨"/p/b.js".toList⟩] ∧
      (migrateProject {} (twoPrograms (.text [])) ⟨"/p".toList⟩).2.map
        (fun report => (report.failures.map (·.path), report.changedFiles.map (·.path))) =
        .ok ([], [⟨"/p/b.js".toList⟩]) ∧
      (migrateProject {} (twoPrograms (.bytes [0xFF])) ⟨"/p".toList⟩).2.map
        (fun report => (report.failures.map (·.path), report.changedFiles.map (·.path))) =
        .ok ([⟨"/p/a.js".toList⟩], [⟨"/p/b.js".toList⟩]) := by
  decide +kernel

/-- A program that is no text fails alone: the other one is migrated as beside an empty one. -/
theorem twoPrograms_independent :
    ∃ x y, (migrateProject {} (twoPrograms (.text [])) ⟨"/p".toList⟩).2 = .ok x ∧
      (migrateProject {} (twoPrograms (.bytes [0xFF])) ⟨"/p".toList⟩).2 = .ok y ∧
      x.failures.map (·.path) = [] ∧ y.failures.map (·.path) = [⟨"/p/a.js".toList⟩] ∧
      x.files.filter (fun entry => entry.path ≠ ⟨"/p/a.js".toList⟩) =
        y.files.filter (fun entry => entry.path ≠ ⟨"/p/a.js".toList⟩) ∧
      (migrateProject {} (twoPrograms (.text [])) ⟨"/p".toList⟩).1.node?
          (Path.mk "/p/b.js".toList).key =
        (migrateProject {} (twoPrograms (.bytes [0xFF])) ⟨"/p".toList⟩).1.node?
          (Path.mk "/p/b.js".toList).key := by
  have hfiles : ∀ node, (twoPrograms node).WellFormed :=
    fun node => (FileSystem.WellFormed.empty.put _ _).put _ _
  obtain ⟨hfound, hx, hy⟩ := twoPrograms_facts
  obtain ⟨x, hx, hxfound⟩ := map_eq_ok_iff.mp hx
  obtain ⟨y, hy, hyfound⟩ := map_eq_ok_iff.mp hy
  have hsource : (twoPrograms (.text [])).IsSource ({} : ProjectOptions).exclude ⟨"/p".toList⟩
      ⟨"/p/a.js".toList⟩ := by
    have hwalk := (hfiles (.text [])).walk_gives [] ⟨"/p".toList⟩
    rw [hfound] at hwalk
    cases hwalk with
    | found hsources => exact (hsources _).mp (.head _)
  have hdiffer : (twoPrograms (.text [])).DifferAt (twoPrograms (.bytes [0xFF]))
      (Path.mk "/p/a.js".toList).key := FileSystem.differAt_put _ _ rfl rfl
  obtain ⟨hsame, hnodes⟩ := migrates_independently (hfiles _) (hfiles _) hdiffer hsource
  rw [hx, hy] at hsame
  cases hsame with
  | succeeded hentries _ _ =>
    exact ⟨x, y, hx, hy, (Prod.mk.inj hxfound).1, (Prod.mk.inj hyfound).1, hentries,
      hnodes _ (by decide)⟩

end SdkMigration
