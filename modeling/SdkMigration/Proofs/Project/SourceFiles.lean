import Mathlib.Logic.Relation
import SdkMigration.Proofs.Project.WellFormed

/-!
# The programs of a project

Which files a run migrates is told by what the file system holds (`FileSystem.IsSource`): a
program lies in a directory that is reached from the root through directories that can be
listed and are not passed over.  The search for the programs finds exactly these, each once,
unless a directory that is reached cannot be listed and access to it is not refused
(`FileSystem.WalkGives`).

The bound on how deep the search goes is never met: every directory that it enters is
nearer to the deepest node than the one before (`FileSystem.deeper`).
-/

namespace SdkMigration

/-- Whether a node is a file, of text or of other bytes. -/
def Node.isFile : Node → Bool
  | .text _ | .bytes _ => true
  | .directory | .link => false

namespace FileSystem

/-! ## What a search meets -/

/-- Whether a directory holds an entry. -/
structure Holds (files : FileSystem) (directory : Path) (entry : DirectoryEntry) : Prop where
  named : Path.IsName entry.name
  path : entry.path = directory.join entry.name
  node : files.node? entry.path.key = some entry.node

/-- Whether a search meets an entry: it can be read and asked what it is, and its name is not
excluded. -/
structure Meets (files : FileSystem) (exclude : List String) (entry : DirectoryEntry) : Prop where
  readable : files.fault? entry.path .entry = none
  typed : files.fault? entry.path .entryType = none
  kept : String.ofList entry.name ∉ exclude

/-- Whether a search goes on into an entry. -/
structure Enters (files : FileSystem) (exclude : List String) (entry : DirectoryEntry) : Prop
    extends files.Meets exclude entry where
  directory : entry.node = .directory
  notSkipped : isSkippedDirectory entry.name = false

/-- Whether a search takes an entry for a program. -/
structure Takes (files : FileSystem) (exclude : List String) (entry : DirectoryEntry) : Prop
    extends files.Meets exclude entry where
  file : entry.node.isFile = true
  migratable : (MediaType.ofFileName entry.path.fileName).isMigratable = true

/-- Whether a directory can be listed. -/
def Lists (files : FileSystem) (directory : Path) : Prop :=
  ∃ entries, files.list directory = .ok entries

/-- Whether access to a directory is refused when it is to be listed. -/
def Refuses (files : FileSystem) (directory : Path) : Prop :=
  ∃ failure, files.list directory = .error failure ∧ failure.kind = .permissionDenied

/-- Whether a directory leads a search into one that it holds. -/
def Opens (files : FileSystem) (exclude : List String) (directory below : Path) : Prop :=
  files.Lists directory ∧
    ∃ entry, files.Holds directory entry ∧ files.Enters exclude entry ∧ entry.path = below

/-- Whether a search from a root comes to a directory. -/
def Reaches (files : FileSystem) (exclude : List String) : Path → Path → Prop :=
  Relation.ReflTransGen (files.Opens exclude)

/-- Whether a path is the one of a program below a root: a file of the right type with a name
that is not excluded, in a directory that can be listed and is reached from the root. -/
def IsSource (files : FileSystem) (exclude : List String) (root path : Path) : Prop :=
  ∃ directory entry, files.Reaches exclude root directory ∧ files.Lists directory ∧
    files.Holds directory entry ∧ files.Takes exclude entry ∧ entry.path = path

variable {files : FileSystem} {exclude : List String} {root directory path : Path}
  {entries : List DirectoryEntry}

theorem Holds.key_eq {entry : DirectoryEntry} (h : files.Holds directory entry) :
    entry.path.key = directory.key ++ [.name entry.name] := by
  rw [h.path, Path.key_join directory h.named]

theorem WellFormed.mem_list_iff_holds (h : files.WellFormed)
    (hlist : files.list directory = .ok entries) {entry : DirectoryEntry} :
    entry ∈ entries ↔ files.Holds directory entry := by
  rw [h.mem_list hlist]
  exact ⟨fun ⟨hname, hpath, hnode⟩ => ⟨hname, hpath, hnode⟩,
    fun ⟨hname, hpath, hnode⟩ => ⟨hname, hpath, hnode⟩⟩

theorem Reaches.isPrefix_key (h : files.Reaches exclude root directory) :
    root.key <+: directory.key := by
  induction h with
  | refl => exact List.prefix_rfl
  | tail _ hopens ih =>
    obtain ⟨-, entry, hholds, -, rfl⟩ := hopens
    rw [hholds.key_eq]
    exact ih.trans (List.prefix_append _ _)

theorem IsSource.isPrefix_key (h : files.IsSource exclude root path) : root.key <+: path.key := by
  obtain ⟨directory, entry, hreaches, -, hholds, -, rfl⟩ := h
  rw [hholds.key_eq]
  exact hreaches.isPrefix_key.trans (List.prefix_append _ _)

/-- A directory that is reached is the root or lies behind one that it leads into. -/
theorem reaches_iff (hlist : files.list root = .ok entries) (h : files.WellFormed) :
    files.Reaches exclude root directory ↔ root = directory ∨
      ∃ entry ∈ entries, files.Enters exclude entry ∧
        files.Reaches exclude entry.path directory := by
  unfold Reaches
  rw [Relation.ReflTransGen.cases_head_iff]
  refine or_congr_right ⟨?_, ?_⟩
  · rintro ⟨below, ⟨-, entry, hholds, henters, rfl⟩, hrest⟩
    exact ⟨entry, (h.mem_list_iff_holds hlist).mpr hholds, henters, hrest⟩
  · rintro ⟨entry, hentry, henters, hrest⟩
    exact ⟨entry.path,
      ⟨⟨entries, hlist⟩, entry, (h.mem_list_iff_holds hlist).mp hentry, henters, rfl⟩, hrest⟩

/-- Whether a search finds a path at an entry or below it. -/
def FindsAt (files : FileSystem) (exclude : List String) (entry : DirectoryEntry)
    (path : Path) : Prop :=
  files.Takes exclude entry ∧ entry.path = path ∨
    files.Enters exclude entry ∧ files.IsSource exclude entry.path path

theorem isSource_iff (hlist : files.list root = .ok entries) (h : files.WellFormed) :
    files.IsSource exclude root path ↔ ∃ entry ∈ entries, files.FindsAt exclude entry path := by
  constructor
  · rintro ⟨directory, entry, hreaches, hlists, hholds, htakes, hpath⟩
    rcases (reaches_iff hlist h).mp hreaches with rfl | ⟨first, hfirst, henters, hrest⟩
    · exact ⟨entry, (h.mem_list_iff_holds hlist).mpr hholds, Or.inl ⟨htakes, hpath⟩⟩
    · exact ⟨first, hfirst, Or.inr ⟨henters, directory, entry, hrest, hlists, hholds, htakes,
        hpath⟩⟩
  · rintro ⟨entry, hentry, ⟨htakes, hpath⟩ | ⟨henters, hsource⟩⟩
    · exact ⟨root, entry, .refl, ⟨entries, hlist⟩, (h.mem_list_iff_holds hlist).mp hentry, htakes,
        hpath⟩
    · obtain ⟨directory, last, hreaches, hlists, hholds, htakes, hpath⟩ := hsource
      exact ⟨directory, last, (reaches_iff hlist h).mpr (Or.inr ⟨entry, hentry, henters, hreaches⟩),
        hlists, hholds, htakes, hpath⟩

/-- Nothing lies behind a root that cannot be listed. -/
theorem Reaches.eq_of_not_lists (h : files.Reaches exclude root directory)
    (hroot : ¬files.Lists root) : root = directory := by
  rcases Relation.ReflTransGen.cases_head h with hsame | ⟨below, ⟨hlists, -⟩, -⟩
  · exact hsame
  · exact absurd hlists hroot

theorem not_isSource_of_not_lists (hroot : ¬files.Lists root) :
    ¬files.IsSource exclude root path := by
  rintro ⟨directory, entry, hreaches, hlists, -⟩
  rw [← hreaches.eq_of_not_lists hroot] at hlists
  exact hroot hlists

/-! ## The search among the entries of a directory -/

variable {below : Path → Except ProjectError (List Path)}

theorem meets_iff {entry : DirectoryEntry} :
    files.Meets exclude entry ↔ ((files.fault? entry.path .entry).isSome ||
      exclude.contains (String.ofList entry.name) ||
      (files.fault? entry.path .entryType).isSome) = false := by
  simp only [Bool.or_eq_false_iff, Option.isSome_eq_false_iff, Option.isNone_iff_eq_none,
    List.contains_eq_mem, decide_eq_false_iff_not]
  exact ⟨fun h => ⟨⟨h.readable, h.kept⟩, h.typed⟩, fun h => ⟨h.1.1, h.2, h.1.2⟩⟩

theorem Enters.not_takes {entry : DirectoryEntry} (h : files.Enters exclude entry) :
    ¬files.Takes exclude entry := by
  intro htakes
  have hfile := htakes.file
  rw [h.directory] at hfile
  cases hfile

/-- A search goes on into an entry, or takes it, or passes it over. -/
theorem programsAmong_cons (entry : DirectoryEntry) (entries : List DirectoryEntry) :
    files.Enters exclude entry ∧
        programsAmong files exclude below (entry :: entries) = (do
          let found ← below entry.path
          let others ← programsAmong files exclude below entries
          return found ++ others) ∨
      files.Takes exclude entry ∧
        programsAmong files exclude below (entry :: entries) = (do
          let others ← programsAmong files exclude below entries
          return entry.path :: others) ∨
      (¬files.Enters exclude entry ∧ ¬files.Takes exclude entry) ∧
        programsAmong files exclude below (entry :: entries) =
          programsAmong files exclude below entries := by
  have hnothing : (do
      let others ← programsAmong files exclude below entries
      return [] ++ others) = programsAmong files exclude below entries := by
    cases programsAmong files exclude below entries <;> rfl
  rw [programsAmong]
  simp only [pure_bind, hnothing]
  by_cases hmeets : files.Meets exclude entry
  · rw [if_neg (by rw [meets_iff.mp hmeets]; exact Bool.false_ne_true)]
    cases hnode : entry.node with
    | directory =>
      have hfile : ¬files.Takes exclude entry := fun h => by simpa [hnode, Node.isFile] using h.file
      cases hskipped : isSkippedDirectory entry.name with
      | true =>
        refine Or.inr (Or.inr ⟨⟨?_, hfile⟩, rfl⟩)
        intro h
        simpa [hskipped] using h.notSkipped
      | false => exact Or.inl ⟨⟨hmeets, hnode, hskipped⟩, rfl⟩
    | text content | bytes content =>
      have hdirectory : ¬files.Enters exclude entry := fun h => by simpa [hnode] using h.directory
      have hfile : entry.node.isFile = true := by simp [hnode, Node.isFile]
      by_cases hmigratable : (MediaType.ofFileName entry.path.fileName).isMigratable = true
      · simp only [if_pos hmigratable]
        exact Or.inr (Or.inl ⟨⟨hmeets, hfile, hmigratable⟩, rfl⟩)
      · simp only [if_neg hmigratable]
        exact Or.inr (Or.inr ⟨⟨hdirectory, fun h => hmigratable h.migratable⟩, hnothing⟩)
    | link =>
      refine Or.inr (Or.inr ⟨⟨?_, ?_⟩, rfl⟩)
      · intro h
        simpa [hnode] using h.directory
      · intro h
        simpa [hnode, Node.isFile] using h.file
  · rw [if_pos (Bool.eq_true_of_not_eq_false (mt meets_iff.mpr hmeets))]
    exact Or.inr (Or.inr ⟨⟨fun h => hmeets h.toMeets, fun h => hmeets h.toMeets⟩, rfl⟩)

/-- What a search gives at an entry, `below` finding the programs in a directory. -/
inductive Gives (files : FileSystem) (exclude : List String)
    (below : Path → Except ProjectError (List Path)) (entry : DirectoryEntry) :
    List Path → Prop
  | inside {found : List Path} (enters : files.Enters exclude entry)
      (within : below entry.path = .ok found) : Gives files exclude below entry found
  | itself (takes : files.Takes exclude entry) : Gives files exclude below entry [entry.path]
  | nothing (notEntered : ¬files.Enters exclude entry) (notTaken : ¬files.Takes exclude entry) :
      Gives files exclude below entry []

theorem programsAmong_cons_ok {entry : DirectoryEntry} {found : List Path}
    (h : programsAmong files exclude below (entry :: entries) = .ok found) :
    ∃ first others, files.Gives exclude below entry first ∧
      programsAmong files exclude below entries = .ok others ∧ found = first ++ others := by
  rcases programsAmong_cons entry entries with ⟨henters, heq⟩ | ⟨htakes, heq⟩ | ⟨hneither, heq⟩
  · rw [heq] at h
    cases hfirst : below entry.path with
    | error error => rw [hfirst] at h; cases h
    | ok first =>
      cases hothers : programsAmong files exclude below entries with
      | error error => rw [hfirst, hothers] at h; cases h
      | ok others =>
        rw [hfirst, hothers] at h
        exact ⟨first, others, .inside henters hfirst, rfl, (Except.ok.inj h).symm⟩
  · rw [heq] at h
    cases hothers : programsAmong files exclude below entries with
    | error error => rw [hothers] at h; cases h
    | ok others =>
      rw [hothers] at h
      exact ⟨[entry.path], others, .itself htakes, rfl, (Except.ok.inj h).symm⟩
  · exact ⟨[], found, .nothing hneither.1 hneither.2, heq ▸ h, rfl⟩

/-- A search fails only in a directory that it goes into. -/
theorem programsAmong_error {error : ProjectError}
    (h : programsAmong files exclude below entries = .error error) :
    ∃ entry ∈ entries, files.Enters exclude entry ∧ below entry.path = .error error := by
  induction entries with
  | nil => cases h
  | cons entry rest ih =>
    have hlater : programsAmong files exclude below rest = .error error →
        ∃ other ∈ entry :: rest, files.Enters exclude other ∧ below other.path = .error error := by
      intro hrest
      obtain ⟨other, hother, hfailed⟩ := ih hrest
      exact ⟨other, .tail entry hother, hfailed⟩
    rcases programsAmong_cons entry rest with ⟨henters, heq⟩ | ⟨htakes, heq⟩ | ⟨hneither, heq⟩
    · rw [heq] at h
      cases hfirst : below entry.path with
      | error failure =>
        rw [hfirst] at h
        exact ⟨entry, .head rest, henters, hfirst.trans (congrArg _ (Except.error.inj h))⟩
      | ok first =>
        apply hlater
        rw [hfirst] at h
        cases hothers : programsAmong files exclude below rest with
        | error failure => rw [hothers] at h; exact congrArg _ (Except.error.inj h)
        | ok others => rw [hothers] at h; cases h
    · apply hlater
      rw [heq] at h
      cases hothers : programsAmong files exclude below rest with
      | error failure => rw [hothers] at h; exact congrArg _ (Except.error.inj h)
      | ok others => rw [hothers] at h; cases h
    · exact hlater (heq ▸ h)

/-! ## The search below a directory -/

/-- What a search below a root gives: all programs there, each once, if every directory that
is reached can be listed or refuses access, and otherwise the failure of one that is reached
and cannot be listed. -/
inductive WalkGives (files : FileSystem) (exclude : List String) (root : Path) :
    Except ProjectError (List Path) → Prop
  | found {paths : List Path} (sources : ∀ path, path ∈ paths ↔ files.IsSource exclude root path)
      (distinct : paths.Pairwise fun a b => a.key ≠ b.key)
      (listed : ∀ directory, files.Reaches exclude root directory →
        files.Lists directory ∨ files.Refuses directory) :
      WalkGives files exclude root (.ok paths)
  | failed {directory : Path} {failure : Failure} (reached : files.Reaches exclude root directory)
      (fails : files.list directory = .error failure) (notRefused : failure.kind ≠ .permissionDenied) :
      WalkGives files exclude root (.error (.unreadable directory failure))

theorem Gives.mem_iff {entry : DirectoryEntry} {first : List Path}
    (h : files.Gives exclude below entry first)
    (hbelow : files.Enters exclude entry → files.WalkGives exclude entry.path (below entry.path)) :
    path ∈ first ↔ files.FindsAt exclude entry path := by
  cases h with
  | inside henters hwithin =>
    have hwalk := hbelow henters
    rw [hwithin] at hwalk
    cases hwalk with
    | found hsources =>
      rw [hsources]
      exact ⟨fun h => Or.inr ⟨henters, h⟩, fun h => (h.resolve_left fun h => henters.not_takes h.1).2⟩
  | itself htakes =>
    rw [List.mem_singleton]
    constructor
    · rintro rfl
      exact Or.inl ⟨htakes, rfl⟩
    · rintro (⟨-, rfl⟩ | ⟨henters, -⟩)
      · rfl
      · exact absurd htakes henters.not_takes
  | nothing hnotEntered hnotTaken =>
    constructor
    · exact nofun
    · rintro (⟨htakes, -⟩ | ⟨henters, -⟩)
      · exact absurd htakes hnotTaken
      · exact absurd henters hnotEntered

theorem FindsAt.isPrefix_key {entry : DirectoryEntry} (h : files.FindsAt exclude entry path) :
    entry.path.key <+: path.key := by
  rcases h with ⟨-, rfl⟩ | ⟨-, hsource⟩
  · exact List.prefix_rfl
  · exact hsource.isPrefix_key

section Among

variable {found : List Path}

theorem mem_programsAmong (h : programsAmong files exclude below entries = .ok found)
    (hbelow : ∀ entry ∈ entries, files.Enters exclude entry →
      files.WalkGives exclude entry.path (below entry.path)) :
    path ∈ found ↔ ∃ entry ∈ entries, files.FindsAt exclude entry path := by
  induction entries generalizing found with
  | nil =>
    obtain rfl := Except.ok.inj h
    simp
  | cons entry rest ih =>
    obtain ⟨first, others, hfirst, hothers, rfl⟩ := programsAmong_cons_ok h
    rw [List.mem_append, hfirst.mem_iff (hbelow entry (.head rest)),
      ih hothers fun other hother => hbelow other (.tail entry hother)]
    simp

/-- Two entries of a directory lead to different programs. -/
theorem programsAmong_distinct (h : programsAmong files exclude below entries = .ok found)
    (hbelow : ∀ entry ∈ entries, files.Enters exclude entry →
      files.WalkGives exclude entry.path (below entry.path))
    (hholds : ∀ entry ∈ entries, files.Holds directory entry)
    (hentries : entries.Pairwise fun a b => a.path.key ≠ b.path.key) :
    found.Pairwise fun a b => a.key ≠ b.key := by
  induction entries generalizing found with
  | nil =>
    obtain rfl := Except.ok.inj h
    exact .nil
  | cons entry rest ih =>
    obtain ⟨first, others, hfirst, hothers, rfl⟩ := programsAmong_cons_ok h
    obtain ⟨hnew, hrest⟩ := List.pairwise_cons.mp hentries
    have hbelowRest : ∀ other ∈ rest, files.Enters exclude other →
        files.WalkGives exclude other.path (below other.path) :=
      fun other hother => hbelow other (.tail entry hother)
    refine List.pairwise_append.mpr ⟨?_, ?_, ?_⟩
    · cases hfirst with
      | inside henters hwithin =>
        have hwalk := hbelow entry (.head rest) henters
        rw [hwithin] at hwalk
        cases hwalk with
        | found _ hdistinct => exact hdistinct
      | itself => exact List.pairwise_singleton _ _
      | nothing => exact .nil
    · exact ih hothers hbelowRest (fun other hother => hholds other (.tail entry hother)) hrest
    · intro a ha b hb hkeys
      have hfront := ((hfirst.mem_iff (hbelow entry (.head rest))).mp ha).isPrefix_key
      obtain ⟨other, hother, hfinds⟩ := (mem_programsAmong hothers hbelowRest).mp hb
      have hback := hfinds.isPrefix_key
      rw [← hkeys] at hback
      have hlength : entry.path.key.length = other.path.key.length := by
        rw [(hholds entry (.head rest)).key_eq, (hholds other (.tail entry hother)).key_eq]
        simp
      exact hnew other hother (List.prefix_of_prefix_length_le hfront hback hlength.le |>.eq_of_length
        hlength)

theorem programsAmong_entered (h : programsAmong files exclude below entries = .ok found) :
    ∀ entry ∈ entries, files.Enters exclude entry → ∃ part, below entry.path = .ok part := by
  induction entries generalizing found with
  | nil => exact nofun
  | cons entry rest ih =>
    obtain ⟨first, others, hfirst, hothers, -⟩ := programsAmong_cons_ok h
    intro other hother henters
    rcases List.mem_cons.mp hother with rfl | hother
    · cases hfirst with
      | inside _ hwithin => exact ⟨first, hwithin⟩
      | itself htakes => exact absurd htakes henters.not_takes
      | nothing hnotEntered => exact absurd henters hnotEntered
    · exact ih hothers other hother henters

end Among

/-- How many nodes lie deeper than a directory. -/
def deeper (files : FileSystem) (directory : Path) : Nat :=
  files.nodes.countP fun node => decide (directory.key.length < node.1.length)

/-- Fewer nodes lie deeper than what a directory holds than lie deeper than the directory. -/
theorem WellFormed.deeper_lt (h : files.WellFormed) {entry : DirectoryEntry}
    (hholds : files.Holds directory entry) : files.deeper entry.path < files.deeper directory := by
  have hlength : entry.path.key.length = directory.key.length + 1 := by
    rw [hholds.key_eq]
    simp
  obtain ⟨front, back, hnodes⟩ := List.append_of_mem (h.node?_eq_some_iff.mp hholds.node)
  have hmono : ∀ nodes : List (PathKey × Node),
      nodes.countP (fun node => decide (entry.path.key.length < node.1.length)) ≤
        nodes.countP fun node => decide (directory.key.length < node.1.length) := by
    intro nodes
    apply List.countP_mono_left
    intro node _ hdeep
    rw [decide_eq_true_eq] at hdeep ⊢
    omega
  have hfront := hmono front
  have hback := hmono back
  unfold deeper
  rw [hnodes, List.countP_append, List.countP_append, List.countP_cons_of_neg (by simp),
    List.countP_cons_of_pos (by simp [hlength])]
  omega

/-- The search below a directory gives what lies there, if its bound is large enough. -/
theorem WellFormed.programsBelow_gives (h : files.WellFormed) {depth : Nat}
    (hdepth : files.deeper directory < depth) :
    files.WalkGives exclude directory (programsBelow files exclude depth directory) := by
  induction depth generalizing directory with
  | zero => omega
  | succ depth ih =>
    rw [programsBelow]
    cases hlist : files.list directory with
    | error failure =>
      have hlists : ¬files.Lists directory := by
        rintro ⟨entries, hentries⟩
        rw [hlist] at hentries
        cases hentries
      by_cases hkind : failure.kind = .permissionDenied
      · simp only [if_pos hkind]
        refine .found ?_ .nil ?_
        · intro path
          exact ⟨nofun, fun hsource => absurd hsource (not_isSource_of_not_lists hlists)⟩
        · intro below hreaches
          rw [← hreaches.eq_of_not_lists hlists]
          exact Or.inr ⟨failure, hlist, hkind⟩
      · simp only [if_neg hkind]
        exact .failed .refl hlist hkind
    | ok entries =>
      have hholds : ∀ entry ∈ entries, files.Holds directory entry :=
        fun entry hentry => (h.mem_list_iff_holds hlist).mp hentry
      have hbelow : ∀ entry ∈ entries, files.Enters exclude entry →
          files.WalkGives exclude entry.path (programsBelow files exclude depth entry.path) := by
        intro entry hentry _
        have hless := h.deeper_lt (hholds entry hentry)
        exact ih (by omega)
      simp only
      cases hamong : programsAmong files exclude (programsBelow files exclude depth) entries with
      | ok found =>
        refine .found ?_ (programsAmong_distinct hamong hbelow hholds (h.list_distinct hlist)) ?_
        · intro path
          rw [mem_programsAmong hamong hbelow, isSource_iff hlist h]
        · intro below hreaches
          rcases (reaches_iff hlist h).mp hreaches with rfl | ⟨entry, hentry, henters, hrest⟩
          · exact Or.inl ⟨entries, hlist⟩
          · obtain ⟨part, hpart⟩ := programsAmong_entered hamong entry hentry henters
            have hwalk := hbelow entry hentry henters
            rw [hpart] at hwalk
            cases hwalk with
            | found _ _ hlisted => exact hlisted below hrest
      | error error =>
        obtain ⟨entry, hentry, henters, hfailed⟩ := programsAmong_error hamong
        have hwalk := hbelow entry hentry henters
        rw [hfailed] at hwalk
        cases hwalk with
        | failed hreached hfails hkind =>
          exact .failed ((reaches_iff hlist h).mpr (Or.inr ⟨entry, hentry, henters, hreached⟩))
            hfails hkind

/-- The bound of the search of a project is large enough. -/
theorem WellFormed.walk_gives (h : files.WellFormed) (exclude : List String) (root : Path) :
    files.WalkGives exclude root (programsBelow files exclude (files.nodes.length + 1) root) :=
  h.programsBelow_gives (Nat.lt_succ_of_le List.countP_le_length)

end FileSystem

end SdkMigration
