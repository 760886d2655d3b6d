import SdkMigration.Proofs.FileSystems
import SdkMigration.Proofs.Project.PathOrder

/-!
# File systems in good order

The nodes of a file system are kept in the order of their keys, and the names in the keys
are such as a path can have (`FileSystem.WellFormed`).  Everything that changes a file
system keeps both.  In such a file system a node is met exactly at its key, and a directory
lists each of its children once.
-/

namespace SdkMigration

/-! ## Names in keys -/

/-- The names in the key of a path are names. -/
theorem Path.isName_of_mem_key {path : Path} {name : Text} (h : .name name ∈ path.key) :
    IsName name := by
  have hpart : ∃ part ∈ path.written.parts '/', component? part = some (.name name) := by
    unfold key at h
    rcases List.mem_append.mp h with hstart | hparts
    · split at hstart
      · simp at hstart
      · split at hstart <;> simp at hstart
    · exact List.mem_filterMap.mp hparts
  obtain ⟨part, hmem, hcounts⟩ := hpart
  have hsame : part = name := by
    unfold component? at hcounts
    split at hcounts
    · cases hcounts
    · split at hcounts
      · cases hcounts
      · exact Component.name.inj (Option.some.inj hcounts)
  subst hsame
  exact ⟨Text.mark_notMem_part List.not_mem_nil hmem, hcounts⟩

namespace FileSystem

/-! ## Nodes in order -/

/-- Whether the nodes are in the order of their keys, and the names in them are names. -/
structure WellFormed (files : FileSystem) : Prop where
  ordered : files.nodes.Pairwise fun a b => PathKey.before a.1 b.1 = true
  named : ∀ entry ∈ files.nodes, ∀ name, .name name ∈ entry.1 → Path.IsName name

theorem mem_putNode {key : PathKey} {node : Node} {nodes : List (PathKey × Node)}
    {entry : PathKey × Node} (h : entry ∈ putNode key node nodes) :
    entry = (key, node) ∨ entry ∈ nodes := by
  fun_induction putNode key node nodes with
  | case1 => exact Or.inl (List.mem_singleton.mp h)
  | case2 old rest => exact (List.mem_cons.mp h).imp_right (.tail _)
  | case3 => exact List.mem_cons.mp h
  | case4 found old rest hne hafter ih =>
    rcases List.mem_cons.mp h with h | h
    · exact Or.inr (h ▸ .head _)
    · exact (ih h).imp_right (.tail _)

theorem putNode_ordered (key : PathKey) (node : Node) {nodes : List (PathKey × Node)}
    (h : nodes.Pairwise fun a b => PathKey.before a.1 b.1 = true) :
    (putNode key node nodes).Pairwise fun a b => PathKey.before a.1 b.1 = true := by
  fun_induction putNode key node nodes with
  | case1 => exact List.pairwise_singleton _ _
  | case2 old rest => exact List.pairwise_cons.mpr (List.pairwise_cons.mp h)
  | case3 found old rest hne hbefore =>
    obtain ⟨hfirst, hrest⟩ := List.pairwise_cons.mp h
    refine List.pairwise_cons.mpr ⟨?_, h⟩
    intro entry hentry
    rcases List.mem_cons.mp hentry with rfl | hentry
    · exact hbefore
    · exact PathKey.before_trans hbefore (hfirst entry hentry)
  | case4 found old rest hne hafter ih =>
    obtain ⟨hfirst, hrest⟩ := List.pairwise_cons.mp h
    refine List.pairwise_cons.mpr ⟨?_, ih hrest⟩
    intro entry hentry
    rcases mem_putNode hentry with rfl | hentry
    · exact PathKey.before_of_not_before (Ne.symm hne) hafter
    · exact hfirst entry hentry

namespace WellFormed

variable {files : FileSystem}

theorem empty : WellFormed {} := ⟨.nil, nofun⟩

/-- A node can be put at any key that has names for its names. -/
theorem putNode (h : files.WellFormed) {key : PathKey} (node : Node)
    (hkey : ∀ name, .name name ∈ key → Path.IsName name) :
    WellFormed { files with nodes := FileSystem.putNode key node files.nodes } := by
  refine ⟨putNode_ordered key node h.ordered, ?_⟩
  intro entry hentry
  rcases mem_putNode hentry with rfl | hentry
  · exact hkey
  · exact h.named entry hentry

theorem makeParents (h : files.WellFormed) (parent rest : PathKey)
    (hkey : ∀ name, .name name ∈ parent ++ rest → Path.IsName name) :
    (files.makeParents parent rest).WellFormed := by
  fun_induction FileSystem.makeParents files parent rest with
  | case1 => exact h
  | case2 => exact h
  | case3 files parent component rest hrest directory present made ih =>
    have hbelow : ∀ name, .name name ∈ directory ++ rest → Path.IsName name := by
      simpa [directory] using hkey
    have hdirectory : ∀ name, .name name ∈ directory → Path.IsName name :=
      fun name hname => hbelow name (List.mem_append_left rest hname)
    apply ih _ hbelow
    by_cases hpresent : present = true
    · simpa only [made, if_pos hpresent] using h
    · simpa only [made, if_neg hpresent] using h.putNode .directory hdirectory

theorem put (h : files.WellFormed) (path : Path) (node : Node) : (files.put path node).WellFormed :=
  (h.makeParents [] path.key fun _ => Path.isName_of_mem_key).putNode node
    fun _ => Path.isName_of_mem_key

theorem writeText (h : files.WellFormed) {path : Path} {content : Text} {after : FileSystem}
    (hwritten : files.writeText path content = .ok after) : after.WellFormed := by
  unfold FileSystem.writeText at hwritten
  split at hwritten
  · cases hwritten
  · rw [← Except.ok.inj hwritten]
    have hput := h.putNode (.text content) fun name (hname : .name name ∈ path.key) =>
      Path.isName_of_mem_key hname
    exact ⟨hput.ordered, hput.named⟩

theorem remove (h : files.WellFormed) (path : Path) : (files.remove path).WellFormed where
  ordered := h.ordered.filter _
  named entry hentry := h.named entry (List.mem_of_mem_filter hentry)

/-- A node is met at its key and nowhere else. -/
theorem node?_eq_some_iff (h : files.WellFormed) {key : PathKey} {node : Node} :
    files.node? key = some node ↔ (key, node) ∈ files.nodes := by
  unfold node?
  rw [List.lookup_eq_some_iff]
  constructor
  · rintro ⟨front, back, hnodes, -⟩
    rw [hnodes]
    exact List.mem_append_right front (.head back)
  · intro hmem
    obtain ⟨front, back, hnodes⟩ := List.append_of_mem hmem
    refine ⟨front, back, hnodes, ?_⟩
    intro entry hentry
    have hordered := h.ordered
    rw [hnodes] at hordered
    have hbefore := (List.pairwise_append.mp hordered).2.2 entry hentry (key, node) (.head back)
    refine bne_iff_ne.mpr ?_
    rintro rfl
    exact PathKey.before_irrefl entry.1 hbefore

end WellFormed

/-! ## Listing a directory -/

theorem childName?_eq_some_iff {directory key : PathKey} {name : Text} :
    childName? directory key = some name ↔ key = directory ++ [.name name] := by
  unfold childName?
  constructor
  · intro h
    split at h
    · rename_i hbelow
      obtain ⟨hlength, hpre⟩ := hbelow
      obtain ⟨rest, rfl⟩ := List.isPrefixOf_iff_prefix.mp hpre
      obtain ⟨last, rfl⟩ := List.length_eq_one_iff.mp (by simpa using hlength : rest.length = 1)
      rw [List.getLast?_concat] at h
      split at h
      · rename_i text hlast
        obtain rfl := Option.some.inj hlast
        rw [Option.some.inj h]
      · cases h
    · cases h
  · rintro rfl
    simp

theorem list_eq_ok {files : FileSystem} {directory : Path} {entries : List DirectoryEntry}
    (h : files.list directory = .ok entries) :
    entries = files.nodes.filterMap fun (key, node) =>
      (childName? directory.key key).map fun name => ⟨name, directory.join name, node⟩ := by
  unfold list at h
  split at h
  · cases h
  · split at h
    · exact (Except.ok.inj h).symm
    · cases h
    · cases h

namespace WellFormed

variable {files : FileSystem} {directory : Path} {entries : List DirectoryEntry}

/-- A directory lists what is met one name below it. -/
theorem mem_list (h : files.WellFormed) (hlist : files.list directory = .ok entries)
    {entry : DirectoryEntry} :
    entry ∈ entries ↔ Path.IsName entry.name ∧ entry.path = directory.join entry.name ∧
      files.node? entry.path.key = some entry.node := by
  rw [list_eq_ok hlist, List.mem_filterMap]
  constructor
  · rintro ⟨⟨key, node⟩, hnode, hentry⟩
    obtain ⟨name, hname, rfl⟩ := Option.map_eq_some_iff.mp hentry
    obtain rfl := childName?_eq_some_iff.mp hname
    have hvalid : Path.IsName name := h.named _ hnode name (by simp)
    refine ⟨hvalid, rfl, ?_⟩
    rw [Path.key_join directory hvalid, h.node?_eq_some_iff]
    exact hnode
  · rintro ⟨hvalid, hpath, hnode⟩
    refine ⟨(entry.path.key, entry.node), h.node?_eq_some_iff.mp hnode, ?_⟩
    have hname : childName? directory.key entry.path.key = some entry.name := by
      rw [hpath, Path.key_join directory hvalid, childName?_eq_some_iff]
    simp only [hname, Option.map_some, ← hpath]

/-- What a directory lists has different keys. -/
theorem list_distinct (h : files.WellFormed) (hlist : files.list directory = .ok entries) :
    entries.Pairwise fun a b => a.path.key ≠ b.path.key := by
  rw [list_eq_ok hlist, List.pairwise_filterMap]
  refine h.ordered.imp_of_mem ?_
  intro a b ha hb hbefore first hfirst second hsecond hkeys
  obtain ⟨name, hname, rfl⟩ := Option.map_eq_some_iff.mp hfirst
  obtain ⟨other, hother, rfl⟩ := Option.map_eq_some_iff.mp hsecond
  have hakey := childName?_eq_some_iff.mp hname
  have hbkey := childName?_eq_some_iff.mp hother
  have hvalid : Path.IsName name := h.named a ha name (by simp [hakey])
  have hvalid' : Path.IsName other := h.named b hb other (by simp [hbkey])
  simp only [Path.key_join directory hvalid, Path.key_join directory hvalid'] at hkeys
  rw [hakey, hbkey, hkeys] at hbefore
  exact PathKey.before_irrefl _ hbefore

end WellFormed

end FileSystem
end SdkMigration
