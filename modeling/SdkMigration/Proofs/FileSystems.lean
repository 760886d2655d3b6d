import SdkMigration.Project.FileSystem

/-!
# What a write leaves alone

A file is told by the key of its path.  A write puts a node at one key, so what any
other key names stays as it was (`FileSystem.Leaves`), and it is recorded.
-/

namespace SdkMigration

/-! ## Keys -/

namespace Text

/-- The parts of a text with a mark in it are those before the mark and those behind it. -/
theorem partsFrom_append (mark : Char) (current front back : Text) :
    partsFrom mark current (front ++ mark :: back) =
      partsFrom mark current front ++ partsFrom mark [] back := by
  induction front generalizing current with
  | nil => simp [partsFrom]
  | cons c rest ih =>
    rw [List.cons_append, partsFrom, partsFrom]
    split
    · rw [ih, List.cons_append]
    · exact ih (c :: current)

theorem partsFrom_of_notMem {mark : Char} {text : Text} (h : mark ∉ text) (current : Text) :
    partsFrom mark current text = [current.reverse ++ text] := by
  induction text generalizing current with
  | nil => simp [partsFrom]
  | cons c rest ih =>
    obtain ⟨hne, hrest⟩ := List.ne_and_not_mem_of_not_mem_cons h
    rw [partsFrom, if_neg (Ne.symm hne), ih hrest]
    simp

theorem parts_of_notMem {mark : Char} {text : Text} (h : mark ∉ text) :
    text.parts mark = [text] :=
  partsFrom_of_notMem h []

end Text

namespace Path

/-- Whether a text is a name that a component can have. -/
structure IsName (name : Text) : Prop where
  noSlash : '/' ∉ name
  counts : component? name = some (.name name)

theorem isName_iff (name : Text) :
    IsName name ↔ '/' ∉ name ∧ name ≠ [] ∧ name ≠ ['.'] ∧ name ≠ ['.', '.'] := by
  constructor
  · rintro ⟨hslash, hcounts⟩
    unfold component? at hcounts
    refine ⟨hslash, ?_, ?_, ?_⟩ <;> rintro rfl <;> simp at hcounts
  · rintro ⟨hslash, hempty, hdot, hdots⟩
    exact ⟨hslash, by simp [component?, hempty, hdot, hdots]⟩

instance (name : Text) : Decidable (IsName name) := decidable_of_iff _ (isName_iff name).symm

theorem fileName_eq_of_key {a b : Path} (h : a.key = b.key) : a.fileName = b.fileName := by
  unfold fileName
  rw [h]

/-- What stands behind a slash adds its components, unless the slash comes first. -/
theorem key_append {front : Text} (hfront : front ≠ []) (back : Text) :
    (⟨front ++ '/' :: back⟩ : Path).key =
      (⟨front⟩ : Path).key ++ (back.parts '/').filterMap component? := by
  have hsome : front.parts '/' ≠ [] := Text.partsFrom_ne_nil '/' [] front
  obtain ⟨part, others, hfirst⟩ := List.exists_cons_of_ne_nil hsome
  have hparts : (front ++ '/' :: back).parts '/' = part :: (others ++ back.parts '/') := by
    rw [← List.cons_append, ← hfirst]
    exact Text.partsFrom_append '/' [] front back
  obtain ⟨c, rest, rfl⟩ := List.exists_cons_of_ne_nil hfront
  rw [List.cons_append] at hparts ⊢
  unfold key isAbsolute
  simp only [hparts, hfirst, List.head?_cons, List.append_assoc, ← List.filterMap_append,
    List.cons_append]

theorem key_of_isName {name : Text} (h : IsName name) : (⟨name⟩ : Path).key = [.name name] := by
  obtain ⟨-, hempty, hdot, -⟩ := (isName_iff name).mp h
  obtain ⟨c, rest, rfl⟩ := List.exists_cons_of_ne_nil hempty
  have hslash : c ≠ '/' := (List.ne_and_not_mem_of_not_mem_cons h.noSlash).1.symm
  unfold key isAbsolute
  rw [Text.parts_of_notMem h.noSlash]
  simp [hslash, hdot, h.counts]

/-- A path made of the one of a directory and a name leads one component further. -/
theorem key_join (directory : Path) {name : Text} (h : IsName name) :
    (directory.join name).key = directory.key ++ [.name name] := by
  have hbehind : (name.parts '/').filterMap component? = [.name name] := by
    rw [Text.parts_of_notMem h.noSlash]
    simp [h.counts]
  have hstart : name.head? ≠ some '/' := fun hhead => h.noSlash (List.mem_of_head? hhead)
  obtain ⟨written⟩ := directory
  unfold join
  by_cases hempty : written = []
  · subst hempty
    rw [if_pos (Or.inr rfl), key_of_isName h]
    rfl
  · rw [if_neg (by simp [hstart, hempty])]
    split
    · rename_i hend
      obtain ⟨front, rfl⟩ := List.getLast?_eq_some_iff.mp hend
      rw [List.append_assoc, List.singleton_append]
      by_cases hfront : front = []
      · subst hfront
        have hroot : (⟨'/' :: name⟩ : Path).key =
            .root :: (name.parts '/').filterMap component? := rfl
        rw [List.nil_append, hroot, hbehind]
        rfl
      · have hslash : (Text.parts '/' []).filterMap component? = [] := rfl
        rw [key_append hfront, key_append hfront, hbehind, hslash, List.append_nil]
    · rw [key_append hempty, hbehind]

/-- A path made of the one of a directory and a name leads to something of that name. -/
theorem fileName_join (directory : Path) {name : Text} (h : IsName name) :
    (directory.join name).fileName = name := by
  unfold fileName
  rw [key_join directory h, List.getLast?_concat]

end Path

namespace FileSystem

/-- A node that is put at one key is met at no other. -/
theorem lookup_putNode {key other : PathKey} (node : Node) (nodes : List (PathKey × Node))
    (h : key ≠ other) : (putNode key node nodes).lookup other = nodes.lookup other := by
  have hmiss : (other == key) = false := beq_eq_false_iff_ne.mpr (Ne.symm h)
  induction nodes with
  | nil => simp [putNode, List.lookup_cons, hmiss]
  | cons entry rest ih =>
    obtain ⟨found, old⟩ := entry
    unfold putNode
    split
    · rename_i hsame
      subst hsame
      simp [List.lookup_cons, hmiss]
    · split
      · simp [List.lookup_cons, hmiss]
      · simp [List.lookup_cons, ih]

/-- A node that is put at a key is met there. -/
theorem lookup_putNode_self (key : PathKey) (node : Node) (nodes : List (PathKey × Node)) :
    (putNode key node nodes).lookup key = some node := by
  induction nodes with
  | nil => simp [putNode]
  | cons entry rest ih =>
    obtain ⟨found, old⟩ := entry
    unfold putNode
    split
    · simp
    · split
      · simp
      · rename_i hne hafter
        have hmiss : (key == found) = false := beq_eq_false_iff_ne.mpr (Ne.symm hne)
        simp [List.lookup_cons, hmiss, ih]

/-- Whether a path names the same as before, and nothing has been written to what it
names. -/
structure Leaves (path : Path) (before after : FileSystem) : Prop where
  content : after.readText path = before.readText path
  written : ∃ writes, after.written = before.written ++ writes ∧
    ∀ write ∈ writes, write.1.key ≠ path.key

namespace Leaves

variable {path : Path} {a b c : FileSystem}

theorem refl (path : Path) (files : FileSystem) : Leaves path files files :=
  ⟨rfl, [], (List.append_nil _).symm, by simp⟩

theorem trans (hab : Leaves path a b) (hbc : Leaves path b c) : Leaves path a c := by
  obtain ⟨first, hfirst, hfirstKeys⟩ := hab.written
  obtain ⟨second, hsecond, hsecondKeys⟩ := hbc.written
  refine ⟨hbc.content.trans hab.content, first ++ second, ?_, ?_⟩
  · rw [hsecond, hfirst, List.append_assoc]
  · exact List.forall_mem_append.mpr ⟨hfirstKeys, hsecondKeys⟩

end Leaves

/-- A write to something else leaves a path alone. -/
theorem leaves_of_writeText {files after : FileSystem} {path other : Path} {content : Text}
    (h : files.writeText other content = .ok after) (hne : other.key ≠ path.key) :
    Leaves path files after := by
  unfold writeText at h
  split at h
  · cases h
  · obtain rfl := Except.ok.inj h
    refine ⟨?_, [(other, content)], rfl, by simpa using hne⟩
    unfold readText node? fault?
    simp only [lookup_putNode _ files.nodes hne]

/-- Two paths of one key lead to the same text. -/
theorem readText_unique {files : FileSystem} {a b : Path} {text other : Text}
    (hkey : a.key = b.key) (ha : files.readText a = .ok text)
    (hb : files.readText b = .ok other) : text = other := by
  unfold readText at ha hb
  rw [hkey] at ha
  split at ha
  · cases ha
  · split at hb
    · cases hb
    · rw [ha] at hb
      exact Except.ok.inj hb

end FileSystem

end SdkMigration
