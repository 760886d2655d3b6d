import SdkMigration.Migration.Lookup
import Mathlib.Data.List.Basic

/-!
# What bindings learn

While references are rewritten, the bindings of a file learn: a single export
its first target and whether its old name is still needed, an alias that it
was used.  Nothing that was learned is forgotten, and what a binding stands
for never changes.

What single exports may learn is left open here.  The targets are a relation
between exported names and first names of targets.
-/

namespace SdkMigration

/-- What single exports may learn: which targets, and whether they may learn that
their old names are still needed. -/
structure Lessons where
  targets : String → String → Prop
  keeping : Prop

/-- All that single exports may learn at all. -/
def Lessons.any : Lessons := ⟨fun _ _ => True, True⟩

/-- Whether a single export has learned, its target being one that it may
learn. -/
structure NamedImport.Learns (lessons : Lessons) (before after : NamedImport) :
    Prop where
  exported : after.exported = before.exported
  renamed : after.renamed = before.renamed
  isTypeOnly : after.isTypeOnly = before.isTypeOnly
  target_kept : ∀ target, before.target = some target → after.target = some target
  target_new : ∀ target, after.target = some target →
    before.target = some target ∨ lessons.targets before.exported target
  keeps : before.keepsLocalBinding = true → after.keepsLocalBinding = true
  keeps_new : after.keepsLocalBinding = true → before.keepsLocalBinding = true ∨ lessons.keeping

/-- Whether an alias has learned. -/
structure WholeImport.Learns (before after : WholeImport) : Prop where
  name : after.name = before.name
  style : after.style = before.style
  tentative : after.tentative = before.tentative
  matched : before.matched = true → after.matched = true

/-- Whether bindings have learned, each at its index. -/
structure Bindings.Learns (lessons : Lessons) (before after : Bindings) : Prop where
  named : ∀ index : Nat,
    Option.Rel (NamedImport.Learns lessons) before.named[index]? after.named[index]?
  whole : ∀ index : Nat, Option.Rel WholeImport.Learns before.whole[index]? after.whole[index]?

/-! ## Entries -/

section Entries

variable {α : Type} {related : α → α → Prop}

private theorem rel_refl (hrefl : ∀ a, related a a) (entry : Option α) :
    Option.Rel related entry entry := by
  cases entry with
  | none => exact .none
  | some a => exact .some (hrefl a)

private theorem rel_trans (htrans : ∀ a b c, related a b → related b c → related a c)
    {a b c : Option α} (hab : Option.Rel related a b) (hbc : Option.Rel related b c) :
    Option.Rel related a c := by
  cases hab with
  | none => exact hbc
  | some hab =>
    cases hbc with
    | some hbc => exact .some (htrans _ _ _ hab hbc)

private theorem exists_of_rel {entry : Option α} {a : α} (h : Option.Rel related (some a) entry) :
    ∃ b, entry = some b ∧ related a b := by
  cases h with
  | some h => exact ⟨_, rfl, h⟩

private theorem exists_of_rel_some {entry : Option α} {b : α}
    (h : Option.Rel related entry (some b)) : ∃ a, entry = some a ∧ related a b := by
  cases h with
  | some h => exact ⟨_, rfl, h⟩

/-- What is the same in related entries gives equal lists. -/
private theorem map_eq_of_rel {β : Type} {list others : List α} {read : α → β}
    (hread : ∀ a b, related a b → read b = read a)
    (h : ∀ index : Nat, Option.Rel related list[index]? others[index]?) :
    others.map read = list.map read := by
  apply List.ext_getElem?
  intro index
  rw [List.getElem?_map, List.getElem?_map]
  have hindex := h index
  generalize list[index]? = entry at hindex
  generalize others[index]? = other at hindex
  cases hindex with
  | none => rfl
  | some hab => exact congrArg some (hread _ _ hab)

end Entries

theorem Bindings.getElem?_changeAt {α : Type} (change : α → α) (index other : Nat)
    (list : List α) :
    (changeAt change index list)[other]? =
      if other = index then list[other]?.map change else list[other]? := by
  induction list generalizing index other with
  | nil => simp [changeAt]
  | cons first rest ih => cases index <;> cases other <;> simp [changeAt, ih]

/-- Changing one entry relates each entry to the one that is there afterwards,
when the change relates that entry to its new form. -/
private theorem rel_changeAt {α : Type} {related : α → α → Prop} (hrefl : ∀ a, related a a)
    (change : α → α) (index other : Nat) {list : List α}
    (h : ∀ a, list[index]? = some a → related a (change a)) :
    Option.Rel related list[other]? (Bindings.changeAt change index list)[other]? := by
  rw [Bindings.getElem?_changeAt]
  split
  · rename_i hindex
    subst hindex
    cases hentry : list[other]? with
    | none => exact .none
    | some a => exact .some (h a hentry)
  · exact rel_refl hrefl _

variable {lessons : Lessons}

namespace NamedImport.Learns

theorem refl (named : NamedImport) : named.Learns lessons named :=
  ⟨rfl, rfl, rfl, fun _ h => h, fun _ h => Or.inl h, fun h => h, fun h => Or.inl h⟩

theorem trans {a b c : NamedImport} (hab : a.Learns lessons b) (hbc : b.Learns lessons c) :
    a.Learns lessons c where
  exported := hbc.exported.trans hab.exported
  renamed := hbc.renamed.trans hab.renamed
  isTypeOnly := hbc.isTypeOnly.trans hab.isTypeOnly
  target_kept := fun target h => hbc.target_kept target (hab.target_kept target h)
  target_new := by
    intro target h
    rcases hbc.target_new target h with h | h
    · exact hab.target_new target h
    · rw [hab.exported] at h
      exact Or.inr h
  keeps := fun h => hbc.keeps (hab.keeps h)
  keeps_new := by
    intro h
    rcases hbc.keeps_new h with h | h
    · exact hab.keeps_new h
    · exact Or.inr h

theorem localName {before after : NamedImport} (h : before.Learns lessons after) :
    after.localName = before.localName := by
  unfold NamedImport.localName
  rw [h.renamed, h.exported]

end NamedImport.Learns

namespace WholeImport.Learns

theorem refl (whole : WholeImport) : whole.Learns whole := ⟨rfl, rfl, rfl, fun h => h⟩

theorem trans {a b c : WholeImport} (hab : a.Learns b) (hbc : b.Learns c) : a.Learns c :=
  ⟨hbc.name.trans hab.name, hbc.style.trans hab.style, hbc.tentative.trans hab.tentative,
    fun h => hbc.matched (hab.matched h)⟩

end WholeImport.Learns

namespace Bindings

namespace Learns

variable {before after : Bindings}

theorem refl (bindings : Bindings) : bindings.Learns lessons bindings :=
  ⟨fun _ => rel_refl .refl _, fun _ => rel_refl .refl _⟩

theorem trans {a b c : Bindings} (hab : a.Learns lessons b) (hbc : b.Learns lessons c) :
    a.Learns lessons c :=
  ⟨fun index => rel_trans (fun _ _ _ => .trans) (hab.named index) (hbc.named index),
    fun index => rel_trans (fun _ _ _ => .trans) (hab.whole index) (hbc.whole index)⟩

theorem named_after (h : before.Learns lessons after) {index : Nat} {named : NamedImport}
    (hnamed : before.named[index]? = some named) :
    ∃ learned, after.named[index]? = some learned ∧ named.Learns lessons learned :=
  exists_of_rel (hnamed ▸ h.named index)

theorem named_before (h : before.Learns lessons after) {index : Nat} {learned : NamedImport}
    (hlearned : after.named[index]? = some learned) :
    ∃ named, before.named[index]? = some named ∧ named.Learns lessons learned :=
  exists_of_rel_some (hlearned ▸ h.named index)

theorem whole_after (h : before.Learns lessons after) {index : Nat} {whole : WholeImport}
    (hwhole : before.whole[index]? = some whole) :
    ∃ learned, after.whole[index]? = some learned ∧ whole.Learns learned :=
  exists_of_rel (hwhole ▸ h.whole index)

theorem whole_before (h : before.Learns lessons after) {index : Nat} {learned : WholeImport}
    (hlearned : after.whole[index]? = some learned) :
    ∃ whole, before.whole[index]? = some whole ∧ whole.Learns learned :=
  exists_of_rel_some (hlearned ▸ h.whole index)

theorem map_localName (h : before.Learns lessons after) :
    after.named.map NamedImport.localName = before.named.map NamedImport.localName :=
  map_eq_of_rel (fun _ _ hab => hab.localName) h.named

theorem map_exported (h : before.Learns lessons after) :
    after.named.map NamedImport.exported = before.named.map NamedImport.exported :=
  map_eq_of_rel (fun _ _ hab => hab.exported) h.named

/-- What learning does not change about an alias stays the same for all of them. -/
theorem map_whole {β : Type} {read : WholeImport → β}
    (hread : ∀ whole learned : WholeImport, whole.Learns learned → read learned = read whole)
    (h : before.Learns lessons after) : after.whole.map read = before.whole.map read :=
  map_eq_of_rel hread h.whole

theorem map_name (h : before.Learns lessons after) :
    after.whole.map WholeImport.name = before.whole.map WholeImport.name :=
  h.map_whole fun _ _ h => h.name

end Learns

/-! ## Steps of learning -/

/-- A match is learned when the export may learn its target. -/
theorem learns_recordMatch (bindings : Bindings) {origin : Origin} {target : String}
    (h : ∀ index named, origin = .named index → bindings.named[index]? = some named →
      lessons.targets named.exported target) :
    bindings.Learns lessons (bindings.recordMatch origin target) := by
  cases origin with
  | named index =>
    refine ⟨fun other => rel_changeAt .refl _ _ _ fun named hnamed => ?_, fun _ => rel_refl .refl _⟩
    refine ⟨rfl, rfl, rfl, ?_, ?_, fun h => h, fun h => Or.inl h⟩
    · intro existing hexisting
      simp [hexisting]
    · intro learned hlearned
      cases hexisting : named.target with
      | some existing =>
        rw [hexisting] at hlearned
        exact Or.inl hlearned
      | none =>
        rw [hexisting] at hlearned
        rw [← Option.some.inj hlearned]
        exact Or.inr (h index named rfl hnamed)
  | whole index =>
    exact ⟨fun _ => rel_refl .refl _,
      fun _ => rel_changeAt .refl _ _ _ fun _ _ => ⟨rfl, rfl, rfl, fun _ => rfl⟩⟩

/-- After a match the export has a target. -/
theorem target_recordMatch {bindings : Bindings} {index : Nat} {named : NamedImport}
    (hnamed : bindings.named[index]? = some named) (target : String) :
    ∃ learned, (bindings.recordMatch (.named index) target).named[index]? = some learned ∧
      learned.target = named.target.or (some target) := by
  refine ⟨{ named with target := named.target <|> some target }, ?_, by simp⟩
  simp only [recordMatch, getElem?_changeAt, if_true, hnamed, Option.map_some]

/-- After a match the alias is used. -/
theorem matched_recordMatch {bindings : Bindings} {index : Nat} {whole : WholeImport}
    (hwhole : bindings.whole[index]? = some whole) (target : String) :
    ∃ learned, (bindings.recordMatch (.whole index) target).whole[index]? = some learned ∧
      learned.matched = true := by
  refine ⟨{ whole with matched := true }, ?_, rfl⟩
  simp only [recordMatch, getElem?_changeAt, if_true, hwhole, Option.map_some]

theorem learns_keepLocal (hkeeping : lessons.keeping) (bindings : Bindings) (index : Nat) :
    bindings.Learns lessons (bindings.keepLocal index) :=
  ⟨fun _ => rel_changeAt .refl _ _ _ fun _ _ =>
      ⟨rfl, rfl, rfl, fun _ h => h, fun _ h => Or.inl h, fun _ => rfl, fun _ => Or.inr hkeeping⟩,
    fun _ => rel_refl .refl _⟩

end Bindings

end SdkMigration
