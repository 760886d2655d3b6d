import Mathlib.Algebra.GroupWithZero.Nat
import SdkMigration.Mapping.BuiltIn
import SdkMigration.Import.Declarations
import SdkMigration.Proofs.Stages.Enums

/-!
# The built-in mapping is consistent

An import of a single export is replaced by one namespace.  This is enough
because all rules of the built-in mapping that concern an export move it to
the same namespace.  The namespaces are plain names, and a chain that stays as
it is names no enumeration.
-/

namespace SdkMigration

namespace MappingTable

/-- All rules of a table. -/
def rules (table : MappingTable) : List Rule := table.functions ++ table.interfaces ++ table.enums

/-- Whether a rule concerns an export: its source starts with the name of the
export, or it is for an enumeration whose longer source ends with it. -/
def Concerns (table : MappingTable) (rule : Rule) (exported : String) : Prop :=
  rule.source.first = exported ∨
    (rule ∈ table.enums ∧ rule.source.rest ≠ [] ∧ rule.source.last = exported)

instance (table : MappingTable) (rule : Rule) (exported : String) :
    Decidable (table.Concerns rule exported) := inferInstanceAs (Decidable (_ ∨ _))

/-- Whether a table moves an export to a namespace. -/
def Moves (table : MappingTable) (exported target : String) : Prop :=
  ∃ rule ∈ table.rules, table.Concerns rule exported ∧ rule.target.first = target

/-- What single exports learn from the rules of a table. -/
def lessons (table : MappingTable) : Lessons := ⟨table.Moves, False⟩

theorem allows_functions (table : MappingTable) : Allows table.lessons table.functions :=
  fun rule hrule =>
    ⟨rule, List.mem_append_left _ (List.mem_append_left _ hrule), Or.inl rfl, rfl⟩

theorem allows_interfaces (table : MappingTable) : Allows table.lessons table.interfaces :=
  fun rule hrule =>
    ⟨rule, List.mem_append_left _ (List.mem_append_right _ hrule), Or.inl rfl, rfl⟩

theorem allows_enums (table : MappingTable) : AllowsEnums table.lessons table.enums :=
  ⟨fun rule hrule => ⟨rule, List.mem_append_right _ hrule, Or.inl rfl, rfl⟩,
    fun rule hrule hrest =>
      ⟨rule, List.mem_append_right _ hrule, Or.inr ⟨hrule, hrest, rfl⟩, rfl⟩⟩

end MappingTable

namespace BuiltIn

/-- The names that the built-in rules concern, each with the namespace that they
move it to. -/
private def namespaces : List (String × String) :=
  MappingTable.builtIn.rules.map (fun rule => (rule.source.first, rule.target.first)) ++
    enums.map fun rule => (rule.source.last, rule.target.first)

private theorem namespaces_consistent :
    (namespaces.all fun entry => namespaces.lookup entry.1 == some entry.2) = true := by
  decide +kernel

private theorem mem_namespaces {exported target : String}
    (h : MappingTable.builtIn.Moves exported target) : (exported, target) ∈ namespaces := by
  obtain ⟨rule, hrule, hconcerns, rfl⟩ := h
  rcases hconcerns with rfl | ⟨henum, -, rfl⟩
  · exact List.mem_append_left _ (List.mem_map_of_mem hrule)
  · exact List.mem_append_right _ (List.mem_map_of_mem henum)

/-- An export is moved to one namespace only. -/
theorem moves_unique {exported target other : String}
    (h : MappingTable.builtIn.Moves exported target)
    (hother : MappingTable.builtIn.Moves exported other) : target = other := by
  have hfirst := beq_iff_eq.mp (List.all_eq_true.mp namespaces_consistent _ (mem_namespaces h))
  have hsecond :=
    beq_iff_eq.mp (List.all_eq_true.mp namespaces_consistent _ (mem_namespaces hother))
  exact Option.some.inj (hfirst.symm.trans hsecond)

private theorem targets_plain :
    (MappingTable.builtIn.rules.all fun rule => isPlainName rule.target.first) = true := by
  decide +kernel

theorem isPlainName_target {rule : Rule} (h : rule ∈ MappingTable.builtIn.rules) :
    isPlainName rule.target.first = true :=
  List.all_eq_true.mp targets_plain rule h

private theorem sources_dotFree :
    (MappingTable.builtIn.rules.all fun rule =>
      rule.source.names.all fun name => !name.toList.contains '.') = true := by
  decide +kernel

theorem functions_subset : BuiltIn.functions ⊆ MappingTable.builtIn.rules :=
  fun _ hrule => List.mem_append_left _ (List.mem_append_left _ hrule)

theorem enums_subset : BuiltIn.enums ⊆ MappingTable.builtIn.rules :=
  fun _ hrule => List.mem_append_right _ hrule

theorem dotFree_source {rule : Rule} (h : rule ∈ MappingTable.builtIn.rules) {name : String}
    (hname : name ∈ rule.source.names) : DotFree name := by
  have hall := List.all_eq_true.mp (List.all_eq_true.mp sources_dotFree rule h) name hname
  simpa [DotFree] using hall

/-! ## Rules that may change nothing -/

/-- A rule for a function or an interface says nothing about an export that is
named like an enumeration, and its source does not start with an enumeration.
Where its target differs from its source in the first name at most, its source
names no enumeration at all. -/
private theorem enums_apart :
    ((functions ++ interfaces).all fun rule => enums.all fun enum =>
      enum.source.last != rule.source.first &&
        !enum.source.names.isPrefixOf rule.source.names &&
          (rule.source.rest != rule.target.rest ||
            !rule.source.names.contains enum.source.last)) = true := by
  decide +kernel

section EnumsApart

variable {rule enum : Rule}

theorem enum_last_ne (hrule : rule ∈ functions ++ interfaces) (henum : enum ∈ enums) :
    enum.source.last ≠ rule.source.first := by
  have h := List.all_eq_true.mp (List.all_eq_true.mp enums_apart rule hrule) enum henum
  simp only [Bool.and_eq_true] at h
  simpa using h.1.1

theorem enum_not_prefix (hrule : rule ∈ functions ++ interfaces) (henum : enum ∈ enums) :
    ¬ enum.source.names <+: rule.source.names := by
  have h := List.all_eq_true.mp (List.all_eq_true.mp enums_apart rule hrule) enum henum
  simp only [Bool.and_eq_true] at h
  intro hfront
  have := List.isPrefixOf_iff_prefix.mpr hfront
  simp [this] at h

theorem enum_last_notMem (hrule : rule ∈ functions ++ interfaces) (henum : enum ∈ enums)
    (hsame : rule.source.rest = rule.target.rest) : enum.source.last ∉ rule.source.names := by
  have h := List.all_eq_true.mp (List.all_eq_true.mp enums_apart rule hrule) enum henum
  simp only [Bool.and_eq_true, Bool.or_eq_true, bne_iff_ne, ne_eq, hsame, not_true_eq_false,
    false_or] at h
  simpa using h.2

end EnumsApart

/-! ## Rules for enumerations -/

/-- The rules for enumerations move them to another namespace under the same names, those of
the target are together shorter than those of the source even with the accesses to them,
and no source starts with another one. -/
private theorem enums_moved :
    (enums.all fun rule =>
      rule.source.first != rule.target.first && rule.source.rest == rule.target.rest &&
        rule.target.rest != [] && rule.target.first != "" &&
        (rule.target.names.all fun name => name.toList.all NameChars.canContinue) &&
        decide ((rule.target.names.map fun name => name.toList.length + 2).sum <
          (rule.source.names.map fun name => name.toList.length).sum) &&
        enums.all fun other =>
          !rule.source.names.isPrefixOf other.source.names || decide (rule = other)) = true := by
  decide +kernel

/-- How a rule for an enumeration moves it. -/
structure Moved (rule : Rule) : Prop where
  first_ne : rule.source.first ≠ rule.target.first
  rest_eq : rule.source.rest = rule.target.rest
  rest_ne_nil : rule.target.rest ≠ []
  first_ne_empty : rule.target.first ≠ ""
  letters : ∀ name ∈ rule.target.names, ∀ c ∈ name.toList, NameChars.canContinue c = true
  shorter : (rule.target.names.map fun name => name.toList.length + 2).sum <
    (rule.source.names.map fun name => name.toList.length).sum
  alone : ∀ other ∈ enums, rule.source.names <+: other.source.names → rule = other

theorem moved_of_mem {rule : Rule} (h : rule ∈ enums) : Moved rule := by
  have hrule := List.all_eq_true.mp enums_moved rule h
  simp only [Bool.and_eq_true, bne_iff_ne, beq_iff_eq, decide_eq_true_eq, List.all_eq_true,
    Bool.or_eq_true, Bool.not_eq_true'] at hrule
  obtain ⟨⟨⟨⟨⟨⟨hfirst, hrest⟩, hbehind⟩, hempty⟩, hletters⟩, hshorter⟩, halone⟩ := hrule
  refine ⟨hfirst, hrest, hbehind, hempty, hletters, hshorter, fun other hother hfront => ?_⟩
  refine (halone other hother).resolve_left fun hno => ?_
  rw [List.isPrefixOf_iff_prefix.mpr hfront] at hno
  cases hno

end BuiltIn

end SdkMigration
