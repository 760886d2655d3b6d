import SdkMigration.Program.Reading
import SdkMigration.Proofs.Grammar.Modules

/-!
# Programs are placed in their texts

Every production places what it returns if those that it calls do, so all of
them do, whatever bounds the nesting.  The items of a program are statements,
imports and exports, each of which has a point where it starts.
-/

namespace SdkMigration

open Reader

namespace Grammar

variable {text : Text} {dialect : Dialect}

/-- The circle of productions is closed by induction on the bound of the nesting. -/
instance (fuel : Nat) (nonterminal : Nonterminal) :
    Places text dialect (reader fuel nonterminal) := by
  induction fuel generalizing nonterminal with
  | zero => exact .of_yields fun _ => .failure
  | succ fuel ih =>
    have hplacing : Placing text dialect ⟨fuel, reader fuel⟩ := ⟨ih⟩
    unfold reader production
    cases nonterminal <;> infer_instance

/-! ## Items -/

/-- Whether a tree has a point where it starts. -/
def IsAnchored (tree : Tree) : Prop := ∃ kind start inner, tree = .anchored kind start inner

theorem returns_statement {g : Grammar} : Returns IsAnchored (statement g) :=
  .bind fun start => .bind fun inner => .pure ⟨.statement, start, inner, rfl⟩

theorem returns_exportItem {g : Grammar} {marks : List Tree} :
    Returns IsAnchored (exportItem g marks) :=
  .bind fun start => .bind fun _ => .bind fun inner => .pure ⟨.moduleItem, start, inner, rfl⟩

theorem returns_importItem {g : Grammar} : Returns IsAnchored (importItem g) :=
  .bind fun start => .bind fun _ => .bind fun inner => .pure ⟨.moduleItem, start, inner, rfl⟩

theorem returns_moduleItem {g : Grammar} (hstatement : Returns IsAnchored (g.read .statement)) :
    Returns IsAnchored (moduleItem g) := by
  refine .bind fun _ => .bind fun _ => .ite hstatement ?_
  refine .bind fun _ => .ite returns_importItem (.bind fun _ => .ite returns_exportItem ?_)
  refine .bind fun _ => .ite (.orElse ?_ hstatement) hstatement
  exact .bind fun _ => returns_exportItem

theorem returns_reader (fuel : Nat) : Returns IsAnchored (reader fuel .moduleItem) := by
  have hstatement : ∀ fuel, Returns IsAnchored (reader fuel .statement) := by
    intro fuel
    cases fuel with
    | zero => exact .failure
    | succ fuel => exact returns_statement
  cases fuel with
  | zero => exact .failure
  | succ fuel => exact returns_moduleItem (hstatement fuel)

end Grammar

namespace Program

variable {text : Text} {dialect : Dialect}

/-- Items that are read one behind the other are placed so. -/
theorem itemsPlaced_of_readItems {item : Reader Tree} [places : Places text dialect item]
    (fuel : Nat) {state after : ReaderState} {items : List Tree} (hstate : state.At text dialect)
    (hrun : readItems item fuel state = some (items, after)) :
    after.At text dialect ∧ ItemsPlaced text state.token.start items after.token.start := by
  induction fuel generalizing state items with
  | zero => cases hrun
  | succ fuel ih =>
    obtain ⟨token, same, hpeek, hrest⟩ := bind_eq_some hrun
    obtain ⟨rfl, rfl⟩ := Prod.mk.inj (Option.some.inj hpeek)
    split at hrest
    · obtain ⟨rfl, rfl⟩ := Prod.mk.inj (Option.some.inj hrest)
      exact ⟨hstate, Nat.le_refl _⟩
    · obtain ⟨first, between, hfirst, hmore⟩ := bind_eq_some hrest
      obtain ⟨others, behind, hothers, hpure⟩ := bind_eq_some hmore
      obtain ⟨rfl, rfl⟩ := Prod.mk.inj (Option.some.inj hpure)
      obtain ⟨hbetween, hplaced, -⟩ := places.places hstate hfirst
      obtain ⟨hbehind, hrestPlaced⟩ := ih hbetween hothers
      exact ⟨hbehind, between.token.start, hplaced, hrestPlaced⟩

theorem returns_readItems {item : Reader Tree} {p : Tree → Prop} (hitem : Returns p item)
    (fuel : Nat) : Returns (fun found => ∀ tree ∈ found, p tree) (readItems item fuel) := by
  induction fuel with
  | zero => exact .failure
  | succ fuel ih =>
    refine .bind fun _ => .ite (.pure nofun) ?_
    intro state found after hrun
    obtain ⟨first, between, hfirst, hrest⟩ := bind_eq_some hrun
    obtain ⟨others, behind, hothers, hpure⟩ := bind_eq_some hrest
    obtain ⟨rfl, rfl⟩ := Prod.mk.inj (Option.some.inj hpure)
    exact List.forall_mem_cons.mpr ⟨hitem _ _ _ hfirst, ih _ _ _ hothers⟩

theorem afterInterpreterLine_le (text : Text) : afterInterpreterLine text ≤ text.length := by
  unfold afterInterpreterLine
  split
  · exact (List.takeWhile_sublist _).length_le
  · exact Nat.zero_le _

/-- The items of a program that was read from a text lie in that text, one behind the
other, and start at points. -/
theorem placed_of_read {dialect : Dialect} {program : Program}
    (h : read? dialect text = some program) : program.Placed text := by
  obtain ⟨⟨found, after⟩, hrun, hpure⟩ := Option.bind_eq_some_iff.mp h
  obtain rfl := Option.some.inj hpure
  obtain ⟨htoken, _⟩ := Token.scan_at (afterInterpreterLine_le text)
  obtain ⟨hafter, hplaced⟩ := itemsPlaced_of_readItems _ ⟨htoken, Nat.zero_le _, rfl⟩ hrun
  have hstop := Nat.le_trans hafter.token.start_le_stop hafter.token.stop_le
  refine ⟨hplaced.mono (Nat.zero_le _) hstop, fun item hitem => ?_⟩
  obtain ⟨kind, start, inner, rfl⟩ :=
    returns_readItems (Grammar.returns_reader _) _ _ _ _ hrun item hitem
  exact List.mem_cons_self

end Program

end SdkMigration
