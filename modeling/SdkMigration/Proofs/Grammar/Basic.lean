import SdkMigration.Proofs.Grammar.Readers

/-!
# Basic readers place what they return

The readers that look at the next token, those that take tokens, and the ways
in which readers are combined to others.
-/

namespace SdkMigration

/-! ## Tokens -/

/-- Whether a way to find a token behind a position finds one of the text. -/
class Token.Scans (text : Text) (next : Nat → List Char → Token) : Prop where
  found : ∀ {position : Nat}, position ≤ text.length →
    (next position (text.drop position)).At text ∧
      position ≤ (next position (text.drop position)).start

instance {text : Text} : Token.Scans text Token.scan :=
  ⟨fun h => ⟨(Token.scan_at h).1, (Token.scan_at h).2.1⟩⟩

instance {text : Text} : Token.Scans text Token.scanMarkup := ⟨Token.scanMarkup_at⟩

instance {text : Text} : Token.Scans text Token.scanMarkupValue := ⟨Token.scanMarkupValue_at⟩

/-- Whether reading a token in another way leaves it a token of the text in the
same place. -/
class Token.Rereads (text : Text) (change : Token → Token) : Prop where
  found : ∀ {token : Token}, token.At text →
    (change token).At text ∧ (change token).start = token.start

instance {text : Text} : Token.Rereads text Token.firstOfMark := ⟨Token.firstOfMark_at⟩

instance {text : Text} : Token.Rereads text Token.rescanPattern := ⟨Token.rescanPattern_at⟩

instance {text : Text} : Token.Rereads text Token.rescanTemplate := ⟨Token.rescanTemplate_at⟩

instance {text : Text} : Token.Rereads text Token.rescanMarkupName := ⟨Token.rescanMarkupName_at⟩

theorem Landmarks.Placed.name {text : Text} {lo hi : Nat} {id : Identifier}
    (hid : id.Placed text) (hlo : lo ≤ id.span.start) (hhi : id.span.stop ≤ hi) :
    (Landmarks.name id).Placed text lo hi := by
  have hlt := hid.start_lt_stop
  refine ⟨by omega, ?_, by simp [Landmarks.name], by simp [Landmarks.name],
    by simp [Landmarks.name], by simp [Landmarks.name, Landmarks.spans], by simp [Landmarks.name],
    by simp [Landmarks.name], by simp [Landmarks.name]⟩
  intro chain hchain
  obtain rfl := List.mem_singleton.mp hchain
  exact ⟨hlo, hid, hhi⟩

namespace Reader

variable {α β : Type} {text : Text} {dialect : Dialect}

/-! ## Readers without parts -/

/-- What the state is told from takes no token. -/
instance : Places text dialect (get : Reader ReaderState) :=
  ⟨fun hstate hrun => by
    obtain ⟨rfl, rfl⟩ := Prod.mk.inj (Option.some.inj hrun)
    exact ⟨hstate, .empty (Nat.le_refl _), trivial⟩⟩

instance (found : α) : @Places α .plain text dialect (pure found) :=
  ⟨fun hstate hrun => by
    obtain ⟨rfl, rfl⟩ := Prod.mk.inj (Option.some.inj hrun)
    exact ⟨hstate, .empty (Nat.le_refl _), trivial⟩⟩

instance [Located α] : Places text dialect (failure : Reader α) := ⟨fun _ hrun => by cases hrun⟩

/-- A reader without parts is made of others, whose parts it drops. -/
instance Places.bind [Located α] {reader : Reader α} {rest : α → Reader β}
    [first : Places text dialect reader]
    [second : ∀ found, @Places β .plain text dialect (rest found)] :
    @Places β .plain text dialect (reader >>= rest) :=
  ⟨fun {state found after} hstate hrun => by
    obtain ⟨middle, between, hfirst, hrest⟩ := bind_eq_some hrun
    obtain ⟨hbetween, hmiddle, _⟩ := first.places hstate hfirst
    obtain ⟨hafter, hfound, _⟩ := (second middle).places hbetween hrest
    exact ⟨hafter, .empty (Nat.le_trans hmiddle.le hfound.le), trivial⟩⟩

instance [Located α] {first second : Reader α} [Places text dialect first]
    [Places text dialect second] {condition : Prop} [Decidable condition] :
    Places text dialect (if condition then first else second) := by
  split
  · infer_instance
  · infer_instance

instance [Located α] {first second : Reader α} [Places text dialect first]
    [Places text dialect second] :
    Places text dialect (first <|> second) :=
  .of_yields fun _ => .orElse
    (.last fun found mark _ => by simp) (.last fun found mark _ => by simp)

instance : Places text dialect peek := by unfold peek; infer_instance

instance : Places text dialect peekSecond := by unfold peekSecond; infer_instance

instance : Places text dialect here := by unfold here; infer_instance

instance : Places text dialect atNewline := by unfold atNewline; infer_instance

instance : Places text dialect hasTypes := by unfold hasTypes; infer_instance

instance : Places text dialect surroundings := by unfold surroundings; infer_instance

instance (mark : String) : Places text dialect (atMark mark) := by unfold atMark; infer_instance

instance (name : String) : Places text dialect (atWord name) := by unfold atWord; infer_instance

instance (reader : Reader α) : Places text dialect (ahead reader) :=
  ⟨fun hstate hrun => by
    obtain ⟨rfl, rfl⟩ := Prod.mk.inj (Option.some.inj hrun)
    exact ⟨hstate, .empty (Nat.le_refl _), trivial⟩⟩

instance (condition : Bool) : Places text dialect (require condition) := by
  unfold require; infer_instance

/-! ## Taking tokens -/

instance (next : Nat → List Char → Token) [scans : Token.Scans text next] :
    Places text dialect (takeThen next) :=
  ⟨fun {state found after} hstate hrun => by
    obtain ⟨-, rfl⟩ := Prod.mk.inj (Option.some.inj hrun)
    obtain ⟨htoken, hle⟩ := scans.found hstate.token.stop_le
    rw [← hstate.token.rest_eq] at htoken hle
    exact ⟨⟨htoken, hle, hstate.dialect_eq⟩,
      .empty (Nat.le_trans hstate.token.start_le_stop hle), trivial⟩⟩

instance : Places text dialect take := by unfold take; infer_instance

instance (change : Token → Token) [rereads : Token.Rereads text change] :
    Places text dialect (reread change) :=
  ⟨fun {state found after} hstate hrun => by
    obtain ⟨-, rfl⟩ := Prod.mk.inj (Option.some.inj hrun)
    obtain ⟨htoken, hstart⟩ := rereads.found hstate.token
    have hlast : state.lastStop ≤ (change state.token).start := by
      rw [hstart]
      exact hstate.lastStop_le
    exact ⟨⟨htoken, hlast, hstate.dialect_eq⟩, .empty (Nat.le_of_eq hstart.symm), trivial⟩⟩

instance (mark : String) : Places text dialect (accept mark) := by unfold accept; infer_instance

instance (name : String) : Places text dialect (acceptWord name) := by
  unfold acceptWord; infer_instance

instance (condition : Bool) : Places text dialect (takeIf condition) := by
  unfold takeIf; infer_instance

instance (condition : Bool) (mark : String) : Places text dialect (acceptIf condition mark) := by
  unfold acceptIf; infer_instance

instance (condition : Bool) (name : String) :
    Places text dialect (acceptWordIf condition name) := by
  unfold acceptWordIf; infer_instance

instance (mark : String) : Places text dialect (expect mark) := by unfold expect; infer_instance

instance (name : String) : Places text dialect (expectWord name) := by
  unfold expectWord; infer_instance

instance (c : Char) : Places text dialect (acceptFirst c) := by unfold acceptFirst; infer_instance

instance (start : Nat) : Places text dialect (spanFrom start) := by unfold spanFrom; infer_instance

instance (kind : LeafKind) (start : Nat) : Places text dialect (leafFrom kind start) :=
  .of_yields fun _ => .span fun _ => .tree

/-- What the surroundings say does not move a token. -/
instance [Located α] (change : Surroundings → Surroundings) (reader : Reader α)
    [inner : Places text dialect reader] : Places text dialect (inside change reader) :=
  ⟨fun {state found after} hstate hrun => by
    obtain ⟨⟨middle, between⟩, hinner, hrest⟩ := Option.bind_eq_some_iff.mp hrun
    obtain ⟨rfl, rfl⟩ := Prod.mk.inj (Option.some.inj hrest)
    have hmoved :
        ({ state with surroundings := change state.surroundings } : ReaderState).At text dialect :=
      ⟨hstate.token, hstate.lastStop_le, hstate.dialect_eq⟩
    obtain ⟨hbetween, hmiddle, hregular⟩ := inner.places hmoved hinner
    exact ⟨⟨hbetween.token, hbetween.lastStop_le, hbetween.dialect_eq⟩, hmiddle, hregular⟩⟩

instance [Located α] (reader : Reader α) [Places text dialect reader] :
    Places text dialect (bracketed reader) := by
  unfold bracketed; infer_instance

instance : Places text dialect endStatement := by unfold endStatement; infer_instance

@[simp] theorem expressionAt_eq (start : Nat) (inner : Tree) :
    expressionAt start inner = .anchored .expression start inner := rfl

/-! ## Names -/

/-- A word that is taken is a name in its place. -/
instance : Places text dialect anyName :=
  ⟨fun {state found after} hstate hrun => by
    unfold anyName at hrun
    obtain ⟨token, between, hpeek, hrest⟩ := bind_eq_some hrun
    obtain ⟨rfl, rfl⟩ := Prod.mk.inj (Option.some.inj hpeek)
    cases hkind : state.token.kind with
    | word name escaped =>
      rw [hkind] at hrest
      obtain ⟨⟨⟩, taken, htake, hpure⟩ := bind_eq_some hrest
      obtain ⟨rfl, rfl⟩ := Prod.mk.inj (Option.some.inj hpure)
      have htaken : Places text dialect take := inferInstance
      obtain ⟨hafter, hplaced, -⟩ := htaken.places hstate htake
      have hname := hstate.token.word name escaped hkind
      obtain ⟨-, rfl⟩ := Prod.mk.inj (Option.some.inj htake)
      refine ⟨hafter, .name hname (Nat.le_refl _) ?_, hname.dotFree⟩
      exact Nat.max_le.mpr ⟨hplaced.le, hafter.lastStop_le⟩
    | _ =>
      rw [hkind] at hrest
      cases hrest⟩

instance : Places text dialect variableName :=
  .of_yields fun _ => .step fun _ => .step fun _ => .last

instance (role : Role) : Places text dialect (nameAs role) :=
  .of_yields fun _ => .part fun id _ => .pure (.identifier role id)

instance : Places text dialect stringLiteral := by
  refine .token fun token => ?_
  split
  · exact .step fun _ => .tree
  · exact .failure

/-! ## Lists -/

instance : Places text dialect (pure [] : Reader (List Tree)) := .of_yields fun _ => .pure trivial

variable {item : Reader Tree} [Places text dialect item]

instance : Places text dialect (single item) := .of_yields fun _ => .part fun _ _ => .pure trivial

instance (condition : Bool) : Places text dialect (singleIf condition item) := by
  unfold singleIf; infer_instance

instance (close : String) (fuel : Nat) : Places text dialect (itemsUntil close item fuel) := by
  induction fuel with
  | zero => exact .of_yields fun _ => .failure
  | succ fuel ih =>
    refine .of_yields fun _ => .step fun _ => .ite (fun _ => .pure trivial) fun _ => ?_
    exact .part fun _ _ => .part fun _ _ => .pure trivial

instance (close : String) : Places text dialect (separator close) := by
  unfold separator; infer_instance

instance (close : String) (fuel : Nat) : Places text dialect (commaItems close item fuel) := by
  induction fuel with
  | zero => exact .of_yields fun _ => .failure
  | succ fuel ih =>
    refine .of_yields fun _ => .step fun _ => .ite (fun _ => .pure trivial) fun _ => ?_
    exact .part fun _ _ => .step fun _ => .part fun _ _ => .pure trivial

instance (continues : Reader Bool) [Places text dialect continues] (fuel : Nat) :
    Places text dialect (itemsWhile continues item fuel) := by
  induction fuel with
  | zero => exact .of_yields fun _ => .failure
  | succ fuel ih =>
    refine .of_yields fun _ => .step fun _ => .ite (fun _ => ?_) fun _ => .pure trivial
    exact .part fun _ _ => .part fun _ _ => .pure trivial

instance (fuel : Nat) : Places text dialect (commaSeparated item fuel) :=
  .of_yields fun _ => .part fun _ _ => .part fun _ _ => .pure trivial

/-! ## Parts that may be missing -/

instance : Located (Option (List Tree)) :=
  ⟨fun found => allLandmarks (found.getD []), fun _ _ _ => True⟩

@[simp] theorem marks_option (found : Option (List Tree)) :
    Located.marks found = allLandmarks (found.getD []) := rfl

instance {items : Reader (List Tree)} [Places text dialect items] :
    Places text dialect (optional items) := by
  refine .of_yields fun _ => .orElse ?_ (.pure trivial)
  rw [map_eq_pure_bind]
  exact .part fun _ _ => .pure trivial

end Reader

end SdkMigration
