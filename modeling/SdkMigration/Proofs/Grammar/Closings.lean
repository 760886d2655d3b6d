import SdkMigration.Proofs.Grammar.Basic

/-!
# Readers that end behind a character

The span of an import declaration has to end with a character other than a
blank.  It ends where the last token that was taken ends, so what matters is
which readers take such a token last.  A reader `Closes` when it does, and
`Keeps` when it leaves a token taken last that is as good as the one before.
`Reader.Ends` is `Reader.Yields` for what is left of a production from there
on.
-/

namespace SdkMigration

/-! ## Tokens that end with ink -/

namespace Token

/-- Whether a token is not empty and ends with a character other than a blank. -/
structure Inked (text : Text) (token : Token) : Prop where
  start_lt_stop : token.start < token.stop
  ink_stop : text.HasInk (token.stop - 1)

variable {text : Text} {token : Token}

theorem At.inked_word (h : token.At text) {name : String} {escaped : Bool}
    (hkind : token.kind = .word name escaped) : token.Inked text := by
  have hplaced := h.word name escaped hkind
  have hstop : (Span.between token.start token.stop).stop = token.stop :=
    Nat.max_eq_right h.start_le_stop
  have hlt : token.start < (Span.between token.start token.stop).stop := hplaced.start_lt_stop
  have hink : text.HasInk ((Span.between token.start token.stop).stop - 1) := hplaced.ink_stop
  rw [hstop] at hlt hink
  exact ⟨hlt, hink⟩

/-- A token that spells characters ends with the last of them. -/
private theorem At.inked_of_here (h : token.At text) {taken rest : List Char} {last : Char}
    (hhere : token.here = taken ++ rest) (hstop : token.stop = token.origin + taken.length)
    (hlast : taken.getLast? = some last) (hink : isBlank last = false) : token.Inked text := by
  have hpositive : 0 < taken.length := by
    cases taken with
    | nil => cases hlast
    | cons => exact Nat.succ_pos _
  have hstart := h.start_le
  refine ⟨by omega, ?_⟩
  rw [hstop]
  exact Text.hasInk_last (h.here_eq ▸ hhere) hlast hink

theorem At.inked_mark (h : token.At text) {mark : String} (hkind : token.kind = .mark mark)
    {last : Char} (hlast : mark.toList.getLast? = some last) (hink : isBlank last = false) :
    token.Inked text := by
  obtain ⟨⟨rest, hhere⟩, hstop⟩ := h.mark mark hkind
  rw [← String.length_toList] at hstop
  exact h.inked_of_here hhere.symm hstop hlast hink

theorem At.inked_string (h : token.At text) {value : String} (hkind : token.kind = .string value) :
    token.Inked text := by
  obtain ⟨quote, inner, rest, hhere, hstop, hquote⟩ := h.quoted value hkind
  have hsplit : token.here = (quote :: inner ++ [quote]) ++ rest := by simp [hhere]
  refine h.inked_of_here hsplit ?_ List.getLast?_concat hquote
  rw [hstop]
  simp
  omega

end Token

/-! ## Where readers end -/

/-- Whether the last token that was taken ends behind a position, with a character
other than a blank, and no blank stands where the next token starts. -/
structure ReaderState.Closed (text : Text) (lo : Nat) (state : ReaderState) : Prop where
  lo_lt : lo < state.lastStop
  ink_stop : text.HasInk (state.lastStop - 1)
  unblank : text.Unblank state.token.start

namespace Reader

variable {α β : Type} {text : Text} {dialect : Dialect} {lo : Nat}

/-- Whether the last token that a reader takes ends with a character other than a
blank. -/
structure Closes (text : Text) (dialect : Dialect) (lo : Nat) (reader : Reader α) : Prop where
  closed : ∀ {state : ReaderState} {found : α} {after : ReaderState}, state.At text dialect →
    lo ≤ state.token.start → reader state = some (found, after) → after.Closed text lo

/-- Whether such a token was taken last behind a reader when one was before it. -/
class Keeps (text : Text) (dialect : Dialect) (lo : Nat) (reader : Reader α) : Prop where
  kept : ∀ {state : ReaderState} {found : α} {after : ReaderState}, state.At text dialect →
    state.Closed text lo → reader state = some (found, after) → after.Closed text lo

theorem closed_take {state after : ReaderState} {found : Unit} (hstate : state.At text dialect)
    (hlo : lo ≤ state.token.start) (hink : state.token.Inked text)
    (hrun : take state = some (found, after)) : after.Closed text lo := by
  obtain ⟨-, rfl⟩ := Prod.mk.inj (Option.some.inj hrun)
  refine ⟨Nat.lt_of_le_of_lt hlo hink.start_lt_stop, hink.ink_stop, ?_⟩
  have hunblank := (Token.scan_at hstate.token.stop_le).2.2
  rw [← hstate.token.rest_eq] at hunblank
  exact hunblank

/-! ## Readers that close -/

namespace Closes

/-- What goes before a reader that closes does not matter. -/
theorem after [Located α] {reader : Reader α} {rest : α → Reader β}
    [first : Places text dialect reader]
    (h : ∀ found, Closes text dialect lo (rest found)) :
    Closes text dialect lo (reader >>= rest) := by
  refine ⟨fun {state found after} hstate hlo hrun => ?_⟩
  obtain ⟨middle, between, hfirst, hrest⟩ := bind_eq_some hrun
  obtain ⟨hbetween, hmiddle, -⟩ := first.places hstate hfirst
  exact (h middle).closed hbetween (Nat.le_trans hlo hmiddle.le) hrest

/-- What goes behind a reader that closes has to keep that. -/
theorem before [Located α] {reader : Reader α} {rest : α → Reader β}
    [first : Places text dialect reader] (h : Closes text dialect lo reader)
    (hrest : ∀ found, Keeps text dialect lo (rest found)) :
    Closes text dialect lo (reader >>= rest) := by
  refine ⟨fun {state found after} hstate hlo hrun => ?_⟩
  obtain ⟨middle, between, hfirst, hlast⟩ := bind_eq_some hrun
  exact (hrest middle).kept (first.places hstate hfirst).1 (h.closed hstate hlo hfirst) hlast

theorem ite {condition : Prop} [Decidable condition] {yes no : Reader β}
    (hyes : Closes text dialect lo yes) (hno : Closes text dialect lo no) :
    Closes text dialect lo (if condition then yes else no) := by
  split
  · exact hyes
  · exact hno

theorem failure : Closes text dialect lo (failure : Reader β) := by
  refine ⟨fun {state found after} _ _ hrun => ?_⟩
  cases hrun

/-- The surroundings of a token do not say where it ends. -/
theorem bracketed {reader : Reader α} (h : Closes text dialect lo reader) :
    Closes text dialect lo (bracketed reader) := by
  refine ⟨fun {state found after} hstate hlo hrun => ?_⟩
  obtain ⟨⟨middle, between⟩, hinner, hrest⟩ := Option.bind_eq_some_iff.mp hrun
  obtain ⟨rfl, rfl⟩ := Prod.mk.inj (Option.some.inj hrest)
  have hinside : ReaderState.At text dialect
      { state with surroundings := { generator := state.surroundings.generator } } :=
    ⟨hstate.token, hstate.lastStop_le, hstate.dialect_eq⟩
  obtain ⟨hlt, hink, hunblank⟩ := h.closed hinside hlo hinner
  exact ⟨hlt, hink, hunblank⟩

end Closes

/-- A mark that is accepted is taken. -/
theorem accept_eq_some {mark : String} {state after : ReaderState} {found : Bool}
    (h : accept mark state = some (found, after)) :
    (found = true ∧ state.token.kind = .mark mark ∧ take state = some ((), after)) ∨
      (found = false ∧ after = state) := by
  unfold accept at h
  obtain ⟨isMark, between, hmark, hrest⟩ := bind_eq_some h
  obtain ⟨rfl, rfl⟩ := Prod.mk.inj (Option.some.inj hmark)
  split at hrest
  · rename_i hmark
    obtain ⟨⟨⟩, taken, htake, hpure⟩ := bind_eq_some hrest
    obtain ⟨rfl, rfl⟩ := Prod.mk.inj (Option.some.inj hpure)
    refine Or.inl ⟨rfl, ?_, htake⟩
    unfold TokenKind.isMark at hmark
    split at hmark
    · rename_i other hkind
      rw [hkind, beq_iff_eq.mp hmark]
    · cases hmark
  · obtain ⟨rfl, rfl⟩ := Prod.mk.inj (Option.some.inj hrest)
    exact Or.inr ⟨rfl, rfl⟩

/-- A word that is expected comes next. -/
theorem expectWord_eq_some {name : String} {state after : ReaderState} {found : Unit}
    (h : expectWord name state = some (found, after)) : state.token.kind = .word name false := by
  unfold expectWord acceptWord at h
  obtain ⟨accepted, between, haccept, hrequire⟩ := bind_eq_some h
  obtain ⟨isWord, same, hword, hrest⟩ := bind_eq_some haccept
  obtain ⟨rfl, rfl⟩ := Prod.mk.inj (Option.some.inj hword)
  split at hrest
  · rename_i hkeyword
    unfold TokenKind.isKeyword at hkeyword
    split at hkeyword
    · rename_i other escaped hkind
      rw [Bool.and_eq_true, beq_iff_eq, Bool.not_eq_true'] at hkeyword
      rw [hkind, hkeyword.1, hkeyword.2]
    · cases hkeyword
  · obtain ⟨rfl, rfl⟩ := Prod.mk.inj (Option.some.inj hrest)
    cases hrequire

section Marks

variable {mark : String} {last : Char}

/-- A choice on a mark closes where the mark was taken. -/
theorem Closes.accept (hlast : mark.toList.getLast? = some last) (hink : isBlank last = false)
    {yes no : Reader β} [yesKeeps : Keeps text dialect lo yes] (hno : Closes text dialect lo no) :
    Closes text dialect lo
      (Reader.accept mark >>= fun found => if found = true then yes else no) := by
  refine ⟨fun {state found after} hstate hlo hrun => ?_⟩
  obtain ⟨accepted, between, haccept, hrest⟩ := bind_eq_some hrun
  rcases accept_eq_some haccept with ⟨rfl, hkind, htake⟩ | ⟨rfl, rfl⟩
  · have htaken : Places text dialect take := inferInstance
    refine yesKeeps.kept (htaken.places hstate htake).1 ?_ hrest
    exact closed_take hstate hlo (hstate.token.inked_mark hkind hlast hink) htake
  · exact hno.closed hstate hlo hrest

theorem closes_expect (hlast : mark.toList.getLast? = some last) (hink : isBlank last = false) :
    Closes text dialect lo (expect mark) := by
  refine ⟨fun {state found after} hstate hlo hrun => ?_⟩
  obtain ⟨accepted, between, haccept, hrequire⟩ := bind_eq_some hrun
  rcases accept_eq_some haccept with ⟨rfl, hkind, htake⟩ | ⟨rfl, rfl⟩
  · obtain ⟨rfl, rfl⟩ := Prod.mk.inj (Option.some.inj hrequire)
    exact closed_take hstate hlo (hstate.token.inked_mark hkind hlast hink) htake
  · cases hrequire

end Marks

/-- A reader closes that takes the next token where that ends with a character other
than a blank, and fails elsewhere. -/
theorem Closes.token {rest : Token → Reader β}
    (h : ∀ token : Token, token.At text → rest token = Alternative.failure ∨
      ∃ next : Unit → Reader β, rest token = take >>= next ∧ token.Inked text ∧
        ∀ found, Keeps text dialect lo (next found)) :
    Closes text dialect lo (peek >>= rest) := by
  refine ⟨fun {state found after} hstate hlo hrun => ?_⟩
  obtain ⟨token, same, hpeek, hrest⟩ := bind_eq_some hrun
  obtain ⟨rfl, rfl⟩ := Prod.mk.inj (Option.some.inj hpeek)
  rcases h state.token hstate.token with hfailure | ⟨next, htakes, hink, hkeeps⟩
  · rw [hfailure] at hrest
    cases hrest
  · rw [htakes] at hrest
    obtain ⟨⟨⟩, taken, htake, hnext⟩ := bind_eq_some hrest
    have htaken : Places text dialect take := inferInstance
    exact (hkeeps ⟨⟩).kept (htaken.places hstate htake).1 (closed_take hstate hlo hink htake) hnext

/-! ## Readers that keep -/

section Keep

instance : Keeps text dialect lo (get : Reader ReaderState) :=
  ⟨fun _ hclosed hrun => by
    obtain ⟨rfl, rfl⟩ := Prod.mk.inj (Option.some.inj hrun)
    exact hclosed⟩

instance (found : α) : Keeps text dialect lo (pure found) :=
  ⟨fun _ hclosed hrun => by
    obtain ⟨rfl, rfl⟩ := Prod.mk.inj (Option.some.inj hrun)
    exact hclosed⟩

instance : Keeps text dialect lo (failure : Reader α) := ⟨fun _ _ hrun => by cases hrun⟩

instance Keeps.bind [Located α] {reader : Reader α} {rest : α → Reader β}
    [places : Places text dialect reader] [first : Keeps text dialect lo reader]
    [second : ∀ found, Keeps text dialect lo (rest found)] :
    Keeps text dialect lo (reader >>= rest) :=
  ⟨fun {state found after} hstate hclosed hrun => by
    obtain ⟨middle, between, hfirst, hrest⟩ := bind_eq_some hrun
    exact (second middle).kept (places.places hstate hfirst).1
      (first.kept hstate hclosed hfirst) hrest⟩

instance {first second : Reader α} [Keeps text dialect lo first] [Keeps text dialect lo second]
    {condition : Prop} [Decidable condition] :
    Keeps text dialect lo (if condition then first else second) := by
  split
  · infer_instance
  · infer_instance

/-- A reader that closes does so behind every state. -/
theorem Closes.keeps {reader : Reader α} (h : Closes text dialect lo reader) :
    Keeps text dialect lo reader :=
  ⟨fun hstate hclosed hrun =>
    h.closed hstate (Nat.le_trans (Nat.le_of_lt hclosed.lo_lt) hstate.lastStop_le) hrun⟩

instance (start : Nat) : Keeps text dialect lo (spanFrom start) := by
  unfold spanFrom; infer_instance

instance : Keeps text dialect lo peek := by unfold peek; infer_instance

instance : Keeps text dialect lo atNewline := by unfold atNewline; infer_instance

instance (mark : String) : Keeps text dialect lo (atMark mark) := by unfold atMark; infer_instance

instance (name : String) : Keeps text dialect lo (atWord name) := by unfold atWord; infer_instance

instance (condition : Bool) : Keeps text dialect lo (require condition) := by
  unfold require; infer_instance

/-- A word that is taken is as good as the token before it. -/
instance (name : String) : Keeps text dialect lo (acceptWord name) :=
  ⟨fun {state found after} hstate hclosed hrun => by
    unfold acceptWord at hrun
    obtain ⟨isWord, same, hword, hrest⟩ := bind_eq_some hrun
    obtain ⟨rfl, rfl⟩ := Prod.mk.inj (Option.some.inj hword)
    split at hrest
    · rename_i hkeyword
      obtain ⟨⟨⟩, taken, htake, hpure⟩ := bind_eq_some hrest
      obtain ⟨rfl, rfl⟩ := Prod.mk.inj (Option.some.inj hpure)
      unfold TokenKind.isKeyword at hkeyword
      split at hkeyword
      · rename_i other escaped hkind
        exact closed_take hstate
          (Nat.le_trans (Nat.le_of_lt hclosed.lo_lt) hstate.lastStop_le)
          (hstate.token.inked_word hkind) htake
      · cases hkeyword
    · obtain ⟨rfl, rfl⟩ := Prod.mk.inj (Option.some.inj hrest)
      exact hclosed⟩

instance (condition : Bool) (name : String) :
    Keeps text dialect lo (acceptWordIf condition name) := by
  unfold acceptWordIf; infer_instance

/-- A mark that is taken is as good as the token before it. -/
theorem keeps_accept {mark : String} {last : Char} (hlast : mark.toList.getLast? = some last)
    (hink : isBlank last = false) : Keeps text dialect lo (accept mark) :=
  ⟨fun {state found after} hstate hclosed hrun => by
    rcases accept_eq_some hrun with ⟨rfl, hkind, htake⟩ | ⟨rfl, rfl⟩
    · exact closed_take hstate (Nat.le_trans (Nat.le_of_lt hclosed.lo_lt) hstate.lastStop_le)
        (hstate.token.inked_mark hkind hlast hink) htake
    · exact hclosed⟩

theorem closes_anyName : Closes text dialect lo anyName := by
  refine .token fun token htoken => ?_
  split
  · rename_i hkind
    exact .inr ⟨_, rfl, htoken.inked_word hkind, inferInstance⟩
  · exact .inl rfl

theorem keeps_endStatement : Keeps text dialect lo endStatement := by
  have hsemicolon : Keeps text dialect lo (accept ";") := keeps_accept rfl (by decide)
  unfold endStatement
  infer_instance

end Keep

/-! ## Lists -/

theorem closes_commaItems {close : String} {last : Char} {item : Reader Tree}
    [Places text dialect item]
    (hlast : close.toList.getLast? = some last) (hink : isBlank last = false) (fuel : Nat) :
    Closes text dialect lo (commaItems close item fuel) := by
  induction fuel with
  | zero => exact .failure
  | succ fuel ih =>
    refine .accept hlast hink (.after fun _ => .after fun _ => .before ih fun _ => ?_)
    infer_instance

/-! ## Ends of a production -/

/-- Whether a reader does what `Yields` says when a token that ends with a
character other than a blank was taken last. -/
structure Ends [Located α] (text : Text) (dialect : Dialect) (lo : Nat) (before : Landmarks)
    (reader : Reader α) (result : α → Landmarks) : Prop where
  ends : ∀ {state : ReaderState} {found : α} {after : ReaderState}, state.At text dialect →
    before.Placed text lo state.token.start → state.Closed text lo →
    reader state = some (found, after) →
    after.At text dialect ∧ (result found).Placed text lo after.token.start ∧
      Located.Regular text dialect found

section Ends

variable {before : Landmarks} [Located β] {result : β → Landmarks}

/-- A reader that closes goes before the end. -/
theorem Yields.closing [Located α] {reader : Reader α} {rest : α → Reader β}
    [first : Places text dialect reader] (hcloses : Closes text dialect lo reader)
    (h : ∀ found, Located.Regular text dialect found →
      Ends text dialect lo (before.join (Located.marks found)) (rest found) result) :
    Yields text dialect lo before (reader >>= rest) result := by
  refine ⟨fun {state found after} hstate hbefore hrun => ?_⟩
  obtain ⟨middle, between, hfirst, hrest⟩ := bind_eq_some hrun
  obtain ⟨hbetween, hmiddle, hregular⟩ := first.places hstate hfirst
  exact (h middle hregular).ends hbetween (hbefore.join hmiddle)
    (hcloses.closed hstate hbefore.le hfirst) hrest

/-- What keeps the end may follow. -/
theorem Ends.keep [Located α] {reader : Reader α} {rest : α → Reader β}
    [first : Places text dialect reader] (hkeeps : Keeps text dialect lo reader)
    (h : ∀ found, Ends text dialect lo before (rest found) result) :
    Ends text dialect lo before (reader >>= rest) result := by
  refine ⟨fun {state found after} hstate hbefore hclosed hrun => ?_⟩
  obtain ⟨middle, between, hfirst, hrest⟩ := bind_eq_some hrun
  obtain ⟨hbetween, hmiddle, -⟩ := first.places hstate hfirst
  exact (h middle).ends hbetween (hbefore.mono (Nat.le_refl _) hmiddle.le)
    (hkeeps.kept hstate hclosed hfirst) hrest

theorem Yields.ends {reader : Reader β} (h : Yields text dialect lo before reader result) :
    Ends text dialect lo before reader result :=
  ⟨fun hstate hbefore _ hrun => h.yields hstate hbefore hrun⟩

/-- A declaration covers everything from its start to the end. -/
theorem Ends.cover (hink : text.HasInk lo) {rest : Span → Reader β}
    (h : ∀ stop, Yields text dialect lo { imports := [.between lo stop] } (rest (.between lo stop))
      result) :
    Ends text dialect lo before (spanFrom lo >>= rest) result := by
  refine ⟨fun {state found after} hstate hbefore hclosed hrun => ?_⟩
  refine (h state.lastStop).yields hstate ?_ hrun
  have hstop : (Span.between lo state.lastStop).stop = state.lastStop :=
    Nat.max_eq_right (Nat.le_of_lt hclosed.lo_lt)
  refine ⟨hbefore.le, by simp, ?_, ?_, by simp, by simp [Landmarks.spans], by simp, by simp,
    by simp⟩
  · intro span hspan
    obtain rfl := List.mem_singleton.mp hspan
    exact ⟨Nat.le_refl _, hstop.symm ▸ hstate.lastStop_le⟩
  · intro span hspan
    obtain rfl := List.mem_singleton.mp hspan
    refine ⟨?_, hink, ?_, state.token.start, ?_, Nat.le_refl _, hclosed.unblank⟩
    · rw [hstop]
      exact hclosed.lo_lt
    · rw [hstop]
      exact hclosed.ink_stop
    · rw [hstop]
      exact hstate.lastStop_le

/-- A point before a word is no blank. -/
theorem Yields.pointWord {name : String} {rest : Nat → Unit → Reader β}
    (h : ∀ start, text.HasInk start →
      Yields text dialect lo (before.join (.point start)) (rest start ()) result) :
    Yields text dialect lo before (here >>= fun start => expectWord name >>= rest start)
      result := by
  refine ⟨fun {state found after} hstate hbefore hrun => ?_⟩
  obtain ⟨start, same, hhere, hrest⟩ := bind_eq_some hrun
  obtain ⟨rfl, rfl⟩ := Prod.mk.inj (Option.some.inj hhere)
  obtain ⟨⟨⟩, between, hexpect, -⟩ := bind_eq_some hrest
  have hink := (hstate.token.word _ _ (expectWord_eq_some hexpect)).ink_start
  exact (Yields.step fun _ => h state.token.start hink).yields hstate
    (hbefore.join (.point text _)) hrest

end Ends

end Reader

end SdkMigration
