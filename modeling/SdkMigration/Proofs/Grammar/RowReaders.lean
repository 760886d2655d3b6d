import SdkMigration.Program.Reading
import SdkMigration.Proofs.Grammar.TokenRows

/-!
# Readers on rows of tokens

What a reader does with a row of tokens, wherever it stands.  `Reader.Takes` says
that it takes some of the tokens and returns a result of which something holds, and
`Reader.Refuses` that it fails.  Positions do not matter for either, so results are
described up to their spans.  The rules for both follow a production step by step.
-/

namespace SdkMigration

/-- Whether a state stands before tokens of the given kinds in a module with types. -/
structure ReaderState.Faces (kinds : List TokenKind) (state : ReaderState) : Prop where
  types : state.dialect.types = true
  modules : state.dialect.modules = true
  heads : state.token.Heads kinds

/-- The first of some kinds of tokens, the end of the text standing behind them. -/
def frontKind (kinds : List TokenKind) : TokenKind := kinds.headD .endOfText

@[simp] theorem frontKind_cons (kind : TokenKind) (kinds : List TokenKind) :
    frontKind (kind :: kinds) = kind := rfl

@[simp] theorem frontKind_nil : frontKind [] = .endOfText := rfl

namespace ReaderState.Faces

variable {kind : TokenKind} {kinds : List TokenKind} {state : ReaderState}

theorem kind_eq (h : state.Faces kinds) : state.token.kind = frontKind kinds := h.heads.kind_eq

/-- The token behind the next one. -/
theorem second (h : state.Faces (kind :: kinds)) :
    (Token.scan state.token.stop state.token.rest).Heads kinds := by
  rw [Token.scan_eq]
  exact h.heads.2 _ _

end ReaderState.Faces

namespace Reader

/-- Whether a reader that stands before a row of tokens takes those before another
row and returns something good. -/
def Takes (reader : Reader α) (before after : List TokenKind) (good : α → Prop) : Prop :=
  ∀ state : ReaderState, state.Faces before →
    ∃ found next, reader state = some (found, next) ∧ next.Faces after ∧ good found

/-- Whether a reader fails before a row of tokens. -/
def Refuses (reader : Reader α) (before : List TokenKind) : Prop :=
  ∀ state : ReaderState, state.Faces before → reader state = none

variable {before middle after kinds : List TokenKind} {kind : TokenKind} {α β : Type}

/-! ## Rules -/

theorem bind_apply (reader : Reader α) (rest : α → Reader β) (state : ReaderState) :
    (reader >>= rest) state = (reader state).bind fun found => rest found.1 found.2 := rfl

theorem orElse_apply (first second : Reader α) (state : ReaderState) :
    (first <|> second) state = (first state).or (second state) := by
  change (first state <|> second state) = _
  cases first state <;> rfl

section Rules

variable {reader first second : Reader α} {rest : α → Reader β} {good weak : α → Prop}
  {goal : β → Prop}

theorem Takes.pure {found : α} (h : good found) :
    Takes (Pure.pure found) kinds kinds good :=
  fun state hstate => ⟨found, state, rfl, hstate, h⟩

theorem Takes.bind (hreader : Takes reader before middle good)
    (hrest : ∀ found, good found → Takes (rest found) middle after goal) :
    Takes (reader >>= rest) before after goal := by
  intro state hstate
  obtain ⟨found, next, hrun, hnext, hgood⟩ := hreader state hstate
  obtain ⟨result, last, hresult, hlast, hgoal⟩ := hrest found hgood next hnext
  refine ⟨result, last, ?_, hlast, hgoal⟩
  rw [bind_apply, hrun]
  exact hresult

theorem Takes.mono (h : Takes reader before after good)
    (hweak : ∀ found, good found → weak found) : Takes reader before after weak := by
  intro state hstate
  obtain ⟨found, next, hrun, hnext, hgood⟩ := h state hstate
  exact ⟨found, next, hrun, hnext, hweak found hgood⟩

theorem Takes.orElse_left (h : Takes first before after good) :
    Takes (first <|> second) before after good := by
  intro state hstate
  obtain ⟨found, next, hrun, hnext, hgood⟩ := h state hstate
  refine ⟨found, next, ?_, hnext, hgood⟩
  rw [orElse_apply, hrun, Option.some_or]

theorem Takes.orElse_right (hfirst : Refuses first before)
    (h : Takes second before after good) : Takes (first <|> second) before after good := by
  intro state hstate
  obtain ⟨found, next, hrun, hnext, hgood⟩ := h state hstate
  refine ⟨found, next, ?_, hnext, hgood⟩
  rw [orElse_apply, hfirst state hstate, Option.none_or, hrun]

theorem Refuses.bind_left (h : Refuses reader before) : Refuses (reader >>= rest) before := by
  intro state hstate
  rw [bind_apply, h state hstate]
  rfl

theorem Refuses.bind (hreader : Takes reader before middle good)
    (hrest : ∀ found, good found → Refuses (rest found) middle) :
    Refuses (reader >>= rest) before := by
  intro state hstate
  obtain ⟨found, next, hrun, hnext, hgood⟩ := hreader state hstate
  rw [bind_apply, hrun]
  exact hrest found hgood next hnext

theorem Refuses.orElse (hfirst : Refuses first before) (hsecond : Refuses second before) :
    Refuses (first <|> second) before := by
  intro state hstate
  rw [orElse_apply, hfirst state hstate, hsecond state hstate]
  rfl

theorem refuses_failure : Refuses (failure : Reader α) before := fun _ _ => rfl

end Rules

/-! ## Looking at tokens -/

theorem takes_get : Takes get kinds kinds fun state : ReaderState => state.Faces kinds :=
  fun state hstate => ⟨state, state, rfl, hstate, hstate⟩

theorem takes_peek : Takes peek kinds kinds fun token => token.kind = frontKind kinds :=
  takes_get.bind fun _ hstate => .pure hstate.kind_eq

theorem takes_peekSecond : Takes peekSecond (kind :: kinds) (kind :: kinds)
    fun token => token.kind = frontKind kinds := by
  intro state hstate
  exact ⟨_, state, rfl, hstate, hstate.second.kind_eq⟩

theorem takes_here : Takes here kinds kinds fun _ => True :=
  takes_peek.bind fun _ _ => .pure trivial

theorem takes_atNewline : Takes atNewline kinds kinds fun _ => True :=
  takes_peek.bind fun _ _ => .pure trivial

theorem takes_hasTypes : Takes hasTypes kinds kinds (· = true) :=
  takes_get.bind fun _ hstate => .pure hstate.types

theorem takes_spanFrom (start : Nat) : Takes (spanFrom start) kinds kinds fun _ => True :=
  takes_get.bind fun _ _ => .pure trivial

theorem takes_atMark (text : String) :
    Takes (atMark text) kinds kinds (· = (frontKind kinds).isMark text) :=
  takes_peek.bind fun _ hkind => .pure (by rw [hkind])

theorem takes_atWord (name : String) :
    Takes (atWord name) kinds kinds (· = (frontKind kinds).isKeyword name) :=
  takes_peek.bind fun _ hkind => .pure (by rw [hkind])

theorem takes_require {condition : Bool} (h : condition = true) :
    Takes (require condition) kinds kinds fun _ => True := by
  rw [h]
  exact .pure trivial

theorem refuses_require {condition : Bool} (h : condition = false) :
    Refuses (require condition) kinds := by
  rw [h]
  exact refuses_failure

/-! ## Taking tokens -/

theorem takes_take : Takes take (kind :: kinds) kinds fun _ => True := by
  intro state hstate
  exact ⟨(), _, rfl, ⟨hstate.types, hstate.modules, hstate.second⟩, trivial⟩

theorem takes_accept {text : String} (h : kind.isMark text = true) :
    Takes (accept text) (kind :: kinds) kinds (· = true) := by
  refine (takes_atMark text).bind fun found hfound => ?_
  rw [hfound, frontKind_cons, h, if_pos rfl]
  exact takes_take.bind fun _ _ => .pure rfl

theorem takes_accept_other {text : String} (h : (frontKind kinds).isMark text = false) :
    Takes (accept text) kinds kinds (· = false) := by
  refine (takes_atMark text).bind fun found hfound => ?_
  rw [hfound, h, if_neg Bool.false_ne_true]
  exact .pure rfl

theorem takes_acceptWord {name : String} (h : kind.isKeyword name = true) :
    Takes (acceptWord name) (kind :: kinds) kinds (· = true) := by
  refine (takes_atWord name).bind fun found hfound => ?_
  rw [hfound, frontKind_cons, h, if_pos rfl]
  exact takes_take.bind fun _ _ => .pure rfl

theorem takes_acceptWord_other {name : String}
    (h : (frontKind kinds).isKeyword name = false) :
    Takes (acceptWord name) kinds kinds (· = false) := by
  refine (takes_atWord name).bind fun found hfound => ?_
  rw [hfound, h, if_neg Bool.false_ne_true]
  exact .pure rfl

theorem takes_expect {text : String} (h : kind.isMark text = true) :
    Takes (expect text) (kind :: kinds) kinds fun _ => True :=
  (takes_accept h).bind fun _ hfound => takes_require hfound

theorem refuses_expect {text : String} (h : (frontKind kinds).isMark text = false) :
    Refuses (expect text) kinds :=
  .bind (takes_accept_other h) fun _ hfound => refuses_require hfound

theorem takes_expectWord {name : String} (h : kind.isKeyword name = true) :
    Takes (expectWord name) (kind :: kinds) kinds fun _ => True :=
  (takes_acceptWord h).bind fun _ hfound => takes_require hfound

theorem refuses_expectWord {name : String} (h : (frontKind kinds).isKeyword name = false) :
    Refuses (expectWord name) kinds :=
  .bind (takes_acceptWord_other h) fun _ hfound => refuses_require hfound

/-- A semicolon ends a statement. -/
theorem takes_endStatement : Takes endStatement (.mark ";" :: kinds) kinds fun _ => True := by
  refine (takes_accept rfl).bind fun found hfound => ?_
  rw [hfound, if_pos rfl]
  exact .pure trivial

/-! ## Names -/

theorem takes_anyName {name : String} {escaped : Bool} :
    Takes anyName (.word name escaped :: kinds) kinds (·.name = name) := by
  refine takes_peek.bind fun token hkind => ?_
  rw [frontKind_cons] at hkind
  simp only [hkind]
  exact takes_take.bind fun _ _ => .pure rfl

theorem takes_variableName {name : String} (h : reservedWords.contains name = false) :
    Takes variableName (.word name false :: kinds) kinds (·.name = name) := by
  refine takes_peek.bind fun token hkind => ?_
  refine (takes_require ?_).bind fun _ _ => takes_anyName
  rw [hkind, frontKind_cons, TokenKind.isName, h]
  rfl

theorem refuses_variableName (h : (frontKind kinds).isName = false) :
    Refuses variableName kinds :=
  .bind takes_peek fun _ hkind => .bind_left (refuses_require (by rw [hkind, h]))

theorem takes_stringLiteral {value : String} : Takes stringLiteral (.string value :: kinds) kinds
    fun tree => ∃ span, tree = .text value span := by
  refine takes_peek.bind fun token hkind => ?_
  rw [frontKind_cons] at hkind
  simp only [hkind]
  exact takes_take.bind fun _ _ => .pure ⟨_, rfl⟩

end Reader

end SdkMigration
