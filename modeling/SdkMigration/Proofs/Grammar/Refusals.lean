import SdkMigration.Proofs.Grammar.RowReaders

/-!
# States that no statement starts at

An import declaration is no statement.  The word `import` can start one, but only as the callee of
a call or before a dot, so a statement fails at any other `import` (`Grammar.statement_none`).  It
fails at characters that are no token as well.  Where a dialect has no modules, every item of a
program is a statement, so no item starts there either (`Grammar.reader_moduleItem_none`).

The word is passed down from the statement to the primary expression, and every production on the
way gives up as soon as the one below it does.
-/

namespace SdkMigration

open Reader

/-- The state behind the next token. -/
def ReaderState.behind (state : ReaderState) : ReaderState :=
  { state with
    token := Token.scan state.token.stop state.token.rest
    lastStop := state.token.stop }

/-- Whether no statement starts at a state: the next token is the `import` of a declaration, which
neither a bracket nor a dot follows, or it is no token. -/
inductive ReaderState.Stuck (state : ReaderState) : Prop where
  | declaration (word : state.token.kind = .word "import" false)
    (call : state.behind.token.kind.isMark "(" = false)
    (property : state.behind.token.kind.isMark "." = false)
  | invalid (kind : state.token.kind = .invalid)

namespace Reader

variable {α β : Type} {reader : Reader α} {rest : α → Reader β} {state next : ReaderState}
  {found : α}

/-! ## Single steps -/

theorem bind_of (h : reader state = some (found, next)) :
    (reader >>= rest) state = rest found next := by
  rw [bind_apply, h]
  rfl

theorem bind_none (h : reader state = none) : (reader >>= rest) state = none := by
  rw [bind_apply, h]
  rfl

theorem get_apply : (get : Reader ReaderState) state = some (state, state) := rfl

theorem peek_apply : peek state = some (state.token, state) := rfl

theorem peekSecond_apply : peekSecond state = some (state.behind.token, state) := rfl

theorem here_apply : here state = some (state.token.start, state) := rfl

theorem hasTypes_apply : hasTypes state = some (state.dialect.types, state) := rfl

theorem surroundings_apply : surroundings state = some (state.surroundings, state) := rfl

theorem atMark_apply {text : String} :
    atMark text state = some (state.token.kind.isMark text, state) := rfl

theorem atWord_apply {name : String} :
    atWord name state = some (state.token.kind.isKeyword name, state) := rfl

theorem leafFrom_apply {kind : LeafKind} {start : Nat} :
    leafFrom kind start state = some (.leaf kind (Span.between start state.lastStop), state) := rfl

theorem accept_other {text : String} (h : state.token.kind.isMark text = false) :
    accept text state = some (false, state) := by
  rw [accept, bind_of atMark_apply, h]
  rfl

theorem expect_none {text : String} (h : state.token.kind.isMark text = false) :
    expect text state = none := by
  rw [expect, bind_of (accept_other h)]
  rfl

theorem expectWord_of {name : String} (h : state.token.kind.isKeyword name = true) :
    expectWord name state = some ((), state.behind) := by
  rw [expectWord, acceptWord, bind_apply, bind_of atWord_apply, h]
  rfl

theorem expectWord_none {name : String} (h : state.token.kind.isKeyword name = false) :
    expectWord name state = none := by
  rw [expectWord, acceptWord, bind_apply, bind_of atWord_apply, h]
  rfl

theorem variableName_none (h : state.token.kind.isName = false) : variableName state = none := by
  rw [variableName, bind_of peek_apply, h]
  rfl

end Reader

namespace Grammar

variable {g : Grammar} {state : ReaderState}

/-! ## Expressions -/

theorem importExpression_none (hword : state.token.kind.isKeyword "import" = true)
    (hcall : state.behind.token.kind.isMark "(" = false)
    (hproperty : state.behind.token.kind.isMark "." = false) :
    importExpression g state = none := by
  have hnoProperty : importProperty state.behind = some (none, state.behind) := by
    rw [importProperty, bind_of (accept_other hproperty)]
    rfl
  have hphase : require (Option.all importPhases.contains none) state.behind =
      some ((), state.behind) := rfl
  have harguments : callArguments g state.behind = none := bind_none (expect_none hcall)
  rw [importExpression, bind_of here_apply, bind_of (expectWord_of hword),
    bind_of leafFrom_apply, bind_of hnoProperty]
  exact (bind_of hphase).trans (bind_none harguments)

theorem atAsyncFunction_other (h : state.token.kind.isKeyword "async" = false) :
    atAsyncFunction state = some (false, state) := by
  rw [atAsyncFunction, bind_of peekSecond_apply, bind_of atWord_apply, h]
  rfl

theorem primary_none (h : state.Stuck) : primary g state = none := by
  rw [primary, bind_of peek_apply]
  rcases h with ⟨hkind, hcall, hproperty⟩ | hkind
  · have hfunction := @atAsyncFunction_other state (by rw [hkind]; rfl)
    have himport := @importExpression_none g state (by rw [hkind]; rfl) hcall hproperty
    simp only [hkind, Bool.false_eq_true, if_false]
    rw [wordExpression, bind_of here_apply, bind_of hfunction]
    exact himport
  · rw [hkind]
    rfl

theorem leftHandSide_none (h : state.Stuck) : leftHandSide g state = none := by
  have hnew : state.token.kind.isKeyword "new" = false := by
    rcases h with ⟨hkind, -, -⟩ | hkind <;> rw [hkind] <;> rfl
  rw [leftHandSide, bind_of here_apply, bind_of atWord_apply, hnew]
  exact bind_none (primary_none h)

theorem unary_none (h : state.Stuck) (hread : g.read .leftHandSide state = none) :
    unary g state = none := by
  have hstepped : stepped g state = none := by
    rw [stepped, bind_of here_apply]
    exact bind_none hread
  have hplain : isUnaryOperator state.token.kind = false ∧ isStep state.token.kind = false ∧
      state.token.kind.isKeyword "await" = false ∧ state.token.kind.isMark "<" = false := by
    rcases h with ⟨hkind, -, -⟩ | hkind <;> rw [hkind] <;> decide
  obtain ⟨hoperator, hstep, hawait, hangle⟩ := hplain
  rw [unary, bind_of here_apply, bind_of peek_apply]
  simp only [hoperator, hstep, hawait, hangle, Bool.false_eq_true, if_false]
  rw [bind_of hasTypes_apply, Bool.and_false]
  exact hstepped

theorem conditional_none (h : state.Stuck) (hread : g.read .unary state = none) :
    conditional g state = none := by
  have hlone : atLoneOperator state = some (false, state) := by
    rw [atLoneOperator, bind_of get_apply]
    rcases h with ⟨hkind, -, -⟩ | hkind <;> rw [hkind] <;> rfl
  have hbinary : binary g state = none := by
    rw [binary, bind_of here_apply, bind_of hlone]
    exact bind_none hread
  rw [conditional, bind_of here_apply]
  exact bind_none hbinary

theorem arrow_none (h : state.token.kind = .word "import" false) : arrow g state = none := by
  have hbare : bareArrow g state.token.start state = none :=
    bind_none (variableName_none (by rw [h]; rfl))
  have hasync : asyncArrow g state.token.start state = none :=
    bind_none (expectWord_none (by rw [h]; rfl))
  rw [arrow, bind_of here_apply, bind_of peekSecond_apply, bind_of peek_apply,
    if_pos (by rw [h]; rfl), orElse_apply, hasync, Option.or_none]
  cases hmark : state.behind.token.kind.isMark "=>" with
  | true => exact (bind_of rfl).trans hbare
  | false => exact bind_none rfl

theorem assignment_none (h : state.Stuck) (hread : g.read .unary state = none) :
    assignment g state = none := by
  have hyield : state.token.kind.isKeyword "yield" = false := by
    rcases h with ⟨hkind, -, -⟩ | hkind <;> rw [hkind] <;> rfl
  have hplain : plainAssignment g state = none := by
    rw [plainAssignment, bind_of here_apply, bind_of get_apply]
    exact bind_none (conditional_none h hread)
  -- An arrow behind the word makes it look like a parameter, which it cannot be.
  have hat : ∃ found, atArrow g state = some (found, state) ∧
      (found = true → arrow g state = none) := by
    rw [atArrow, bind_of hasTypes_apply, bind_of peek_apply]
    rcases h with ⟨hkind, -, -⟩ | hkind
    · rw [hkind]
      exact ⟨_, bind_of peekSecond_apply, fun _ => arrow_none hkind⟩
    · rw [hkind]
      exact ⟨false, rfl, nofun⟩
  obtain ⟨found, hfound, harrow⟩ := hat
  rw [assignment, bind_of surroundings_apply, bind_of atWord_apply, hyield, Bool.and_false,
    if_neg Bool.false_ne_true, bind_of hfound]
  cases found with
  | false => exact hplain
  | true =>
    rw [if_pos rfl, orElse_apply, harrow rfl, hplain]
    rfl

/-! ## Statements -/

theorem expressionStatement_none (hread : g.read .assignment state = none) (start : Nat) :
    expressionStatement g start state = none := by
  have hexpression : expression g state = none := by
    rw [expression, bind_of here_apply]
    exact bind_none hread
  exact bind_none hexpression

theorem atClass_other (h : state.token.kind = .word "import" false) :
    atClass state = some (false, state) := by
  rw [atClass, bind_of peekSecond_apply, bind_of atWord_apply, bind_of hasTypes_apply,
    bind_of atWord_apply, h]
  cases state.dialect.types <;> rfl

theorem atDeclaration_other (h : state.token.kind = .word "import" false) :
    atDeclaration state = some (false, state) := by
  rw [atDeclaration, bind_of atWord_apply, bind_of (atAsyncFunction_other (by rw [h]; rfl)),
    bind_of (atClass_other h), bind_of atMark_apply, h]
  rfl

theorem typedDeclaration_other (h : state.token.kind = .word "import" false) :
    typedDeclaration? g state = some (none, state) := by
  rw [typedDeclaration?, bind_of hasTypes_apply, bind_of peek_apply, bind_of peekSecond_apply, h]
  cases state.dialect.types <;> rfl

theorem ahead_variableKeyword_other (h : state.token.kind = .word "import" false) :
    ahead variableKeyword state = some (false, state) := by
  have hnone : variableKeyword state = none := by
    rw [variableKeyword, bind_of peek_apply, bind_of peekSecond_apply, h]
    rfl
  rw [ahead, hnone]
  rfl

theorem plainStatement_none (h : state.Stuck) (hread : g.read .assignment state = none)
    (start : Nat) : plainStatement g start state = none := by
  have hexpression := expressionStatement_none hread start
  rw [plainStatement, bind_of peek_apply, bind_of peekSecond_apply]
  rcases h with ⟨hkind, -, -⟩ | hkind
  · have hname : state.token.kind.isName = false := by rw [hkind]; rfl
    have hambient : ((state.dialect.types && "import" == "declare") &&
        state.behind.token.kind.isWord && !state.behind.token.newlineBefore) = false := by
      cases state.dialect.types <;> rfl
    rw [hname, Bool.and_false, hkind]
    -- No statement has a keyword of its own that is `import`, so the declarations are tried.
    show (atDeclaration >>= _) state = none
    rw [bind_of (atDeclaration_other hkind), if_neg Bool.false_ne_true, bind_of hasTypes_apply,
      hambient, if_neg Bool.false_ne_true, bind_of (typedDeclaration_other hkind)]
    exact (bind_of (ahead_variableKeyword_other hkind)).trans hexpression
  · rw [hkind]
    exact hexpression

theorem statement_none (h : state.Stuck) (hread : g.read .assignment state = none) :
    statement g state = none := by
  rw [statement, bind_of here_apply]
  exact bind_none (plainStatement_none h hread _)

/-! ## Items without modules -/

/-- Without modules an item is a statement. -/
theorem moduleItem_of_script (hmodules : state.dialect.modules = false) :
    moduleItem g state = g.read .statement state := by
  rw [moduleItem, bind_of get_apply, bind_of peekSecond_apply, hmodules]
  rfl

/-- A nonterminal fails on every bound of the nesting if its production does. -/
theorem reader_none (nonterminal : Nonterminal)
    (h : ∀ fuel, production ⟨fuel, reader fuel⟩ nonterminal state = none) (fuel : Nat) :
    reader fuel nonterminal state = none := by
  cases fuel with
  | zero => rfl
  | succ fuel => exact h fuel

theorem reader_statement_none (h : state.Stuck) (fuel : Nat) :
    reader fuel .statement state = none := by
  have hleft : ∀ fuel, reader fuel .leftHandSide state = none :=
    reader_none .leftHandSide fun _ => leftHandSide_none h
  have hunary : ∀ fuel, reader fuel .unary state = none :=
    reader_none .unary fun fuel => unary_none h (hleft fuel)
  have hassignment : ∀ fuel, reader fuel .assignment state = none :=
    reader_none .assignment fun fuel => assignment_none h (hunary fuel)
  exact reader_none .statement (fun fuel => statement_none h (hassignment fuel)) fuel

theorem reader_moduleItem_none (h : state.Stuck) (hmodules : state.dialect.modules = false)
    (fuel : Nat) : reader fuel .moduleItem state = none :=
  reader_none .moduleItem
    (fun fuel => (moduleItem_of_script hmodules).trans (reader_statement_none h fuel)) fuel

end Grammar

end SdkMigration
