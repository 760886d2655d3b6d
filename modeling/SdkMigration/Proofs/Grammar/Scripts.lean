import SdkMigration.Proofs.Grammar.Gaps
import SdkMigration.Proofs.Grammar.Programs
import SdkMigration.Proofs.Grammar.Refusals
import SdkMigration.Proofs.ModuleImports

/-!
# Scripts

A script is a program in a dialect without modules, so each of its items is a statement, and it
imports nothing (`Program.moduleImports_of_script`).  Its first item starts with the first token
behind a gap.  Another token can take that place, and if it is the `import` of a declaration, then
no statement starts there and the text is no script any more (`Program.read?_prepended`).
-/

namespace SdkMigration

open Reader

namespace Token

variable {position : Nat} {chars before : List Char}

theorem scan_start : (scan position chars).start =
    (skipGap .blank 0 position (position == 0) none chars).start := by
  unfold scan
  simp only
  split
  · exact read_start _ _ _ _
  · rfl

/-- A gap that reaches the end of the text has no token behind it. -/
theorem scan_of_rest_eq_nil
    (h : (skipGap .blank 0 position (position == 0) none chars).rest = []) :
    (scan position chars).kind = .endOfText ∨ (scan position chars).kind = .invalid := by
  unfold scan
  simp only
  split
  · rw [h]
    exact Or.inl rfl
  · exact Or.inr rfl

/-- What fills the gap before a token can stand before another one. -/
theorem scan_of_fills (h : Fills .blank 0 position (position == 0) before chars) {first : Char}
    (hfirst : Starts first) (more : List Char) :
    ∃ newline, scan position (before ++ first :: more) =
      read (position + before.length) newline (position + before.length) (first :: more) := by
  obtain ⟨newline, hother⟩ := h.other first more hfirst
  refine ⟨newline, ?_⟩
  unfold scan
  rw [hother]
  rfl

end Token

/-- A text that starts like the import of a whole module. -/
def importAll (more : Text) : Text := "import".toList ++ ' ' :: '*' :: ' ' :: more

theorem importAll_append (more rest : Text) :
    importAll more ++ rest = importAll (more ++ rest) := by
  simp [importAll]

private theorem isWord_import : isWord "import" = true := by decide +kernel

/-- What the import of a whole module starts with is a word and a star. -/
theorem ReaderState.stuck_of_importAll {state : ReaderState} {start position : Nat} {newline : Bool}
    {more : Text} (h : state.token = Token.read start newline position (importAll more)) :
    state.Stuck := by
  have hapart : Apart (' ' :: '*' :: ' ' :: more) := by
    intro c hc
    obtain rfl := Option.some.inj hc
    decide +kernel
  have hstar : '*' ∈ Lexes.rowMarks := by decide
  have hmark : Token.mark? ('*' :: ' ' :: more) = some (String.singleton '*') := by
    simp [Token.mark?, Token.marksFrom]
  obtain ⟨hkind, hrest⟩ := Lexes.read_word isWord_import hapart start newline position
  change (Token.read start newline position (importAll more)).kind = _ at hkind
  change (Token.read start newline position (importAll more)).rest = _ at hrest
  rw [← h] at hkind hrest
  have hbehind : state.behind.token.kind = .mark "*" := by
    show (Token.scan state.token.stop state.token.rest).kind = _
    obtain ⟨other, hblank⟩ := Token.skipGap_blank (c := ' ') (by decide) ('*' :: ' ' :: more)
      state.token.stop (state.token.stop == 0)
    rw [hrest, Token.scan]
    simp only [hblank, Token.skipGap_starts (Lexes.starts_of_rowMark hstar)]
    exact (Lexes.read_mark hstar hmark _ _ _).1
  exact .declaration hkind (by rw [hbehind]; rfl) (by rw [hbehind]; rfl)

namespace Grammar

variable {state after : ReaderState} {item : Tree}

/-- Without modules an item is a statement. -/
theorem statement_of_moduleItem (hmodules : state.dialect.modules = false) {fuel : Nat}
    (h : reader fuel .moduleItem state = some (item, after)) :
    ∃ g, statement g state = some (item, after) := by
  cases fuel with
  | zero => cases h
  | succ fuel =>
    have hitem : reader fuel .statement state = some (item, after) :=
      (@moduleItem_of_script ⟨fuel, reader fuel⟩ state hmodules).symm.trans h
    cases fuel with
    | zero => cases hitem
    | succ fuel => exact ⟨⟨fuel, reader fuel⟩, hitem⟩

/-- A statement starts where the token does that comes next. -/
theorem start_of_statement {g : Grammar} (h : statement g state = some (item, after)) :
    item.start = state.token.start := by
  rw [statement, bind_of here_apply] at h
  obtain ⟨inner, between, -, hpure⟩ := bind_eq_some h
  rw [← (Prod.mk.inj (Option.some.inj hpure)).1]
  rfl

end Grammar

/-! ## Statements import nothing -/

/-- Whether a tree is no declaration that imports a module. -/
def Tree.ImportsNothing : Tree → Prop
  | .importDeclaration _ => False
  | .importEquals _ _ => False
  | _ => True

theorem Tree.ImportsNothing.moduleImport?_eq {tree : Tree} (h : tree.ImportsNothing)
    (kind : AnchorKind) (start : Nat) (module : String) :
    (Tree.anchored kind start tree).moduleImport? module = none := by
  cases tree with
  | importDeclaration found => exact h.elim
  | importEquals header source => exact h.elim
  | _ => rfl

namespace Grammar

section Statements

variable {g : Grammar} {start : Nat} {marks : List Tree}

theorem branchFrom_importsNothing {kind : BranchKind} {children : List Tree} :
    Returns Tree.ImportsNothing (branchFrom kind start children) := .bind fun _ => .pure trivial

theorem leafFrom_importsNothing {kind : LeafKind} :
    Returns Tree.ImportsNothing (leafFrom kind start) := .bind fun _ => .pure trivial

theorem block_importsNothing : Returns Tree.ImportsNothing (block g) :=
  .bind fun _ => .bind fun _ => .bind fun _ => branchFrom_importsNothing

theorem variableStatement_importsNothing : Returns Tree.ImportsNothing (variableStatement g) := by
  have hdeclaration : Returns Tree.ImportsNothing (variableDeclaration g) :=
    .bind fun _ => .bind fun _ => .bind fun _ => branchFrom_importsNothing
  exact Returns.bindOf hdeclaration fun _ hfound => .bind fun _ => .pure hfound

theorem namespaceDeclaration_importsNothing :
    Returns Tree.ImportsNothing (namespaceDeclaration g) := by
  refine .bind fun start => .bind fun _ => .ite ?_ (.bind fun _ => .bind fun token => ?_)
  · exact .bind fun _ => .bind fun _ => branchFrom_importsNothing
  · split
    · exact .bind fun _ => .bind fun _ => branchFrom_importsNothing
    · cases g.fuel with
      | zero => exact .failure
      | succ fuel =>
        exact .bind fun _ => .bind fun _ => .bind fun _ => branchFrom_importsNothing

/-- Whether a reader that was chosen by looking ahead reads nothing that imports a module. -/
def ChoosesPlain (found : Option (Reader Tree)) : Prop :=
  ∀ reader ∈ found, Returns Tree.ImportsNothing reader

theorem ChoosesPlain.nothing : ChoosesPlain none := fun _ h => absurd h (Option.not_mem_none _)

theorem ChoosesPlain.reader {reader : Reader Tree} (h : Returns Tree.ImportsNothing reader) :
    ChoosesPlain (some reader) := fun _ hchosen => Option.some.inj hchosen ▸ h

theorem ChoosesPlain.ite {condition : Prop} [Decidable condition] {first : Reader Tree}
    {others : Option (Reader Tree)} (hfirst : Returns Tree.ImportsNothing first)
    (hothers : ChoosesPlain others) : ChoosesPlain (if condition then some first else others) := by
  split
  · exact .reader hfirst
  · exact hothers

/-- The declarations that only dialects with types have import nothing. -/
theorem typedDeclaration_importsNothing : Returns ChoosesPlain (typedDeclaration? g) := by
  have hinterface : Returns Tree.ImportsNothing (interface g) :=
    .bind fun _ => .bind fun _ => .bind fun _ => .bind fun _ => .bind fun _ => .bind fun _ =>
      branchFrom_importsNothing
  have halias : Returns Tree.ImportsNothing (typeAlias g) :=
    .bind fun _ => .bind fun _ => .bind fun _ => .bind fun _ => .bind fun _ => .bind fun _ =>
      .bind fun _ => branchFrom_importsNothing
  have henum : Returns Tree.ImportsNothing (enumDeclaration g) :=
    .bind fun _ => .bind fun _ => .bind fun _ => .bind fun _ => .bind fun _ => .pure trivial
  have hnamespace : Returns ChoosesPlain (pure (some (namespaceDeclaration g))) :=
    .pure (.reader namespaceDeclaration_importsNothing)
  refine .bind fun types => .bind fun token => .bind fun second => .ite (.pure .nothing) ?_
  refine .ite (.pure (.reader hinterface)) (.ite (.pure (.reader halias)) ?_)
  refine .ite (.pure (.reader henum)) (.ite hnamespace (.ite hnamespace ?_))
  exact .ite hnamespace (.pure .nothing)

theorem declaration_importsNothing : Returns Tree.ImportsNothing (declaration g marks) := by
  have hfunction : Returns Tree.ImportsNothing (functionDeclaration g) :=
    .bind fun _ => .bind fun _ => .bind fun _ => .pure trivial
  have hclass : ∀ marks, Returns Tree.ImportsNothing (classDeclaration g marks) :=
    fun _ => .bind fun _ => .bind fun _ => .bind fun _ => .pure trivial
  refine .bind fun more => .bind fun _ => .bind fun _ => .ite hfunction (.bind fun _ => ?_)
  refine .ite (hclass _) (Returns.bindOf typedDeclaration_importsNothing fun found hfound => ?_)
  split
  · exact hfound _ rfl
  · exact variableStatement_importsNothing

theorem ambientDeclaration_importsNothing :
    Returns Tree.ImportsNothing (ambientDeclaration g marks) :=
  .bind fun _ => .bind fun _ => .bind fun _ => .bind fun _ => .bind fun _ =>
    declaration_importsNothing

theorem exitStatement_importsNothing {kind : BranchKind} {needed : Bool} :
    Returns Tree.ImportsNothing (exitStatement g start kind needed) :=
  .bind fun _ => .bind fun _ => .bind fun _ => .bind fun _ => .bind fun _ =>
    branchFrom_importsNothing

/-- The statements that start with a reserved word import nothing. -/
theorem keywordStatement_importsNothing (name : String) :
    ChoosesPlain (keywordStatement g start name) := by
  have hif : Returns Tree.ImportsNothing (ifStatement g start) :=
    .bind fun _ => .bind fun _ => .bind fun _ => .bind fun _ => .bind fun _ =>
      branchFrom_importsNothing
  have hfor : Returns Tree.ImportsNothing (forStatement g start) :=
    .bind fun _ => .bind fun _ => .bind fun _ => .bind fun _ => .bind fun _ =>
      branchFrom_importsNothing
  have hwhile : Returns Tree.ImportsNothing (whileStatement g start) :=
    .bind fun _ => .bind fun _ => .bind fun _ => branchFrom_importsNothing
  have hdo : Returns Tree.ImportsNothing (doStatement g start) :=
    .bind fun _ => .bind fun _ => .bind fun _ => .bind fun _ => .bind fun _ =>
      branchFrom_importsNothing
  have hswitch : Returns Tree.ImportsNothing (switchStatement g start) :=
    .bind fun _ => .bind fun _ => .bind fun _ => .bind fun _ => branchFrom_importsNothing
  have htry : Returns Tree.ImportsNothing (tryStatement g start) :=
    .bind fun _ => .bind fun _ => .bind fun _ => .bind fun _ => .bind fun _ => .bind fun _ =>
      .bind fun _ => branchFrom_importsNothing
  have hjump : Returns Tree.ImportsNothing (jumpStatement start) :=
    .bind fun _ => .bind fun _ => .bind fun _ => .bind fun _ => .bind fun _ =>
      branchFrom_importsNothing
  unfold keywordStatement
  refine .ite hif (.ite hfor (.ite hwhile (.ite hdo (.ite hswitch (.ite htry ?_)))))
  refine .ite exitStatement_importsNothing (.ite exitStatement_importsNothing ?_)
  refine .ite hjump (.ite ?_ (.ite ?_ .nothing))
  · exact .bind fun _ => .bind fun _ => .bind fun _ => branchFrom_importsNothing
  · exact .bind fun _ => .bind fun _ => leafFrom_importsNothing

theorem expressionStatement_importsNothing :
    Returns Tree.ImportsNothing (expressionStatement g start) :=
  .bind fun _ => .bind fun _ => branchFrom_importsNothing

/-- No statement is a declaration that imports a module. -/
theorem plainStatement_importsNothing : Returns Tree.ImportsNothing (plainStatement g start) := by
  refine .bind fun token => .bind fun second => ?_
  split
  · exact block_importsNothing
  · exact .bind fun _ => leafFrom_importsNothing
  · exact .bind fun _ => .bind fun _ => .bind fun _ =>
      .ite ambientDeclaration_importsNothing declaration_importsNothing
  · refine .ite ?_ (.ite expressionStatement_importsNothing ?_)
    · exact .bind fun _ => .bind fun _ => .bind fun _ => branchFrom_importsNothing
    split
    · exact keywordStatement_importsNothing _ _ ‹_›
    · refine .bind fun _ => .ite declaration_importsNothing (.bind fun _ => ?_)
      refine .ite ambientDeclaration_importsNothing ?_
      refine Returns.bindOf typedDeclaration_importsNothing fun found hfound => ?_
      split
      · exact hfound _ rfl
      · exact .bind fun _ =>
          .ite variableStatement_importsNothing expressionStatement_importsNothing
  · exact expressionStatement_importsNothing

theorem statement_importsNothing (module : String) :
    Returns (fun item => item.moduleImport? module = none) (statement g) :=
  .bind fun _ => Returns.bindOf plainStatement_importsNothing fun _ hinner =>
    .pure (hinner.moduleImport?_eq _ _ _)

end Statements

end Grammar

namespace Program

variable {dialect : Dialect} {text : Text} {program : Program}

/-- The state in front of a text. -/
def front (dialect : Dialect) (text : Text) : ReaderState :=
  { token := Token.scan (afterInterpreterLine text) (text.drop (afterInterpreterLine text))
    lastStop := 0
    dialect
    surroundings := {} }

theorem at_front (dialect : Dialect) (text : Text) : (front dialect text).At text dialect :=
  ⟨(Token.scan_at (afterInterpreterLine_le text)).1, Nat.zero_le _, rfl⟩

theorem read?_eq (dialect : Dialect) (text : Text) : read? dialect text =
    (readItems (Grammar.reader (Grammar.fuelFor text.length) .moduleItem)
      (Grammar.fuelFor text.length) (front dialect text)).map fun found => ⟨found.1⟩ := by
  show (readItems _ _ (front dialect text) >>= _) = _
  cases readItems (Grammar.reader (Grammar.fuelFor text.length) .moduleItem)
    (Grammar.fuelFor text.length) (front dialect text) <;> rfl

/-- A text that starts with what no statement starts with is no script. -/
theorem read?_of_stuck (h : (front dialect text).Stuck) (hmodules : dialect.modules = false) :
    read? dialect text = none := by
  have hitem := Grammar.reader_moduleItem_none h hmodules (Grammar.fuelFor text.length)
  have hend : ((front dialect text).token.kind == .endOfText) = false := by
    rcases h with ⟨hkind, -, -⟩ | hkind <;> rw [hkind] <;> rfl
  have hitems : ∀ fuel, readItems (Grammar.reader (Grammar.fuelFor text.length) .moduleItem) fuel
      (front dialect text) = none := by
    intro fuel
    cases fuel with
    | zero => rfl
    | succ fuel =>
      rw [readItems, bind_of peek_apply, hend, if_neg Bool.false_ne_true]
      exact bind_none hitem
  rw [read?_eq, hitems]
  rfl

/-- What holds of each item that is read in a dialect holds of all of them. -/
theorem forall_of_readItems {item : Reader Tree} [places : Places text dialect item]
    {p : Tree → Prop}
    (hitem : ∀ {state after : ReaderState} {found : Tree}, state.dialect = dialect →
      item state = some (found, after) → p found)
    (fuel : Nat) {state after : ReaderState} {items : List Tree} (hstate : state.At text dialect)
    (hrun : readItems item fuel state = some (items, after)) : ∀ found ∈ items, p found := by
  induction fuel generalizing state items with
  | zero => cases hrun
  | succ fuel ih =>
    rw [readItems, bind_of peek_apply] at hrun
    split at hrun
    · obtain ⟨rfl, rfl⟩ := Prod.mk.inj (Option.some.inj hrun)
      exact nofun
    · obtain ⟨first, between, hfirst, hmore⟩ := bind_eq_some hrun
      obtain ⟨others, behind, hothers, hpure⟩ := bind_eq_some hmore
      obtain ⟨rfl, rfl⟩ := Prod.mk.inj (Option.some.inj hpure)
      exact List.forall_mem_cons.mpr ⟨hitem hstate.dialect_eq hfirst,
        ih (places.places hstate hfirst).1 hothers⟩

/-- A script imports nothing. -/
theorem moduleImports_of_script (hmodules : dialect.modules = false)
    (hread : read? dialect text = some program) (module : String) :
    program.moduleImports module = [] := by
  rw [read?_eq] at hread
  obtain ⟨⟨items, after⟩, hitems, rfl⟩ := Option.map_eq_some_iff.mp hread
  refine List.filterMap_eq_nil_iff.mpr ?_
  refine forall_of_readItems (fun hstate hitem => ?_) _ (at_front dialect text) hitems
  obtain ⟨g, hstatement⟩ := Grammar.statement_of_moduleItem (hstate.symm ▸ hmodules) hitem
  exact Grammar.statement_importsNothing module _ _ _ hstatement

section Items

variable {first : Tree} {others : List Tree}

/-- The items of a program are read one behind the other from its front. -/
theorem exists_of_read (hread : read? dialect text = some ⟨first :: others⟩) :
    ∃ fuel bound between after, readItems (Grammar.reader fuel .moduleItem) (bound + 1)
        (front dialect text) = some (first :: others, after) ∧
      ((front dialect text).token.kind == .endOfText) = false ∧
      Grammar.reader fuel .moduleItem (front dialect text) = some (first, between) := by
  rw [read?_eq] at hread
  obtain ⟨⟨items, after⟩, hitems, hprogram⟩ := Option.map_eq_some_iff.mp hread
  obtain rfl : items = first :: others := congrArg Program.items hprogram
  obtain ⟨bound, hbound⟩ : ∃ bound, Grammar.fuelFor text.length = bound + 1 :=
    Nat.exists_eq_succ_of_ne_zero (by unfold Grammar.fuelFor; omega)
  rw [hbound] at hitems
  have hsplit := hitems
  rw [readItems, bind_of peek_apply] at hsplit
  split at hsplit
  · cases hsplit
  · rename_i hkind
    obtain ⟨item, between, hitem, hrest⟩ := bind_eq_some hsplit
    obtain ⟨more, last, -, hpure⟩ := bind_eq_some hrest
    obtain ⟨rfl, rfl⟩ := List.cons.inj (Prod.mk.inj (Option.some.inj hpure)).1
    exact ⟨bound + 1, bound, between, after, hitems, Bool.eq_false_iff.mpr hkind, hitem⟩

variable (hmodules : dialect.modules = false) (hread : read? dialect text = some ⟨first :: others⟩)
include hmodules hread

/-- The first item of a script starts with the first token. -/
theorem start_of_first : first.start = (front dialect text).token.start := by
  obtain ⟨fuel, bound, between, after, -, -, hitem⟩ := exists_of_read hread
  obtain ⟨g, hstatement⟩ := Grammar.statement_of_moduleItem hmodules hitem
  exact Grammar.start_of_statement hstatement

/-- The first token of a script stands behind a gap. -/
theorem rest_of_first :
    (Token.skipGap .blank 0 (afterInterpreterLine text) (afterInterpreterLine text == 0) none
      (text.drop (afterInterpreterLine text))).rest ≠ [] := by
  obtain ⟨fuel, bound, between, after, -, hkind, -⟩ := exists_of_read hread
  intro hnone
  rcases Token.scan_of_rest_eq_nil hnone with hend | hinvalid
  · rw [beq_eq_false_iff_ne] at hkind
    exact hkind hend
  · rw [read?_of_stuck (.invalid hinvalid) hmodules] at hread
    cases hread

/-- No item of a script lies before the start of the first one. -/
theorem itemsPlaced_from_first :
    ∃ stop, ItemsPlaced text first.start (first :: others) stop := by
  obtain ⟨fuel, bound, between, after, hitems, -, -⟩ := exists_of_read hread
  rw [start_of_first hmodules hread]
  exact ⟨_, (itemsPlaced_of_readItems _ (at_front dialect text) hitems).2⟩

/-- A script that comes to have an import of a whole module before its first item is no script any
more. -/
theorem read?_prepended (more : Text) :
    read? dialect (text.take first.start ++ importAll more) = none := by
  have hrest := rest_of_first hmodules hread
  obtain ⟨before, hfills⟩ := Token.exists_fills hrest
  have hletter : Token.Starts 'i' := by
    obtain ⟨first, others, hlist, hstarts⟩ := Lexes.starts_of_isWord isWord_import
    obtain ⟨rfl, -⟩ := List.cons.inj hlist
    exact hstarts
  obtain ⟨behind, hbehind⟩ := hfills.front
  have hplace : first.start = afterInterpreterLine text + before.length := by
    rw [start_of_first hmodules hread, ← hfills.start]
    exact Token.scan_start
  have htake : text.take first.start = text.take (afterInterpreterLine text) ++ before := by
    rw [hplace, List.take_add, ← hbehind, List.take_left]
  have hlength : (text.take (afterInterpreterLine text)).length = afterInterpreterLine text :=
    List.length_take_of_le (afterInterpreterLine_le text)
  generalize hwritten : text.take first.start ++ importAll more = written
  rw [htake, List.append_assoc] at hwritten
  have hline : afterInterpreterLine written = afterInterpreterLine text := by
    rw [← hwritten]
    exact afterInterpreterLine_prepended (by decide) hfills hrest
  have hdrop : written.drop (afterInterpreterLine text) = before ++ importAll more := by
    rw [← hwritten, List.drop_left' hlength]
  obtain ⟨newline, hscan⟩ :=
    Token.scan_of_fills hfills hletter ("mport".toList ++ ' ' :: '*' :: ' ' :: more)
  have htoken : (front dialect written).token =
      Token.read (afterInterpreterLine text + before.length) newline
        (afterInterpreterLine text + before.length) (importAll more) := by
    show Token.scan (afterInterpreterLine written) (written.drop (afterInterpreterLine written)) = _
    rw [hline, hdrop]
    exact hscan
  exact read?_of_stuck (ReaderState.stuck_of_importAll htoken) hmodules

end Items

end Program

end SdkMigration
