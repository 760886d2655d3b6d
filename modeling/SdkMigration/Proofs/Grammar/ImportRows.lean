import SdkMigration.Proofs.Grammar.SpecifierRows

/-!
# Import declarations as rows of tokens

An `ImportLine` is a declaration as it is written for bindings.  Its tokens are read
as one item of a program, and a list of them as the items of a program, unless one of
them has a mark before a name in quotes.
-/

namespace SdkMigration

/-- A declaration that imports the module, as it is written. -/
inductive ImportLine where
  | named (list : List NamedImport)
  | whole (name : String) (style : WholeStyle)
  | sideEffect

namespace ImportLine

/-- Whether the word `type` stands before all specifiers together. -/
def allTypeOnly (list : List NamedImport) : Bool := list.all (·.isTypeOnly)

/-- Whether the word `type` stands before the specifier of a single import. -/
def marks (list : List NamedImport) (named : NamedImport) : Bool :=
  named.isTypeOnly && !allTypeOnly list

/-- The tokens of a declaration from the module it names on. -/
def sourceKinds (module : String) (after : List TokenKind) : List TokenKind :=
  .word "from" false :: .string module :: .mark ";" :: after

/-- The tokens of a declaration behind the word `import`. -/
def kinds (module : String) (after : List TokenKind) : ImportLine → List TokenKind
  | named list =>
    (if allTypeOnly list then [.word "type" false] else []) ++
      .mark "\x7b" :: Grammar.bracedKinds (marks list) (sourceKinds module after) list
  | whole name .default => .word name false :: sourceKinds module after
  | whole name .namespace =>
    .mark "*" :: .word "as" false :: .word name false :: sourceKinds module after
  | whole name .requireEquals =>
    .word name false :: .mark "=" :: .word "require" false :: .mark "(" :: .string module ::
      .mark ")" :: .mark ";" :: after
  | sideEffect => .string module :: .mark ";" :: after

/-- Whether a tree is what a declaration is read as. -/
inductive Reads (module : String) : ImportLine → Tree → Prop where
  | named {list : List NamedImport} {found : ImportDeclaration} (source : found.source = module)
    (isTypeOnly : found.isTypeOnly = allTypeOnly list)
    (specifiers : List.Forall₂ (fun named => ImportSpecifier.Binds (marks list named) named)
      list found.specifiers) :
    Reads module (.named list) (.importDeclaration found)
  | default {id : Identifier} {span : Span} :
    Reads module (.whole id.name .default) (.importDeclaration ⟨span, false, [.default id], module⟩)
  | namespace {id : Identifier} {span : Span} :
    Reads module (.whole id.name .namespace) (.importDeclaration ⟨span, false, [.whole id], module⟩)
  | requireEquals {id : Identifier} {span other : Span} :
    Reads module (.whole id.name .requireEquals)
      (.importEquals ⟨span, id, false, false⟩ (.text module other))
  | sideEffect {span : Span} :
    Reads module .sideEffect (.importDeclaration ⟨span, false, [], module⟩)

/-- Whether the names of a declaration can stand in a file. -/
def Spellable : ImportLine → Prop
  | named list => ∀ named ∈ list, named.Spellable
  | whole name _ => isPlainName name = true
  | sideEffect => True

/-- Whether no specifier of a declaration has the word `type` before a name in
quotes. -/
def Legible : ImportLine → Prop
  | named list => ∀ named ∈ list, marks list named = true → isPlainName named.exported = true
  | _ => True

/-- The number of specifiers between braces. -/
def size : ImportLine → Nat
  | named list => list.length
  | _ => 0

end ImportLine

namespace Grammar

open Declarations Reader ImportLine

variable {after kinds : List TokenKind} {g : Grammar} {module name : String} {start : Nat}

/-! ## Reading a declaration -/

/-- A semicolon comes behind the name of a module without attributes. -/
theorem takes_importAttributes (h : (frontKind kinds).isWord = false) :
    Takes (importAttributes g) kinds kinds fun _ => True := by
  refine (takes_acceptWord_other (isKeyword_of_not_isWord h _)).bind fun first hfirst => ?_
  refine takes_atNewline.bind fun newline _ => ?_
  have hassert : Takes (acceptWordIf (!first && !newline) "assert") kinds kinds (· = false) := by
    unfold acceptWordIf
    split
    · exact takes_acceptWord_other (isKeyword_of_not_isWord h _)
    · exact .pure rfl
  refine hassert.bind fun second hsecond => ?_
  rw [hfirst, hsecond, if_neg (by simp)]
  exact .pure trivial

theorem takes_moduleSource (h : (frontKind kinds).isWord = false) :
    Takes (moduleSource g) (.string module :: kinds) kinds (· = module) := by
  refine takes_peek.bind fun token hkind => ?_
  rw [frontKind_cons] at hkind
  simp only [hkind]
  exact takes_take.bind fun _ _ => (takes_importAttributes h).bind fun _ _ => .pure rfl

theorem takes_importSpecifiers_default (hname : reservedWords.contains name = false)
    (hcomma : (frontKind kinds).isMark "," = false) :
    Takes (importSpecifiers g) (.word name false :: kinds) kinds
      fun found => ∃ id : Identifier, id.name = name ∧ found = [.default id] := by
  refine takes_peek.bind fun token hkind => ?_
  rw [hkind, if_pos (by simp only [frontKind_cons, TokenKind.isName, hname, Bool.not_false])]
  refine (takes_variableName hname).bind fun id hid => ?_
  refine (takes_accept_other hcomma).bind fun comma hnone => ?_
  refine (takes_atWord _).bind fun _ _ => ?_
  rw [hnone, Bool.false_and, if_neg Bool.false_ne_true]
  have hothers : Takes (Pure.pure []) kinds kinds
      (fun others : List ImportSpecifier => others = []) := .pure rfl
  exact hothers.bind fun others hothers => .pure ⟨id, hid, by rw [hothers]⟩

theorem takes_importSpecifiers_namespace (hname : reservedWords.contains name = false) :
    Takes (importSpecifiers g) (.mark "*" :: .word "as" false :: .word name false :: kinds) kinds
      fun found => ∃ id : Identifier, id.name = name ∧ found = [.whole id] := by
  refine takes_peek.bind fun token hkind => ?_
  rw [hkind, if_neg (by simp [TokenKind.isName])]
  refine (takes_accept rfl).bind fun star hstar => ?_
  rw [hstar, if_pos rfl]
  refine (takes_expectWord rfl).bind fun _ _ => (takes_variableName hname).bind fun id hid => ?_
  exact .pure ⟨id, hid, rfl⟩

section Braced

variable {marked : NamedImport → Bool} {list : List NamedImport}

theorem takes_importSpecifiers_named (hlist : ∀ named ∈ list, named.Spellable)
    (hmarked : ∀ named ∈ list, marked named = true → isPlainName named.exported = true)
    (hfuel : list.length < g.fuel) :
    Takes (importSpecifiers g) (.mark "\x7b" :: bracedKinds marked kinds list) kinds
      fun found => List.Forall₂ (fun named => ImportSpecifier.Binds (marked named) named)
        list found := by
  refine takes_peek.bind fun token hkind => ?_
  rw [hkind, if_neg (by simp [TokenKind.isName])]
  refine (takes_accept_other rfl).bind fun star hstar => ?_
  rw [hstar, if_neg Bool.false_ne_true]
  exact (takes_expect rfl).bind fun _ _ => takes_bracedItems hlist hmarked hfuel

theorem refuses_importSpecifiers (hlist : ∀ named ∈ list, named.Spellable)
    (hbad : ∃ named ∈ list, marked named = true ∧ isPlainName named.exported = false) :
    Refuses (importSpecifiers g) (.mark "\x7b" :: bracedKinds marked kinds list) := by
  refine .bind takes_peek fun token hkind => ?_
  rw [hkind, if_neg (by simp [TokenKind.isName])]
  refine .bind (takes_accept_other rfl) fun star hstar => ?_
  rw [hstar, if_neg Bool.false_ne_true]
  exact .bind (takes_expect rfl) fun _ _ => refuses_bracedItems hlist hbad g.fuel

end Braced

/-- What stands between `import` and `from` is read first, then the module. -/
theorem takes_importFrom {isTypeOnly : Bool} {before : List TokenKind}
    {good : List ImportSpecifier → Prop}
    (h : Takes (importSpecifiers g) before (sourceKinds module after) good) :
    Takes (importFrom g start isTypeOnly) before after fun tree =>
      ∃ span specifiers, good specifiers ∧
        tree = .importDeclaration ⟨span, isTypeOnly, specifiers, module⟩ := by
  refine h.bind fun specifiers hspecifiers => (takes_expectWord rfl).bind fun _ _ => ?_
  refine (takes_moduleSource rfl).bind fun source hsource => takes_endStatement.bind fun _ _ => ?_
  refine (takes_spanFrom start).bind fun span _ => .pure ⟨span, specifiers, hspecifiers, ?_⟩
  rw [hsource]

theorem refuses_importEquals_of_name {isExport isTypeOnly : Bool}
    (h : (frontKind kinds).isName = false) :
    Refuses (importEquals g start isExport isTypeOnly) kinds :=
  .bind takes_hasTypes fun _ htypes => .bind (takes_require htypes) fun _ _ =>
    .bind_left (refuses_variableName h)

theorem refuses_importEquals_of_mark {isExport isTypeOnly : Bool}
    (hname : reservedWords.contains name = false) (h : (frontKind kinds).isMark "=" = false) :
    Refuses (importEquals g start isExport isTypeOnly) (.word name false :: kinds) :=
  .bind takes_hasTypes fun _ htypes => .bind (takes_require htypes) fun _ _ =>
    .bind (takes_variableName hname) fun _ _ => .bind_left (refuses_expect h)

theorem takes_importEquals (hname : reservedWords.contains name = false) :
    Takes (importEquals g start false false)
      ((ImportLine.whole name .requireEquals).kinds module after) after fun tree =>
        ∃ span id other, id.name = name ∧
          tree = .importEquals ⟨span, id, false, false⟩ (.text module other) := by
  refine takes_hasTypes.bind fun _ htypes => (takes_require htypes).bind fun _ _ => ?_
  refine (takes_variableName hname).bind fun id hid => (takes_expect rfl).bind fun _ _ => ?_
  have hmodule : Takes (importedModule g)
      (.word "require" false :: .mark "(" :: .string module :: .mark ")" :: .mark ";" :: after)
      (.mark ";" :: after) fun tree => ∃ span, tree = .text module span := by
    refine takes_peekSecond.bind fun second hsecond => (takes_atWord _).bind fun word hword => ?_
    rw [hsecond, hword, if_pos (by rfl)]
    refine takes_take.bind fun _ _ => takes_take.bind fun _ _ => ?_
    refine takes_stringLiteral.bind fun source hsource => (takes_expect rfl).bind fun _ _ => ?_
    exact .pure hsource
  refine hmodule.bind fun source hsource => takes_endStatement.bind fun _ _ => ?_
  obtain ⟨other, rfl⟩ := hsource
  exact (takes_spanFrom start).bind fun span _ => .pure ⟨span, id, other, hid, rfl⟩

section Named

variable {list : List NamedImport}

/-- Before the braces, the word `type` is not the name of a default import. -/
theorem refuses_importFrom_of_brace {isTypeOnly : Bool} :
    Refuses (importFrom g start isTypeOnly) (.word "type" false :: .mark "\x7b" :: kinds) :=
  .bind (takes_importSpecifiers_default (by decide) rfl) fun _ _ =>
    .bind_left (refuses_expectWord rfl)

theorem takes_typeImport {before : List TokenKind}
    {good : List ImportSpecifier → Prop} (hfront : (frontKind before).isName = false)
    (h : Takes (importSpecifiers g) before (sourceKinds module after) good) :
    Takes (typeImport g start) (.word "type" false :: before) after fun tree =>
      ∃ span specifiers, good specifiers ∧
        tree = .importDeclaration ⟨span, true, specifiers, module⟩ :=
  takes_hasTypes.bind fun _ htypes => (takes_require htypes).bind fun _ _ =>
    (takes_expectWord rfl).bind fun _ _ =>
      .orElse_right (refuses_importEquals_of_name hfront) (takes_importFrom h)

/-- The declaration of single imports is read. -/
theorem takes_namedImport (hlist : ∀ named ∈ list, named.Spellable)
    (hlegible : (ImportLine.named list).Legible) (hfuel : list.length < g.fuel) :
    Takes (importRest g start) ((ImportLine.named list).kinds module after) after
      ((ImportLine.named list).Reads module) := by
  have hspecifiers : Takes (importSpecifiers g)
      (.mark "\x7b" :: bracedKinds (marks list) (sourceKinds module after) list)
      (sourceKinds module after)
      fun found => List.Forall₂ (fun named => ImportSpecifier.Binds (marks list named) named)
        list found := takes_importSpecifiers_named hlist hlegible hfuel
  refine takes_peek.bind fun token hkind => ?_
  cases hall : allTypeOnly list with
  | true =>
    simp only [ImportLine.kinds, hall, if_true, List.cons_append, List.nil_append] at hkind ⊢
    rw [frontKind_cons] at hkind
    simp only [hkind]
    -- The word `type` is tried first as the name of an `import =`, then as that of a
    -- default import.
    refine .orElse_right (refuses_importEquals_of_mark (by decide) rfl) ?_
    refine .orElse_right refuses_importFrom_of_brace (.orElse_left ?_)
    refine (takes_typeImport rfl hspecifiers).mono ?_
    rintro _ ⟨span, specifiers, hgood, rfl⟩
    exact .named rfl hall.symm hgood
  | false =>
    simp only [ImportLine.kinds, hall, Bool.false_eq_true, if_false, List.nil_append] at hkind ⊢
    rw [frontKind_cons] at hkind
    simp only [hkind]
    refine .orElse_right (refuses_importEquals_of_name rfl) (.orElse_left ?_)
    refine (takes_importFrom hspecifiers).mono ?_
    rintro _ ⟨span, specifiers, hgood, rfl⟩
    exact .named rfl hall.symm hgood

/-- The declaration of single imports is not read when one is marked before a name in
quotes. -/
theorem refuses_namedImport (hlist : ∀ named ∈ list, named.Spellable)
    (hillegible : ¬(ImportLine.named list).Legible) :
    Refuses (importRest g start) ((ImportLine.named list).kinds module after) := by
  simp only [Legible, not_forall, Bool.not_eq_true] at hillegible
  obtain ⟨bad, hbad, hmarks, hquoted⟩ := hillegible
  -- A specifier is marked, so the word `type` does not stand before the braces.
  have hall : allTypeOnly list = false := by
    unfold marks at hmarks
    simp only [Bool.and_eq_true, Bool.not_eq_true'] at hmarks
    exact hmarks.2
  refine .bind takes_peek fun token hkind => ?_
  simp only [ImportLine.kinds, hall, Bool.false_eq_true, if_false, List.nil_append] at hkind ⊢
  rw [frontKind_cons] at hkind
  simp only [hkind]
  refine .orElse (refuses_importEquals_of_name rfl) (.orElse ?_ (.orElse ?_ ?_))
  · exact .bind_left (refuses_importSpecifiers hlist ⟨bad, hbad, hmarks, hquoted⟩)
  · exact .bind takes_hasTypes fun _ htypes => .bind (takes_require htypes) fun _ _ =>
      .bind_left (refuses_expectWord rfl)
  · exact .bind takes_peek fun _ hfirst => .bind_left (refuses_require (by rw [hfirst]; rfl))

end Named

/-- A declaration is read behind the word `import`. -/
theorem takes_importRest {line : ImportLine} (hspellable : line.Spellable)
    (hlegible : line.Legible) (hfuel : line.size < g.fuel) :
    Takes (importRest g start) (line.kinds module after) after (line.Reads module) := by
  cases line with
  | named list => exact takes_namedImport hspellable hlegible hfuel
  | whole name style =>
    refine takes_peek.bind fun token hkind => ?_
    have hname := not_reserved_of_isPlainName hspellable
    cases style with
    | «default» =>
      rw [kinds, frontKind_cons] at hkind
      simp only [hkind]
      refine .orElse_right (refuses_importEquals_of_mark hname rfl) (.orElse_left ?_)
      refine (takes_importFrom (takes_importSpecifiers_default hname rfl)).mono ?_
      rintro _ ⟨span, _, ⟨id, rfl, rfl⟩, rfl⟩
      exact .default
    | «namespace» =>
      rw [kinds, frontKind_cons] at hkind
      simp only [hkind]
      refine .orElse_right (refuses_importEquals_of_name rfl) (.orElse_left ?_)
      refine (takes_importFrom (takes_importSpecifiers_namespace hname)).mono ?_
      rintro _ ⟨span, _, ⟨id, rfl, rfl⟩, rfl⟩
      exact .namespace
    | requireEquals =>
      rw [kinds, frontKind_cons] at hkind
      simp only [hkind]
      refine .orElse_left ((takes_importEquals hname).mono ?_)
      rintro _ ⟨span, id, other, rfl, rfl⟩
      exact .requireEquals
  | sideEffect =>
    refine takes_peek.bind fun token hkind => ?_
    rw [kinds, frontKind_cons] at hkind
    simp only [hkind]
    refine (takes_moduleSource rfl).bind fun source hsource => takes_endStatement.bind fun _ _ => ?_
    rw [hsource]
    exact (takes_spanFrom start).bind fun span _ => .pure .sideEffect

/-- Whether an item is what a declaration is read as. -/
def ItemReads (module : String) (line : ImportLine) (item : Tree) : Prop :=
  ∃ start tree, item = .anchored .moduleItem start tree ∧ line.Reads module tree

private theorem importRow_second (module : String) (after : List TokenKind) (line : ImportLine) :
    (frontKind (line.kinds module after)).isMark "(" = false ∧
      (frontKind (line.kinds module after)).isMark "." = false := by
  cases line with
  | named list => cases hall : allTypeOnly list <;> simp [ImportLine.kinds, hall, TokenKind.isMark]
  | whole name style => cases style <;> exact ⟨rfl, rfl⟩
  | sideEffect => exact ⟨rfl, rfl⟩

theorem takes_moduleItem {line : ImportLine} (hspellable : line.Spellable)
    (hlegible : line.Legible) (hfuel : line.size < g.fuel) :
    Takes (moduleItem g) (.word "import" false :: line.kinds module after) after
      (ItemReads module line) := by
  obtain ⟨hround, hdot⟩ := importRow_second module after line
  refine takes_get.bind fun state hstate => takes_peekSecond.bind fun second hsecond => ?_
  rw [hstate.modules, hsecond, hround, hdot, if_neg (by simp)]
  refine (takes_atWord _).bind fun word hword => ?_
  rw [hword, if_pos (by rfl)]
  refine takes_here.bind fun start _ => (takes_expectWord rfl).bind fun _ _ => ?_
  exact (takes_importRest hspellable hlegible hfuel).bind fun tree htree =>
    .pure ⟨start, tree, rfl, htree⟩

theorem refuses_moduleItem {list : List NamedImport} (hlist : ∀ named ∈ list, named.Spellable)
    (hillegible : ¬(ImportLine.named list).Legible) :
    Refuses (moduleItem g)
      (.word "import" false :: (ImportLine.named list).kinds module after) := by
  obtain ⟨hround, hdot⟩ := importRow_second module after (.named list)
  refine .bind takes_get fun state hstate => .bind takes_peekSecond fun second hsecond => ?_
  rw [hstate.modules, hsecond, hround, hdot, if_neg (by simp)]
  refine .bind (takes_atWord _) fun word hword => ?_
  rw [hword, if_pos (by rfl)]
  exact .bind takes_here fun start _ => .bind (takes_expectWord rfl) fun _ _ =>
    .bind_left (refuses_namedImport hlist hillegible)

end Grammar

/-! ## Reading all declarations -/

namespace ImportLine

/-- The tokens of declarations up to the end of the text. -/
def allKinds (module : String) : List ImportLine → List TokenKind
  | [] => []
  | line :: rest => .word "import" false :: line.kinds module (allKinds module rest)

variable {module : String} {lines : List ImportLine}

private theorem length_bracedKinds (marked : NamedImport → Bool) (after : List TokenKind)
    (list : List NamedImport) :
    list.length + after.length ≤ (Grammar.bracedKinds marked after list).length := by
  induction list with
  | nil => simp [Grammar.bracedKinds]
  | cons named rest ih =>
    simp only [Grammar.bracedKinds, Declarations.specifierKinds, List.length_append,
      List.length_cons]
    omega

theorem size_add_length_le (line : ImportLine) (module : String) (after : List TokenKind) :
    line.size + after.length ≤ (line.kinds module after).length := by
  cases line with
  | named list =>
    have hbraced := length_bracedKinds (marks list) (sourceKinds module after) list
    simp only [size, kinds, sourceKinds, List.length_append, List.length_cons] at hbraced ⊢
    omega
  | whole name style => cases style <;> simp [size, kinds, sourceKinds] <;> omega
  | sideEffect =>
    simp only [size, kinds, List.length_cons]
    omega

/-- A text has room for its declarations and for the specifiers of each. -/
theorem length_allKinds (module : String) (lines : List ImportLine) :
    lines.length ≤ (allKinds module lines).length ∧
    ∀ line ∈ lines, line.size ≤ (allKinds module lines).length := by
  induction lines with
  | nil => exact ⟨Nat.le_refl _, fun _ h => absurd h List.not_mem_nil⟩
  | cons first rest ih =>
    obtain ⟨hlength, hsize⟩ := ih
    have hfirst := first.size_add_length_le module (allKinds module rest)
    simp only [allKinds, List.length_cons]
    refine ⟨by omega, fun line hline => ?_⟩
    rcases List.mem_cons.mp hline with rfl | hline
    · omega
    · have := hsize line hline
      omega

end ImportLine

namespace Program

open Reader

variable {module : String} {lines : List ImportLine} {item : Reader Tree}

theorem takes_readItems
    (hitem : ∀ line ∈ lines, ∀ after, Takes item (.word "import" false :: line.kinds module after)
      after (Grammar.ItemReads module line))
    {fuel : Nat} (hfuel : lines.length < fuel) :
    Takes (readItems item fuel) (ImportLine.allKinds module lines) []
      fun items => List.Forall₂ (Grammar.ItemReads module) lines items := by
  induction lines generalizing fuel with
  | nil =>
    obtain ⟨fuel, rfl⟩ := Nat.exists_eq_succ_of_ne_zero (Nat.ne_of_gt hfuel)
    refine takes_peek.bind fun token hkind => ?_
    rw [hkind, if_pos (by rfl)]
    exact .pure .nil
  | cons line rest ih =>
    obtain ⟨fuel, rfl⟩ := Nat.exists_eq_succ_of_ne_zero (Nat.ne_of_gt (Nat.zero_lt_of_lt hfuel))
    refine takes_peek.bind fun token hkind => ?_
    rw [hkind, if_neg (by simp [ImportLine.allKinds])]
    refine (hitem line List.mem_cons_self _).bind fun first hfirst => ?_
    refine (ih (fun other hother => hitem other (List.mem_cons_of_mem _ hother))
      (Nat.lt_of_succ_lt_succ hfuel)).bind fun items hitems => .pure (.cons hfirst hitems)

theorem refuses_readItems {line : ImportLine}
    (hitem : Refuses item (.word "import" false ::
      line.kinds module (ImportLine.allKinds module lines))) (fuel : Nat) :
    Refuses (readItems item fuel) (ImportLine.allKinds module (line :: lines)) := by
  cases fuel with
  | zero => exact refuses_failure
  | succ fuel =>
    refine .bind takes_peek fun token hkind => ?_
    rw [hkind, if_neg (by simp [ImportLine.allKinds])]
    exact .bind_left hitem

end Program

end SdkMigration
