import SdkMigration.Program.Grammar.Modules
import SdkMigration.Proofs.Grammar.Closings
import SdkMigration.Proofs.Grammar.Statements

/-!
# Imports and exports place what they read

An import declaration stands as a whole where its parts stand, between characters
that are no blanks, and the names that it binds come with it.  An export has a point
behind the decorators that were read before it.
-/

namespace SdkMigration

open Reader

namespace Grammar

instance : Located ExportedName :=
  ⟨fun name => allLandmarks name.identifiers,
    fun _ _ name => ∀ id, name = .word id → DotFree id.name⟩

instance {α : Type} [Located α] : Located (Specifier α) :=
  ⟨fun specifier => (Located.marks specifier.name).join
      (specifier.renamed.elim {} Located.marks),
    fun text dialect specifier => Located.Regular text dialect specifier.name ∧
      ∀ other, specifier.renamed = some other → Located.Regular text dialect other⟩

instance : Located ImportSpecifier := ⟨fun _ => {}, fun _ _ found => DotFree found.localName.name⟩

instance : Located (List ImportSpecifier) :=
  ⟨fun _ => {}, fun _ _ found => ∀ specifier ∈ found, DotFree specifier.localName.name⟩

instance : Located (List (List Tree)) :=
  ⟨fun found => allLandmarks found.flatten, fun _ _ _ => True⟩

@[simp] theorem identifiers_word (id : Identifier) :
    (ExportedName.word id).identifiers = [.identifier .exportName id] := rfl

@[simp] theorem identifiers_quoted (value : String) :
    (ExportedName.quoted value).identifiers = [] := rfl

@[simp] theorem marks_exportedName (name : ExportedName) :
    Located.marks name = allLandmarks name.identifiers := rfl

@[simp] theorem marks_renamed {α : Type} [Located α] (isTypeOnly : Bool) (name : ExportedName)
    (other : α) :
    Located.marks (⟨isTypeOnly, name, some other⟩ : Specifier α) =
      (allLandmarks name.identifiers).join (Located.marks other) := rfl

@[simp] theorem marks_unrenamed {α : Type} [Located α] (isTypeOnly : Bool) (name : ExportedName) :
    Located.marks (⟨isTypeOnly, name, none⟩ : Specifier α) =
      (allLandmarks name.identifiers).join {} := rfl

@[simp] theorem marks_importSpecifier (found : ImportSpecifier) : Located.marks found = {} := rfl

@[simp] theorem marks_importSpecifiers (found : List ImportSpecifier) :
    Located.marks found = {} := rfl

@[simp] theorem marks_groups (found : List (List Tree)) :
    Located.marks found = allLandmarks found.flatten := rfl

variable {text : Text} {dialect : Dialect} {g : Grammar} [g.Placing text dialect]

/-! ## Parts -/

instance : Places text dialect (importAttribute g) := by
  refine .start fun _ => .part fun _ _ => .step fun _ => .part fun _ _ => ?_
  exact .last

instance : Places text dialect (importAttributes g) := by unfold importAttributes; infer_instance

instance : Places text dialect (moduleSource g) := by
  refine .of_yields fun _ => .step fun token => ?_
  split
  · exact .step fun _ => .step fun _ => .pure trivial
  · exact .failure

instance : Places text dialect exportedName := by
  refine .of_yields fun _ => .step fun token => ?_
  split
  · exact .step fun _ => .pure nofun
  · refine .part fun id hid => .pure fun other hother => ?_
    obtain rfl := ExportedName.word.inj hother
    exact hid

section Specifiers

variable {α : Type} [Located α] {isTypeOnly : Bool} {name : ExportedName}

theorem regular_renamed (hname : Located.Regular text dialect name) {other : α}
    (hother : Located.Regular text dialect other) :
    Located.Regular text dialect (⟨isTypeOnly, name, some other⟩ : Specifier α) := by
  refine ⟨hname, fun found hfound => ?_⟩
  obtain rfl := Option.some.inj hfound
  exact hother

theorem regular_unrenamed (hname : Located.Regular text dialect name) :
    Located.Regular text dialect (⟨isTypeOnly, name, none⟩ : Specifier α) := ⟨hname, nofun⟩

instance {target : Reader α} [Places text dialect target] :
    Places text dialect (specifier target) := by
  refine .of_yields fun _ => .step fun _ => .step fun _ => ?_
  dsimp only
  refine .part fun first hfirst => .step fun next => .ite (fun _ => ?_) fun _ => ?_
  · refine .part fun second hsecond => .step fun third => .ite (fun _ => ?_) fun _ => ?_
    · refine .part fun renamed hrenamed => .step fun _ => .ite (fun _ => ?_) fun _ => ?_
      · exact .part fun _ hother => .pure (regular_renamed hsecond hother)
      · exact .pure (regular_renamed hfirst hrenamed)
    · refine .step fun _ => .ite (fun _ => ?_) fun _ => ?_
      · exact .part fun _ hother => .pure (regular_renamed hsecond hother)
      · exact .pure (regular_unrenamed hsecond)
  · refine .step fun _ => .ite (fun _ => ?_) fun _ => ?_
    · exact .part fun _ hother => .pure (regular_renamed hfirst hother)
    · exact .pure (regular_unrenamed hfirst)

end Specifiers

/-! ## Imports -/

instance : Places text dialect importSpecifier := by
  refine .of_yields fun _ => .part fun found hfound => ?_
  split
  · rename_i other hrenamed
    exact .pure (hfound.2 other hrenamed)
  · rename_i id hrenamed hname
    exact .step fun _ => .pure (hfound.1 id hname)
  · exact .failure

instance (fuel : Nat) : Places text dialect (bracedItems importSpecifier fuel) := by
  induction fuel with
  | zero => exact .of_yields fun _ => .failure
  | succ fuel ih =>
    refine .of_yields fun _ => .step fun _ => .ite (fun _ => .pure nofun) fun _ => ?_
    refine .part fun _ hfirst => .step fun _ => .part fun _ hothers => .pure ?_
    exact List.forall_mem_cons.mpr ⟨hfirst, hothers⟩

instance : Places text dialect (importedNames g) := by
  refine .of_yields fun _ => .step fun _ => .ite (fun _ => ?_) fun _ => .step fun _ => .last
  exact .step fun _ => .part fun _ hname => .pure (List.forall_mem_singleton.mpr hname)

instance : Places text dialect (pure [] : Reader (List ImportSpecifier)) :=
  .of_yields fun _ => .pure nofun

instance : Places text dialect (importSpecifiers g) := by
  refine .of_yields fun _ => .step fun _ => .ite (fun _ => ?_) fun _ => .last
  refine .part fun _ hfirst => .step fun _ => .step fun _ => .part fun _ hothers => .pure ?_
  exact List.forall_mem_cons.mpr ⟨hfirst, hothers⟩

/-! ### Ends of imports -/

section Ends

variable {lo : Nat}

/-- The attributes of a module end with a brace. -/
theorem keeps_importAttributes : Keeps text dialect lo (importAttributes g) := by
  have hitems : Closes text dialect lo (bracketed (commaItems "\x7d" (importAttribute g) g.fuel)) :=
    .bracketed (closes_commaItems rfl (by decide) _)
  have hitemsKeep := hitems.keeps
  have hbrace : Keeps text dialect lo (expect "\x7b") := (closes_expect rfl (by decide)).keeps
  unfold importAttributes
  infer_instance

theorem closes_moduleSource : Closes text dialect lo (moduleSource g) := by
  have hattributes : Keeps text dialect lo (importAttributes g) := keeps_importAttributes
  refine .token fun token htoken => ?_
  split
  · rename_i hkind
    exact .inr ⟨_, rfl, htoken.inked_string hkind, inferInstance⟩
  · exact .inl rfl

omit [g.Placing text dialect] in
theorem keeps_moreNames {start : Nat} {left : Tree} (fuel : Nat) :
    Keeps text dialect lo (dottedName.more start left fuel) := by
  have hdot : Keeps text dialect lo (accept ".") := keeps_accept rfl (by decide)
  have hname : Keeps text dialect lo anyName := closes_anyName.keeps
  induction fuel generalizing left with
  | zero => unfold dottedName.more; infer_instance
  | succ fuel ih => unfold dottedName.more; infer_instance

instance : Places text dialect (importedModule g) := by
  refine .of_yields fun _ => .step fun _ => .step fun _ => .ite (fun _ => ?_) fun _ => .last
  exact .step fun _ => .step fun _ => .part fun _ hsource => .step fun _ => .pure hsource

omit [g.Placing text dialect] in
theorem closes_importedModule : Closes text dialect lo (importedModule g) := by
  refine .after fun _ => .after fun _ => .ite ?_ ?_
  · have hclose : Closes text dialect lo (expect ")") := closes_expect rfl (by decide)
    exact .after fun _ => .after fun _ => .after fun _ => .before hclose inferInstance
  · exact .before closes_anyName fun _ => keeps_moreNames _

end Ends

/-! ### Declarations -/

section Declarations

variable {start : Nat} (hink : text.HasInk start)

include hink

omit [g.Placing text dialect] in
/-- An import declaration covers what it was read from. -/
theorem ends_importDeclaration {before : Landmarks} {isTypeOnly : Bool}
    {specifiers : List ImportSpecifier} {source : String}
    (hspecifiers : ∀ specifier ∈ specifiers, DotFree specifier.localName.name) :
    Ends text dialect start before (do
      endStatement
      return Tree.importDeclaration ⟨← spanFrom start, isTypeOnly, specifiers, source⟩)
      Tree.landmarks := by
  have hnames : ∀ name ∈ specifiers.map (·.localName.name), DotFree name := by
    intro name hname
    obtain ⟨specifier, hspecifier, rfl⟩ := List.mem_map.mp hname
    exact hspecifiers specifier hspecifier
  exact .keep keeps_endStatement fun _ =>
    .cover hink fun stop => .bound hnames (.tree rfl (.refl start _))

theorem yields_importFrom {isTypeOnly : Bool} :
    Yields text dialect start {} (importFrom g start isTypeOnly) Tree.landmarks :=
  .part fun _ hspecifiers => .step fun _ => .closing closes_moduleSource fun _ _ =>
    ends_importDeclaration hink hspecifiers

omit [g.Placing text dialect] in
theorem yields_importEquals {isExport isTypeOnly : Bool} :
    Yields text dialect start {} (importEquals g start isExport isTypeOnly) Tree.landmarks := by
  refine .step fun _ => .step fun _ => .part fun name hname => .step fun _ => ?_
  refine .closing closes_importedModule fun module _ => .keep keeps_endStatement fun _ => ?_
  have hbound : ∀ bound ∈ [name.name], DotFree bound := List.forall_mem_singleton.mpr hname
  by_cases htext : ∃ value span, module = .text value span
  · obtain ⟨value, span, rfl⟩ := htext
    exact .cover hink fun stop => .bound hbound (.tree rfl (.refl start _))
  · refine Yields.ends (.span fun stop => .tree rfl fun mark _ => ?_)
    rw [Tree.landmarks_importEquals fun value span h => htext ⟨value, span, h⟩]
    simp

theorem yields_typeImport : Yields text dialect start {} (typeImport g start) Tree.landmarks :=
  .step fun _ => .step fun _ => .step fun _ =>
    .orElse (yields_importEquals hink) (yields_importFrom hink)

theorem yields_phasedImport : Yields text dialect start {} (phasedImport g start) Tree.landmarks :=
  .step fun _ => .step fun _ => .step fun _ => yields_importFrom hink

theorem yields_importRest : Yields text dialect start {} (importRest g start) Tree.landmarks := by
  refine .step fun token => ?_
  split
  · exact .closing closes_moduleSource fun _ _ => ends_importDeclaration hink nofun
  · refine .orElse (yields_importEquals hink) (.orElse (yields_importFrom hink) ?_)
    exact .orElse (yields_typeImport hink) (yields_phasedImport hink)

omit [g.Placing text dialect] in
theorem yields_exportedImport :
    Yields text dialect start {} (exportedImport g start) Tree.landmarks :=
  .step fun _ => .orElse (yields_importEquals hink) (.step fun _ => yields_importEquals hink)

end Declarations

/-! ## Exports -/

instance : Places text dialect exportSpecifier := by
  refine .of_yields fun _ => .part fun found _ => ?_
  dsimp only
  obtain ⟨isTypeOnly, name, renamed⟩ := found
  cases renamed with
  | some other => exact .pure trivial
  | none => exact .pure trivial

instance (fuel : Nat) : Places text dialect (bracedItems exportSpecifier fuel) := by
  induction fuel with
  | zero => exact .of_yields fun _ => .failure
  | succ fuel ih =>
    refine .of_yields fun _ => .step fun _ => .ite (fun _ => .pure trivial) fun _ => ?_
    exact .part fun _ _ => .step fun _ => .part fun _ _ => .pure trivial

instance : Places text dialect (exportSource g) := by unfold exportSource; infer_instance

instance (start : Nat) : Places text dialect (exportNames g start) := by
  refine .of_yields fun _ => .step fun _ => .part fun _ _ => .step fun _ => .step fun _ => ?_
  exact .branchFrom

instance : Places text dialect exportedIdentifiers :=
  .of_yields fun _ => .part fun _ _ => .pure trivial

instance (start : Nat) : Places text dialect (exportAll g start) := by
  refine .of_yields fun _ => .step fun _ => .step fun _ => .part fun _ _ => .step fun _ => ?_
  exact .step fun _ => .step fun _ => .branchFrom

instance : Places text dialect (defaultFunction g) := by
  refine .start fun _ => .step fun _ => .step fun _ => .part fun name _ => ?_
  exact .next (.weaken (yields_function (allLandmarks name))) fun _ _ => .branchFrom

theorem yields_defaultValue {lo : Nat} {marks : List Tree} (frame : Landmarks) :
    Yields text dialect lo (frame.join (allLandmarks marks)) (defaultValue g marks)
      fun found => frame.join found.landmarks := by
  refine .step fun _ => .step fun _ => .step fun _ => .ite (fun _ => .last) fun _ =>
    .step fun _ => .ite (fun _ => ?_) fun _ => .step fun _ => .step fun _ =>
    .ite (fun _ => .last) fun _ => ?_
  · exact .step fun _ => yields_anonymousClass frame
  · exact .part fun _ hvalue => .step fun _ => .pure hvalue

theorem yields_exportDefault {lo start : Nat} {marks : List Tree} (frame : Landmarks) :
    Yields text dialect lo (frame.join (allLandmarks marks)) (exportDefault g start marks)
      fun found => frame.join found.landmarks :=
  .part fun _ _ => .next (.weaken (yields_defaultValue frame)) fun _ _ => .branchFrom

instance : Places text dialect (otherExports g) := by
  refine .of_yields fun _ => .step fun _ => .ite (fun _ => ?_) fun _ => .pure trivial
  refine .step fun _ => .ite (fun _ => ?_) fun _ => .step fun _ => .last
  exact .step fun _ => .part fun _ _ => .pure trivial

/-- An export stands behind the decorators before it. -/
theorem yields_exportRest {lo start : Nat} (hink : text.HasInk start) {marks : List Tree} :
    Yields text dialect lo ((Landmarks.point start).join (allLandmarks marks))
      (exportRest g start marks)
      fun found => (Landmarks.point start).join found.landmarks := by
  refine .step fun types => .step fun second => .step fun _ =>
    .ite (fun _ => yields_exportDefault _) fun _ => ?_
  refine .step fun _ => .ite (fun _ => .last) fun _ => ?_
  refine .step fun _ => .ite (fun _ => .last) fun _ => ?_
  refine .step fun _ => .ite (fun _ => .step fun _ => .last) fun _ => ?_
  refine .step fun _ => .ite (fun _ => .step fun _ => .last) fun _ => ?_
  refine .step fun _ => .ite (fun _ => .weaken (.behind (yields_exportedImport hink))) fun _ => ?_
  refine .step fun _ => .ite (fun _ => ?_) fun _ => ?_
  · exact .step fun _ => .part fun _ _ => .step fun _ => .branchFrom
  refine .step fun _ => .ite (fun _ => ?_) fun _ => ?_
  · exact .step fun _ => .step fun _ => .part fun _ _ => .step fun _ => .branchFrom
  refine .step fun _ => .ite (fun _ => ?_) fun _ => ?_
  · refine .part fun _ _ => .part fun _ _ => .step fun _ => .step fun _ => .step fun _ => ?_
    exact .branchFrom
  refine .step fun _ => .ite (fun _ => ?_) fun _ => ?_
  · exact .next (yields_ambientDeclaration _) fun _ _ => .branchFrom
  · exact .next (yields_declaration _) fun _ _ => .branchFrom

/-! ## Items -/

section Chainless

theorem returns_branchFrom {kind : BranchKind} {start : Nat} {children : List Tree} :
    Returns (·.chain? = none) (branchFrom kind start children) :=
  .bind fun _ => .pure rfl

theorem returns_importEquals {start : Nat} {isExport isTypeOnly : Bool} :
    Returns (·.chain? = none) (importEquals g start isExport isTypeOnly) :=
  .bind fun _ => .bind fun _ => .bind fun _ => .bind fun _ => .bind fun _ => .bind fun _ =>
    .bind fun _ => .pure rfl

theorem returns_importFrom {start : Nat} {isTypeOnly : Bool} :
    Returns (·.chain? = none) (importFrom g start isTypeOnly) :=
  .bind fun _ => .bind fun _ => .bind fun _ => .bind fun _ => .bind fun _ => .pure rfl

/-- An import declaration is no chain. -/
theorem returns_importRest {start : Nat} :
    Returns (·.chain? = none) (importRest g start) := by
  refine .bind fun token => ?_
  split
  · exact .bind fun _ => .bind fun _ => .bind fun _ => .pure rfl
  · refine .orElse returns_importEquals (.orElse returns_importFrom (.orElse ?_ ?_))
    · exact .bind fun _ => .bind fun _ => .bind fun _ =>
        .orElse returns_importEquals returns_importFrom
    · exact .bind fun _ => .bind fun _ => .bind fun _ => returns_importFrom

theorem returns_exportedImport {start : Nat} :
    Returns (·.chain? = none) (exportedImport g start) :=
  .bind fun _ => .orElse returns_importEquals (.bind fun _ => returns_importEquals)

/-- An export is no chain. -/
theorem returns_exportRest {start : Nat} {marks : List Tree} :
    Returns (·.chain? = none) (exportRest g start marks) := by
  have hdefault : Returns (·.chain? = none) (exportDefault g start marks) :=
    .bind fun _ => .bind fun _ => returns_branchFrom
  have hall : Returns (·.chain? = none) (exportAll g start) :=
    .bind fun _ => .bind fun _ => .bind fun _ => .bind fun _ => .bind fun _ => .bind fun _ =>
      returns_branchFrom
  have hnames : Returns (·.chain? = none) (exportNames g start) :=
    .bind fun _ => .bind fun _ => .bind fun _ => .bind fun _ => returns_branchFrom
  refine .bind fun types => .bind fun second => .bind fun _ => .ite hdefault ?_
  refine .bind fun _ => .ite hall (.bind fun _ => .ite hnames ?_)
  refine .bind fun _ => .ite (.bind fun _ => hnames) ?_
  refine .bind fun _ => .ite (.bind fun _ => hall) ?_
  refine .bind fun _ => .ite returns_exportedImport ?_
  refine .bind fun _ => .ite (.bind fun _ => .bind fun _ => .bind fun _ => returns_branchFrom) ?_
  refine .bind fun _ => .ite ?_ (.bind fun _ => .ite ?_ (.bind fun _ => .ite ?_ ?_))
  · exact .bind fun _ => .bind fun _ => .bind fun _ => .bind fun _ => returns_branchFrom
  · exact .bind fun _ => .bind fun _ => .bind fun _ => .bind fun _ => .bind fun _ =>
      returns_branchFrom
  · exact .bind fun _ => returns_branchFrom
  · exact .bind fun _ => returns_branchFrom

end Chainless

theorem yields_exportItem {lo : Nat} {marks : List Tree} :
    Yields text dialect lo (allLandmarks marks) (exportItem g marks) Tree.landmarks :=
  .pointWord fun _ hink => .nextOf (.weaken (yields_exportRest hink)) returns_exportRest
    fun _ hchain => .tree hchain

theorem yields_importItem {lo : Nat} : Yields text dialect lo {} (importItem g) Tree.landmarks :=
  .pointWord fun _ hink => .nextOf (.weaken (.behind (yields_importRest hink)))
    returns_importRest fun _ hchain => .tree hchain

instance : Places text dialect (moduleItem g) := by
  refine .of_yields fun _ => .step fun _ => .step fun _ => .ite (fun _ => .last) fun _ =>
    .step fun _ => .ite (fun _ => yields_importItem) fun _ => .step fun _ => .ite (fun _ => ?_)
    fun _ => .step fun _ => .ite (fun _ => ?_) fun _ => .last
  · exact .weaken yields_exportItem
  · exact .orElse (.part fun _ _ => .weaken yields_exportItem) .last

end Grammar

end SdkMigration
