import SdkMigration.Program.Grammar.Statements
import SdkMigration.Proofs.Grammar.Expressions

/-!
# Statements and declarations place what they read
-/

namespace SdkMigration

open Reader

/-- A reader that was chosen by looking ahead places what it returns. -/
instance : Located (Option (Reader Tree)) :=
  ⟨fun _ => {},
    fun text dialect found => ∀ reader, found = some reader → Places text dialect reader⟩

@[simp] theorem marks_chosen (found : Option (Reader Tree)) : Located.marks found = {} := rfl

namespace Grammar

variable {text : Text} {dialect : Dialect} {g : Grammar} [g.Placing text dialect]

/-! ## Variables -/

instance : Places text dialect (declarator g) := by
  refine .start fun start => .part fun inner hinner => .step fun _ => .step fun _ => ?_
  refine .part fun type _ => .step fun _ => .part fun value _ => .branch (fun _ hbranch => ?_) ?_
  · exact .anchored hbranch
  · intro mark hmark
    have hannotate := annotate_partOf start inner type mark hmark
    simp only [Landmarks.count_cons, Landmarks.count_join, marks_tree, marks_trees] at hannotate ⊢
    omega

instance : Places text dialect variableKeyword := by unfold variableKeyword; infer_instance

instance : Places text dialect (declarators g) := .of_yields fun _ => .step fun _ => .last

instance : Places text dialect (variableDeclaration g) :=
  .start fun _ => .part fun _ _ => .step fun _ => .branchFrom

/-! ## Declarations -/

instance : Places text dialect (functionDeclaration g) := by
  refine .of_yields fun _ => .step fun _ => .part fun id _ => ?_
  exact .next (.weaken (yields_function (.name id))) fun _ _ => .tree

instance : Places text dialect (interface g) := by
  refine .start fun _ => .step fun _ => .part fun _ _ => .part fun _ _ => .part fun _ _ => ?_
  exact .part fun _ _ => .branchFrom

instance : Places text dialect (typeAlias g) := by
  refine .start fun _ => .step fun _ => .part fun _ _ => .part fun _ _ => .step fun _ => ?_
  exact .part fun _ _ => .step fun _ => .branchFrom

instance : Places text dialect (enumKey g) := by
  refine .of_yields fun _ => .step fun token => ?_
  split
  · exact .step fun _ => .pure trivial
  · exact .step fun _ => .pure trivial
  · exact .step fun _ => .part fun _ _ => .step fun _ => .pure trivial
  · exact .part fun _ _ => .pure trivial

instance : Places text dialect (enumMember g) :=
  .start fun _ => .part fun _ _ => .step fun _ => .part fun _ _ => .branchFrom

instance : Places text dialect (enumDeclaration g) := by
  refine .of_yields fun _ => .step fun _ => .step fun _ => .part fun _ _ => .step fun _ => ?_
  exact .part fun _ _ => .tree

instance : Places text dialect (namespaceBody g) :=
  .start fun _ => .step fun _ => .part fun _ _ => .branchFrom

instance {reader : Nat → Reader Tree} [∀ start, Places text dialect (reader start)] :
    Places text dialect (fromHere reader) := .of_yields fun _ => .step fun _ => .last

instance (start fuel : Nat) : Places text dialect (namespaceParts g start fuel) := by
  induction fuel generalizing start with
  | zero => exact .of_yields fun _ => .failure
  | succ fuel ih =>
    exact .of_yields fun _ => .part fun _ _ => .step fun _ => .part fun _ _ => .branchFrom

instance : Places text dialect (quotedBody g) := by
  refine .of_yields fun _ => .step fun _ => .ite (fun _ => .last) fun _ => ?_
  exact .step fun _ => .pure trivial

instance : Places text dialect (namespaceDeclaration g) := by
  refine .start fun _ => .step fun _ => .ite (fun _ => ?_) fun _ => .step fun _ => .step fun _ => ?_
  · exact .part fun _ _ => .part fun _ _ => .branchFrom
  · split
    · exact .step fun _ => .part fun _ _ => .branchFrom
    · exact .last

theorem regular_some {reader : Reader Tree} [h : Places text dialect reader] :
    Located.Regular text dialect (some reader) := by
  intro other hother
  obtain rfl := Option.some.inj hother
  exact h

theorem regular_ite {condition : Prop} [Decidable condition] {first : Reader Tree}
    {others : Option (Reader Tree)} (hfirst : Places text dialect first)
    (hothers : Located.Regular text dialect others) :
    Located.Regular text dialect (if condition then some first else others) := by
  split
  · exact regular_some
  · exact hothers

instance : Places text dialect (typedDeclaration? g) := by
  refine .of_yields fun _ => .step fun _ => .step fun _ => .step fun _ => ?_
  dsimp only
  refine .ite (fun _ => .pure nofun) fun _ => .ite (fun _ => .pure regular_some) fun _ =>
    .ite (fun _ => .pure regular_some) fun _ => .ite (fun _ => .pure regular_some) fun _ => ?_
  refine .ite (fun _ => .pure regular_some) fun _ => .ite (fun _ => .pure regular_some) fun _ => ?_
  exact .ite (fun _ => .pure regular_some) fun _ => .pure nofun

instance : Places text dialect atDeclaration := by unfold atDeclaration; infer_instance

instance : Places text dialect (variableStatement g) :=
  .of_yields fun _ => .part fun _ hfound => .step fun _ => .pure hfound

theorem yields_declaration {lo : Nat} {marks : List Tree} (frame : Landmarks) :
    Yields text dialect lo (frame.join (allLandmarks marks)) (declaration g marks)
      fun found => frame.join found.landmarks := by
  refine .part fun more _ => ?_
  dsimp only
  refine .step fun _ => .step fun _ => .ite (fun _ => .last) fun _ => .step fun _ =>
    .ite (fun _ => .weaken (yields_classDeclaration frame)) fun _ => .part fun chosen hchosen => ?_
  split
  · rename_i reader
    have hreader : Places text dialect reader := hchosen reader rfl
    exact .last
  · exact .last

theorem yields_ambientDeclaration {lo : Nat} {marks : List Tree} (frame : Landmarks) :
    Yields text dialect lo (frame.join (allLandmarks marks)) (ambientDeclaration g marks)
      fun found => frame.join found.landmarks :=
  .step fun _ => .step fun _ => .step fun _ => .step fun _ => .step fun _ =>
    yields_declaration frame

/-! ## Control flow -/

instance : Places text dialect (condition g) :=
  .of_yields fun _ => .step fun _ => .part fun _ htest => .step fun _ => .pure htest

instance (start : Nat) : Places text dialect (ifStatement g start) := by
  refine .of_yields fun _ => .step fun _ => .part fun _ _ => .part fun _ _ => .step fun _ => ?_
  exact .part fun _ _ => .branchFrom

instance : Places text dialect (loopOver g) := by
  refine .of_yields fun _ => .step fun _ => .ite (fun _ => .last) fun _ => .step fun _ => .last

instance (mark : String) : Places text dialect (expressionUntil g mark) := by
  refine .of_yields fun _ => .step fun _ => .ite (fun _ => .pure trivial) fun _ => ?_
  exact .part fun _ _ => .step fun _ => .pure trivial

theorem yields_loopSteps {lo : Nat} {first : List Tree} :
    Yields text dialect lo (allLandmarks first) (loopSteps g first) allLandmarks :=
  .step fun _ => .part fun _ _ => .part fun _ _ => .pure trivial

instance : Places text dialect atLoopOver := by unfold atLoopOver; infer_instance

theorem yields_loopEntries {lo : Nat} {first : Tree} :
    Yields text dialect lo first.landmarks (loopEntries g first) allLandmarks :=
  .part fun _ _ => .step fun _ => .pure trivial

instance {reader : Reader Tree} [Places text dialect reader] :
    Places text dialect (inHead reader) := by
  unfold inHead; infer_instance

instance {reader : Reader (List Tree)} [Places text dialect reader] :
    Places text dialect (inHead reader) := by
  unfold inHead; infer_instance

instance : Places text dialect (forHead g) := by
  refine .state fun before hbefore => .step fun _ => .ite (fun _ => .weaken yields_loopSteps)
    fun _ => .step fun _ => .ite (fun _ => ?_) fun _ => ?_
  · refine .part fun found _ => .branch fun first _ => .step fun _ => .ite (fun _ => ?_) fun _ => ?_
    · exact yields_loopEntries
    · exact .step fun _ => .weaken yields_loopSteps
  · refine .part fun first hfirst => .step fun _ => .ite (fun _ => ?_) fun _ => ?_
    · refine .ite (fun _ => .back hbefore ?_) fun _ => ?_
      · exact .part fun _ _ => .weaken yields_loopEntries
      · split
        · rename_i target htarget
          refine .weaken yields_loopEntries fun mark hmark => ?_
          simpa using asTarget_partOf _ htarget mark hmark
        · exact .failure
    · exact .weaken yields_loopSteps

instance (start : Nat) : Places text dialect (forStatement g start) := by
  refine .of_yields fun _ => .step fun _ => .step fun _ => .step fun _ => .part fun _ _ => ?_
  exact .part fun _ _ => .branchFrom

instance (start : Nat) : Places text dialect (whileStatement g start) :=
  .of_yields fun _ => .step fun _ => .part fun _ _ => .part fun _ _ => .branchFrom

instance (start : Nat) : Places text dialect (doStatement g start) := by
  refine .of_yields fun _ => .step fun _ => .part fun _ _ => .step fun _ => .part fun _ _ => ?_
  exact .step fun _ => .branchFrom

instance (fuel : Nat) : Places text dialect (caseBody g fuel) := by
  induction fuel with
  | zero => exact .of_yields fun _ => .failure
  | succ fuel ih =>
    refine .of_yields fun _ => .step fun _ => .step fun _ => .step fun _ => .ite (fun _ => ?_)
      fun _ => ?_
    · exact .pure trivial
    · exact .part fun _ _ => .part fun _ _ => .pure trivial

instance : Places text dialect (caseValue g) := by
  refine .of_yields fun _ => .step fun _ => .ite (fun _ => .pure trivial) fun _ => ?_
  exact .step fun _ => .last

instance : Places text dialect (switchCase g) :=
  .start fun _ => .part fun _ _ => .step fun _ => .part fun _ _ => .branchFrom

instance (start : Nat) : Places text dialect (switchStatement g start) := by
  refine .of_yields fun _ => .step fun _ => .part fun _ _ => .step fun _ => .part fun _ _ => ?_
  exact .branchFrom

instance : Places text dialect (catchParameter g) := by
  refine .of_yields fun lo => .step fun _ => .ite (fun _ => ?_) fun _ => .pure trivial
  refine .part fun parameter _ => .part fun type _ => .step fun _ => ?_
  refine .pure trivial fun mark hmark => ?_
  simpa using annotate_partOf lo parameter type mark hmark

instance : Places text dialect (catchClause g) :=
  .start fun _ => .step fun _ => .part fun _ _ => .part fun _ _ => .branchFrom

instance (start : Nat) : Places text dialect (tryStatement g start) := by
  refine .of_yields fun _ => .step fun _ => .part fun _ _ => .step fun _ => .part fun _ _ => ?_
  exact .step fun _ => .part fun _ _ => .step fun _ => .branchFrom

instance (start : Nat) (kind : BranchKind) (needed : Bool) :
    Places text dialect (exitStatement g start kind needed) := by
  refine .of_yields fun _ => .step fun _ => .step fun _ => ?_
  dsimp only
  exact .step fun _ => .part fun _ _ => .step fun _ => .branchFrom

instance (start : Nat) : Places text dialect (jumpStatement start) := by
  refine .of_yields fun _ => .step fun _ => .step fun _ => .step fun _ => .part fun _ _ => ?_
  exact .step fun _ => .branchFrom

theorem regular_keywordStatement {start : Nat} {name : String} :
    Located.Regular text dialect (keywordStatement g start name) := by
  refine regular_ite inferInstance (regular_ite inferInstance (regular_ite inferInstance
    (regular_ite inferInstance (regular_ite inferInstance (regular_ite inferInstance
    (regular_ite inferInstance (regular_ite inferInstance (regular_ite inferInstance
    (regular_ite ?_ (regular_ite ?_ nofun))))))))))
  · exact .of_yields fun _ => .step fun _ => .part fun _ _ => .part fun _ _ => .branchFrom
  · exact .of_yields fun _ => .step fun _ => .step fun _ => .last

theorem yields_expressionStatement {lo start : Nat} :
    Yields text dialect lo {} (expressionStatement g start) Tree.landmarks :=
  .part fun _ _ => .step fun _ => .branchFrom

theorem yields_labeledStatement {lo start : Nat} :
    Yields text dialect lo {} (labeledStatement g start) Tree.landmarks :=
  .part fun _ _ => .step fun _ => .part fun _ _ => .branchFrom

theorem yields_plainStatement {lo start : Nat} :
    Yields text dialect lo {} (plainStatement g start) Tree.landmarks := by
  refine .step fun token => .step fun _ => ?_
  split
  · exact .last
  · exact .step fun _ => .last
  · refine .part fun _ _ => .step fun _ => .step fun _ => .ite (fun _ => ?_) fun _ => ?_
    · exact .weaken (yields_ambientDeclaration {}).unframed
    · exact .weaken (yields_declaration {}).unframed
  · refine .ite (fun _ => yields_labeledStatement) fun _ =>
      .ite (fun _ => yields_expressionStatement) fun _ => ?_
    split
    · rename_i reader hchosen
      have hreader : Places text dialect reader := regular_keywordStatement reader hchosen
      exact .last
    · refine .step fun _ => .ite (fun _ => .weaken (yields_declaration {}).unframed) fun _ => ?_
      refine .step fun _ =>
        .ite (fun _ => .weaken (yields_ambientDeclaration {}).unframed) fun _ => ?_
      refine .part fun chosen hchosen => ?_
      split
      · rename_i reader
        have hreader : Places text dialect reader := hchosen reader rfl
        exact .last
      · refine .step fun _ => .ite (fun _ => .last) fun _ => ?_
        exact .weaken yields_expressionStatement
  · exact yields_expressionStatement

instance : Places text dialect (statement g) :=
  .start fun _ => .next yields_plainStatement fun _ hfound => .anchored hfound

end Grammar

end SdkMigration
