import SdkMigration.Proofs.Learning
import SdkMigration.Proofs.Lookups

/-!
# Runs of operations on bindings

The bindings of a file are built and changed by five operations, in any order and
number.  A match is recorded under an index, and settling drops aliases, so the alias
that an index means depends on what was done before.

Single exports are only ever added, so one keeps its index, and of all that is done it
keeps the first target that is recorded for it (`named_run`).  An alias is followed
through a run from the index at which it is (`place?`), together with whether a match was
recorded for it on the way (`isMatched`): it is dropped when it is tentative and is
settled before a match of it, and else it is where it was followed to (`whole_run`).
-/

namespace SdkMigration

/-- Whether settling keeps an alias. -/
def WholeImport.isKept (whole : WholeImport) : Bool := !whole.tentative || whole.matched

namespace Bindings

/-- What is done to the bindings of a file. -/
inductive Operation where
  /-- A single export is bound. -/
  | bindExport (named : NamedImport)
  /-- The module is bound as a whole. -/
  | bindModule (name : String) (style : WholeStyle)
  | addTentative (name : String)
  | recordMatch (origin : Origin) (target : NamePath)
  | settle

/-- Carries out an operation. -/
def perform (bindings : Bindings) : Operation → Bindings
  | .bindExport named => bindings.addNamed named
  | .bindModule name style => bindings.addWhole { name, style }
  | .addTentative name => bindings.addTentative name
  | .recordMatch origin target => bindings.recordMatch origin target.first
  | .settle => bindings.settle

/-- Carries out operations one after the other. -/
def run (bindings : Bindings) (operations : List Operation) : Bindings :=
  operations.foldl perform bindings

variable {bindings : Bindings} {index : Nat}

/-! ## Matches -/

/-- Whether bindings come from others by a match that is recorded for an origin: the entry
that the origin names has learned it, and all others are as they were. -/
structure Records (origin : Origin) (target : String) (before after : Bindings) : Prop where
  named : ∀ index : Nat, after.named[index]? =
    if origin = .named index then
      before.named[index]?.map fun named =>
        { named with target := named.target.or (some target) }
    else before.named[index]?
  whole : ∀ index : Nat, after.whole[index]? =
    if origin = .whole index then
      before.whole[index]?.map fun whole => { whole with matched := true }
    else before.whole[index]?

theorem records_recordMatch (bindings : Bindings) (origin : Origin) (target : String) :
    Records origin target bindings (bindings.recordMatch origin target) := by
  cases origin with
  | named own =>
    refine ⟨fun index => ?_, fun index => by rw [if_neg (by simp)]; rfl⟩
    simp only [recordMatch, getElem?_changeAt, Origin.named.injEq, eq_comm (a := own),
      Option.orElse_eq_orElse, Option.orElse_eq_or]
  | whole own =>
    refine ⟨fun index => by rw [if_neg (by simp)]; rfl, fun index => ?_⟩
    simp only [recordMatch, getElem?_changeAt, Origin.whole.injEq, eq_comm (a := own)]

/-! ## Single exports -/

/-- The target that an operation records for the single export at an index. -/
def Operation.target? (index : Nat) : Operation → Option String
  | .recordMatch (.named other) target => if other = index then some target.first else none
  | _ => none

/-- The first target that operations record for the single export at an index. -/
def firstTarget? (index : Nat) (operations : List Operation) : Option String :=
  operations.findSome? (Operation.target? index)

theorem named_perform {named : NamedImport} (h : bindings.named[index]? = some named)
    (operation : Operation) :
    (bindings.perform operation).named[index]? =
      some { named with target := named.target.or (operation.target? index) } := by
  have hsame : some { named with target := named.target.or none } = bindings.named[index]? := by
    rw [Option.or_none, h]
  cases operation with
  | bindExport other =>
    have hlt := (List.getElem?_eq_some_iff.mp h).1
    exact (List.getElem?_append_left hlt).trans hsame.symm
  | bindModule name style => exact hsame.symm
  | addTentative name =>
    simp only [perform, Bindings.addTentative]
    split <;> exact hsame.symm
  | recordMatch origin target =>
    rw [perform, (records_recordMatch bindings origin target.first).named, h]
    cases origin with
    | named other =>
      by_cases hother : other = index
      · simp [Operation.target?, hother]
      · simp [Operation.target?, hother]
    | whole other => exact h.symm.trans hsame.symm
  | settle => exact hsame.symm

/-- A single export stays where it is and keeps its target, or takes the first one that is
recorded for it. -/
theorem named_run {named : NamedImport} (h : bindings.named[index]? = some named)
    (operations : List Operation) :
    (bindings.run operations).named[index]? =
      some { named with target := named.target.or (firstTarget? index operations) } := by
  induction operations generalizing bindings named with
  | nil => simpa [run, firstTarget?] using h
  | cons operation rest ih =>
    have hrest := ih (named_perform h operation)
    have hfirst : firstTarget? index (operation :: rest) =
        (operation.target? index).or (firstTarget? index rest) := by
      cases htarget : operation.target? index <;> simp [firstTarget?, htarget]
    rw [run, List.foldl_cons, ← run, hrest, hfirst, Option.or_assoc]

/-! ## The global name -/

theorem addTentative_of_tracks {name : String} (h : bindings.tracks name = true) :
    bindings.addTentative name = bindings := if_pos h

/-- A tentative alias binds its own name once, unless that is bound already, and no other. -/
theorem count_localNames_addTentative (bindings : Bindings) (name other : String) :
    (bindings.addTentative name).localNames.count other =
      if bindings.tracks name = false ∧ other = name then 1
      else bindings.localNames.count other := by
  cases htracks : bindings.tracks name with
  | true => rw [addTentative_of_tracks htracks, if_neg (by simp)]
  | false =>
    have hadded : (bindings.addTentative name).localNames = bindings.localNames ++ [name] := by
      simp [Bindings.addTentative, htracks, addWhole, localNames]
    have hnone : bindings.localNames.count name = 0 := by
      rw [List.count_eq_zero, ← tracks_iff, htracks]
      exact Bool.false_ne_true
    rw [hadded, List.count_append]
    by_cases hsame : other = name
    · simp [hsame, hnone]
    · simp [hsame, Ne.symm hsame]

/-! ## Settling -/

/-- Whether bindings are what is left of others when the tentative aliases without a match
are dropped, and nothing else. -/
structure Settles (before after : Bindings) : Prop where
  named : after.named = before.named
  order : after.whole.Sublist before.whole
  count : ∀ whole, after.whole.count whole =
    if whole.tentative = true ∧ whole.matched = false then 0 else before.whole.count whole

theorem settles_settle (bindings : Bindings) : Settles bindings bindings.settle where
  named := rfl
  order := List.filter_sublist
  count whole := by
    unfold settle
    split
    · rename_i hdropped
      rw [List.count_eq_zero]
      intro hmem
      simpa [hdropped.1, hdropped.2] using (List.mem_filter.mp hmem).2
    · rename_i hkept
      exact List.count_filter (by simpa [imp_iff_not_or] using hkept)

theorem settle_settle (bindings : Bindings) : bindings.settle.settle = bindings.settle := by
  simp only [settle, List.filter_filter, Bool.and_self]

theorem hasTentative_iff :
    bindings.hasTentative = true ↔ ∃ whole ∈ bindings.whole, whole.tentative = true :=
  List.any_eq_true

/-- A tentative alias without a match does not outlast settling. -/
theorem whole_settle_addTentative (h : bindings.settle = bindings) (name : String)
    {operations : List Operation} (hrecords : ∀ operation ∈ operations,
      ∃ index target, operation = .recordMatch (.named index) target) :
    ((bindings.addTentative name).run operations).settle.whole = bindings.whole := by
  have hsame : ((bindings.addTentative name).run operations).whole =
      (bindings.addTentative name).whole := by
    generalize bindings.addTentative name = before
    induction operations generalizing before with
    | nil => rfl
    | cons operation rest ih =>
      obtain ⟨index, target, rfl⟩ := hrecords operation List.mem_cons_self
      exact ih (fun other hother => hrecords other (List.mem_cons_of_mem _ hother)) _
  have hwhole : bindings.whole.filter WholeImport.isKept = bindings.whole :=
    congrArg Bindings.whole h
  change ((bindings.addTentative name).run operations).whole.filter WholeImport.isKept = _
  rw [hsame, Bindings.addTentative]
  split
  · exact hwhole
  · rw [addWhole, List.filter_append, hwhole]
    exact List.append_nil _

/-! ## Aliases -/

/-- The index to which an operation moves the alias at an index, or none if it drops the
alias. -/
def Operation.move? (bindings : Bindings) (index : Nat) : Operation → Option Nat
  | .settle =>
    if bindings.whole[index]?.any WholeImport.isKept then
      some ((bindings.whole.take index).countP WholeImport.isKept)
    else none
  | _ => some index

/-- Whether an operation records a match of the alias at an index. -/
def Operation.isMatch (index : Nat) : Operation → Bool
  | .recordMatch (.whole other) _ => other == index
  | _ => false

/-- The index to which operations move the alias at an index, or none if one of them drops
the alias. -/
def place? (bindings : Bindings) (index : Nat) : List Operation → Option Nat
  | [] => some index
  | operation :: rest =>
    (operation.move? bindings index).bind fun next =>
      (bindings.perform operation).place? next rest

/-- Whether one of the operations records a match of the alias that is at an index before
them. -/
def isMatched (bindings : Bindings) (index : Nat) : List Operation → Bool
  | [] => false
  | operation :: rest =>
    operation.isMatch index || (operation.move? bindings index).any fun next =>
      (bindings.perform operation).isMatched next rest

/-- What is kept of a list comes behind what is kept before it. -/
private theorem getElem?_filter_countP {α : Type} {p : α → Bool} {list : List α} {a : α}
    (h : list[index]? = some a) (hp : p a = true) :
    (list.filter p)[(list.take index).countP p]? = some a := by
  induction list generalizing index with
  | nil => cases h
  | cons first rest ih =>
    cases index with
    | zero =>
      obtain rfl := Option.some.inj h
      simp [hp]
    | succ index =>
      have hrest := ih h
      by_cases hfirst : p first = true
      · simpa [hfirst] using hrest
      · simpa [hfirst] using hrest

theorem whole_perform {whole : WholeImport} (h : bindings.whole[index]? = some whole)
    (operation : Operation) {next : Nat} (hnext : operation.move? bindings index = some next) :
    (bindings.perform operation).whole[next]? =
      some { whole with matched := whole.matched || operation.isMatch index } := by
  have hsame : some { whole with matched := whole.matched || false } = bindings.whole[index]? := by
    rw [Bool.or_false, h]
  have hlt := (List.getElem?_eq_some_iff.mp h).1
  cases operation with
  | bindExport named =>
    obtain rfl := Option.some.inj hnext
    exact hsame.symm
  | bindModule name style =>
    obtain rfl := Option.some.inj hnext
    exact (List.getElem?_append_left hlt).trans hsame.symm
  | addTentative name =>
    obtain rfl := Option.some.inj hnext
    rw [perform, Bindings.addTentative]
    split
    · exact hsame.symm
    · exact (List.getElem?_append_left hlt).trans hsame.symm
  | recordMatch origin target =>
    obtain rfl := Option.some.inj hnext
    rw [perform, (records_recordMatch bindings origin target.first).whole, h]
    cases origin with
    | named other => exact h.symm.trans hsame.symm
    | whole other =>
      by_cases hother : other = index
      · simp [Operation.isMatch, hother]
      · have hno : (other == index) = false := beq_false_of_ne hother
        simp [Operation.isMatch, hother, hno]
  | settle =>
    simp only [Operation.move?, h, Option.any_some, Option.ite_none_right_eq_some] at hnext
    obtain ⟨hkept, hindex⟩ := hnext
    rw [← Option.some.inj hindex]
    exact (getElem?_filter_countP h hkept).trans (h.symm.trans hsame.symm)

/-- Only settling drops an alias, and only one that is tentative and has no match. -/
theorem move?_eq_none_iff {whole : WholeImport} (h : bindings.whole[index]? = some whole)
    (operation : Operation) :
    operation.move? bindings index = none ↔
      operation = .settle ∧ whole.tentative = true ∧ whole.matched = false := by
  cases operation with
  | settle =>
    simp only [Operation.move?, h, Option.any_some, true_and]
    cases htentative : whole.tentative <;> cases hmatched : whole.matched <;>
      simp [WholeImport.isKept, htentative, hmatched]
  | _ => simp [Operation.move?]

/-- An alias that is followed through a run is found where it has gone, used when it was
used before or a match of it was recorded on the way. -/
theorem whole_run {whole : WholeImport} (h : bindings.whole[index]? = some whole)
    (operations : List Operation) {last : Nat}
    (hlast : bindings.place? index operations = some last) :
    (bindings.run operations).whole[last]? =
      some { whole with matched := whole.matched || bindings.isMatched index operations } := by
  induction operations generalizing bindings index whole with
  | nil =>
    obtain rfl := Option.some.inj hlast
    simpa [run, isMatched] using h
  | cons operation rest ih =>
    obtain ⟨next, hnext, hrest⟩ := Option.bind_eq_some_iff.mp hlast
    rw [run, List.foldl_cons, ← run, ih (whole_perform h operation hnext) hrest]
    simp only [isMatched, hnext, Option.any_some, Bool.or_assoc]

/-- A run drops an alias exactly when the alias is tentative and is settled before it was
used. -/
theorem place?_eq_none_iff {whole : WholeImport} (h : bindings.whole[index]? = some whole)
    (operations : List Operation) :
    bindings.place? index operations = none ↔
      whole.tentative = true ∧ whole.matched = false ∧ ∃ before after,
        operations = before ++ .settle :: after ∧ bindings.isMatched index before = false := by
  induction operations generalizing bindings index whole with
  | nil => simp [place?]
  | cons operation rest ih =>
    cases hnext : operation.move? bindings index with
    | none =>
      obtain ⟨rfl, htentative, hmatched⟩ := (move?_eq_none_iff h operation).mp hnext
      simp only [place?, hnext, Option.bind_none, htentative, hmatched, true_and, true_iff]
      exact ⟨[], rest, rfl, rfl⟩
    | some next =>
      have hmoved := ih (whole_perform h operation hnext)
      simp only [place?, hnext, Option.bind_some, hmoved, Bool.or_eq_false_iff, and_assoc]
      refine and_congr_right fun htentative => and_congr_right fun hmatched => ?_
      constructor
      · rintro ⟨hmatch, before, after, rfl, hbefore⟩
        exact ⟨operation :: before, after, rfl, by simp [isMatched, hmatch, hnext, hbefore]⟩
      · rintro ⟨before, after, hsplit, hbefore⟩
        cases before with
        | nil =>
          obtain ⟨rfl, -⟩ := List.cons.inj hsplit
          rw [(move?_eq_none_iff h .settle).mpr ⟨rfl, htentative, hmatched⟩] at hnext
          cases hnext
        | cons first before =>
          obtain ⟨rfl, rfl⟩ := List.cons.inj hsplit
          simp only [isMatched, hnext, Option.any_some, Bool.or_eq_false_iff] at hbefore
          exact ⟨hbefore.1, before, after, rfl, hbefore.2⟩

theorem move?_lt {other next after : Nat} (operation : Operation) (h : index < other)
    (hnext : operation.move? bindings index = some next)
    (hafter : operation.move? bindings other = some after) : next < after := by
  cases operation with
  | settle =>
    simp only [Operation.move?, Option.ite_none_right_eq_some, Option.some.injEq,
      Option.any_eq_true] at hnext hafter
    obtain ⟨⟨whole, hwhole, hkept⟩, rfl⟩ := hnext
    rw [← hafter.2]
    -- The first of the two is itself kept before the other.
    have hsplit : bindings.whole.take (index + 1) = bindings.whole.take index ++ [whole] := by
      rw [List.take_add_one, hwhole, Option.toList_some]
    have hcount : (bindings.whole.take (index + 1)).countP WholeImport.isKept =
        (bindings.whole.take index).countP WholeImport.isKept + 1 := by
      rw [hsplit, List.countP_append, List.countP_singleton, if_pos hkept]
    have hle : (bindings.whole.take (index + 1)).countP WholeImport.isKept ≤
        (bindings.whole.take other).countP WholeImport.isKept :=
      (List.take_sublist_take_left h).countP_le
    omega
  | _ =>
    obtain rfl := Option.some.inj hnext
    obtain rfl := Option.some.inj hafter
    exact h

/-- Aliases that are left stay in their order. -/
theorem place?_lt {other last after : Nat} (operations : List Operation) (h : index < other)
    (hlast : bindings.place? index operations = some last)
    (hafter : bindings.place? other operations = some after) : last < after := by
  induction operations generalizing bindings index other with
  | nil =>
    obtain rfl := Option.some.inj hlast
    obtain rfl := Option.some.inj hafter
    exact h
  | cons operation rest ih =>
    obtain ⟨next, hnext, hrest⟩ := Option.bind_eq_some_iff.mp hlast
    obtain ⟨beyond, hbeyond, hother⟩ := Option.bind_eq_some_iff.mp hafter
    exact ih (move?_lt operation h hnext hbeyond) hrest hother

/-! ## All operations -/

/-- Whatever was done to bindings before, a match changes the entry of its origin alone, a
single export keeps its target or takes the first one that is recorded for it later, and a
tentative alias is added only under a name that is not bound, so that no bound name becomes
ambiguous.  Settling drops the tentative aliases without a match and nothing else, a second
time nothing, and tells whether a tentative alias is left; an alias that is added between two
settlings without a match is gone.  An alias is dropped later exactly when it is tentative and
is settled before a match of it is recorded, and else it is found where it was followed to. -/
theorem run_lawful (earlier : List Operation) :
    let bindings := run {} earlier
    (∀ origin target, Records origin target bindings (bindings.recordMatch origin target)) ∧
    (∀ later (index : Nat) named, bindings.named[index]? = some named →
      (bindings.run later).named[index]? =
        some { named with target := named.target.or (firstTarget? index later) }) ∧
    (∀ name, (bindings.tracks name = true → bindings.addTentative name = bindings) ∧
      ∀ other, (bindings.addTentative name).localNames.count other =
        if bindings.tracks name = false ∧ other = name then 1
        else bindings.localNames.count other) ∧
    (Settles bindings bindings.settle ∧ bindings.settle.settle = bindings.settle ∧
      (bindings.settle.hasTentative = true ↔
        ∃ whole ∈ bindings.settle.whole, whole.tentative = true)) ∧
    (∀ name records, bindings.settle = bindings →
      (∀ operation ∈ records, ∃ index target, operation = .recordMatch (.named index) target) →
      ((bindings.addTentative name).run records).settle.whole = bindings.whole) ∧
    ∀ later (index : Nat) whole, bindings.whole[index]? = some whole →
      (∀ last, bindings.place? index later = some last →
        (bindings.run later).whole[last]? =
          some { whole with matched := whole.matched || bindings.isMatched index later } ∧
        ∀ other after, index < other → bindings.place? other later = some after →
          last < after) ∧
      (bindings.place? index later = none ↔ whole.tentative = true ∧ whole.matched = false ∧
        ∃ before after, later = before ++ .settle :: after ∧
          bindings.isMatched index before = false) := by
  intro bindings
  refine ⟨records_recordMatch bindings, fun later index named h => named_run h later,
    fun name => ⟨addTentative_of_tracks, count_localNames_addTentative bindings name⟩,
    ⟨settles_settle bindings, settle_settle bindings, hasTentative_iff⟩,
    fun name records h hrecords => whole_settle_addTentative h name hrecords,
    fun later index whole h => ⟨fun last hlast => ?_, place?_eq_none_iff h later⟩⟩
  exact ⟨whole_run h later hlast, fun other after hlt hafter => place?_lt later hlt hlast hafter⟩

/-- Bindings with an export and two aliases, the first one tentative. -/
private def threeBound : List Operation :=
  [.addTentative "microsoftTeams", .bindExport { exported := "settings" },
    .bindModule "teams" .namespace]

/-- Matches of the export before and behind a settling, and then of the alias that is left. -/
private def threeMatches : List Operation :=
  [.recordMatch (.named 0) ⟨"pages", ["config"]⟩, .settle, .recordMatch (.whole 0) ⟨"app", []⟩,
    .recordMatch (.named 0) ⟨"app", []⟩]

/-- The export keeps the first target, the tentative alias is dropped, and the match under its
index is one of the other alias. -/
theorem threeMatches_lawful :
    ((run {} threeBound).run threeMatches).named[0]? =
      some { exported := "settings", target := some "pages" } ∧
    (run {} threeBound).place? 0 threeMatches = none ∧
    ((run {} threeBound).run threeMatches).whole[0]? =
      some { name := "teams", style := .namespace, matched := true } := by
  obtain ⟨-, hnamed, -, -, -, hwhole⟩ := run_lawful threeBound
  refine ⟨?_, ?_, ?_⟩
  · rw [hnamed threeMatches 0 { exported := "settings" } (by decide +kernel)]
    decide +kernel
  · refine (hwhole threeMatches 0 _ (by rfl)).2.mpr ⟨rfl, rfl, ?_⟩
    exact ⟨threeMatches.take 1, threeMatches.drop 2, rfl, by decide +kernel⟩
  · rw [((hwhole threeMatches 1 _ (by rfl)).1 0 (by decide +kernel)).1]
    decide +kernel

end Bindings

end SdkMigration
