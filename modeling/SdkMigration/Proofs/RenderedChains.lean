import Mathlib.Data.List.Perm.Subperm
import SdkMigration.Proofs.Stages.Guards

/-!
# How chains are rendered

A replacement of a chain is its names joined by dots, with the question marks of the chain carried
over.  The names that both start with decide where they go: a question mark behind these names
alone stays, and every other one moves to the last access (`Chain.Carries`).

What is written can be read as a chain again, which may be rewritten by the same rule.  Its
question marks are where they were put, and none of them moves.  A name of a replacement can have a
dot, and then the chain that is read has more names, so places in the text are told by counting
its dots.
-/

namespace SdkMigration

/-! ## The names that stay -/

/-- Whether names are the longest that two lists of names both start with. -/
structure LongestPrefix (names tokens shared : List String) : Prop where
  left : shared <+: names
  right : shared <+: tokens
  longest : ∀ other, other <+: names → other <+: tokens → other.length ≤ shared.length

theorem commonPrefix_le (segments : List Segment) (tokens : List String) :
    commonPrefix segments tokens ≤ tokens.length := by
  induction segments generalizing tokens with
  | nil => simp [commonPrefix]
  | cons segment others ih =>
    cases tokens with
    | nil => simp [commonPrefix]
    | cons token rest =>
      have hrest := ih rest
      unfold commonPrefix
      split
      · simpa using hrest
      · exact Nat.zero_le _

/-- Names at the start of a replacement stay when the chain starts with them. -/
theorem le_commonPrefix_iff {segments : List Segment} {tokens : List String} {count : Nat}
    (hle : count ≤ tokens.length) :
    count ≤ commonPrefix segments tokens ↔ tokens.take count <+: segments.map (·.name) := by
  induction segments generalizing tokens count with
  | nil =>
    rw [List.map_nil, List.prefix_nil, List.take_eq_nil_iff, ← List.length_eq_zero_iff]
    simp only [commonPrefix]
    omega
  | cons segment others ih =>
    cases tokens with
    | nil => simpa [commonPrefix] using hle
    | cons token rest =>
      cases count with
      | zero => simp
      | succ count =>
        have hrest : count ≤ rest.length := Nat.le_of_succ_le_succ hle
        have hstep : commonPrefix (segment :: others) (token :: rest) =
            if segment.name = token then commonPrefix others rest + 1 else 0 := rfl
        rw [List.take_succ_cons, List.map_cons, List.cons_prefix_cons, ← ih hrest, hstep,
          eq_comm (a := token)]
        split
        · rename_i hsame
          simp [hsame]
        · rename_i hother
          simp [hother]

theorem longestPrefix_commonPrefix (segments : List Segment) (tokens : List String) :
    LongestPrefix (segments.map (·.name)) tokens
      (tokens.take (commonPrefix segments tokens)) where
  left := (le_commonPrefix_iff (commonPrefix_le segments tokens)).mp (Nat.le_refl _)
  right := List.take_prefix _ _
  longest other hnames htokens := by
    rw [List.length_take, Nat.min_eq_left (commonPrefix_le segments tokens)]
    refine (le_commonPrefix_iff htokens.length_le).mpr ?_
    rwa [← List.prefix_iff_eq_take.mp htokens]

/-! ## The accesses that are optional -/

/-- Whether an access of a replacement is optional, the access before the name at a position among
so many names of which so many stay.  Either the chain has it there behind names that stay, or it
is the last one, and the chain has an optional access behind a name that changes or where the
replacement has ended. -/
inductive Chain.Carries (chain : Chain) (kept length position : Nat) : Prop where
  | stays {segment : Segment} (found : chain.segments[position]? = some segment)
    (optional : segment.optional = true) (behind : position ≤ kept) :
    Carries chain kept length position
  | moves {other : Nat} {segment : Segment} (last : position + 1 = length)
    (found : chain.segments[other]? = some segment) (optional : segment.optional = true)
    (changed : kept < other ∨ length ≤ other) : Carries chain kept length position

namespace Chain

variable {chain : Chain} {path : NamePath} {tokens : List String} {position : Nat}

theorem hopIsOptional_iff : chain.hopIsOptional tokens position = true ↔
    chain.Carries (commonPrefix chain.segments tokens) tokens.length position := by
  simp only [hopIsOptional, Bool.or_eq_true, Bool.and_eq_true, decide_eq_true_eq, beq_iff_eq,
    Option.any_eq_true, movesHop_iff, Nat.zero_add]
  constructor
  · rintro (⟨hbehind, segment, hfound, hoptional⟩ | ⟨hlast, other, segment, hfound, hoptional,
      hchanged⟩)
    · exact .stays hfound hoptional hbehind
    · exact .moves hlast hfound hoptional hchanged
  · rintro (⟨hfound, hoptional, hbehind⟩ | ⟨hlast, hfound, hoptional, hchanged⟩)
    · exact Or.inl ⟨hbehind, _, hfound, hoptional⟩
    · exact Or.inr ⟨hlast, _, _, hfound, hoptional, hchanged⟩

theorem getElem?_hops (h : position < path.rest.length) :
    (chain.hops path)[position]? = some (chain.hopIsOptional path.names (position + 1)) := by
  simp [hops, h, Nat.add_comm]

/-- The places of the optional accesses of a chain. -/
private def guards (chain : Chain) : List Nat :=
  (List.range' 1 chain.rest.length).filter fun index => (chain.segments[index]?).any (·.optional)

private theorem mem_guards {index : Nat} : index ∈ chain.guards ↔
    0 < index ∧ ∃ segment, chain.segments[index]? = some segment ∧ segment.optional = true := by
  have hlength : chain.segments.length = chain.rest.length + 1 := rfl
  simp only [guards, List.mem_filter, List.mem_range'_1, Option.any_eq_true]
  constructor
  · rintro ⟨⟨hpositive, -⟩, hoptional⟩
    exact ⟨hpositive, hoptional⟩
  · rintro ⟨hpositive, segment, hsegment, hoptional⟩
    have hlt := (List.getElem?_eq_some_iff.mp hsegment).1
    exact ⟨⟨hpositive, by omega⟩, segment, hsegment, hoptional⟩

private theorem length_guards (chain : Chain) :
    chain.guards.length = chain.rest.countP (·.optional) := by
  have hcount : ∀ (before : List Segment) (list : List Segment),
      ((List.range' before.length list.length).filter fun index =>
        ((before ++ list)[index]?).any (·.optional)).length = list.countP (·.optional) := by
    intro before list
    induction list generalizing before with
    | nil => rfl
    | cons segment rest ih =>
      have hrest := ih (before ++ [segment])
      rw [List.append_assoc, List.singleton_append, List.length_append, List.length_singleton]
        at hrest
      rw [List.length_cons, List.range'_succ, List.filter_cons, List.countP_cons]
      have hhere : ((before ++ segment :: rest)[before.length]?).any (·.optional) =
          segment.optional := by simp
      rw [hhere]
      split
      · rw [List.length_cons, hrest]
      · rw [hrest, Nat.add_zero]
  exact hcount [chain.head] chain.rest

/-- A replacement has no more optional accesses than the chain.  Those but for the last have stayed,
and if there is one that has moved, it is none of these. -/
theorem count_hops_le (chain : Chain) (path : NamePath) :
    (chain.hops path).count true ≤ chain.rest.countP (·.optional) := by
  have hlength : path.names.length = path.rest.length + 1 := rfl
  let written := (List.range' 1 path.rest.length).filter (chain.hopIsOptional path.names)
  have hwritten : (chain.hops path).count true = written.length := by
    rw [hops, List.count_eq_countP, List.countP_map, List.countP_eq_length_filter]
    simp [written, Function.comp_def]
  have hnodup : written.Nodup := List.Nodup.filter _ List.nodup_range'
  have hcarries : ∀ index ∈ written, 0 < index ∧ index < path.names.length ∧
      chain.Carries (commonPrefix chain.segments path.names) path.names.length index := by
    intro index h
    obtain ⟨hrange, hoptional⟩ := List.mem_filter.mp h
    have hbounds := List.mem_range'_1.mp hrange
    exact ⟨hbounds.1, by omega, hopIsOptional_iff.mp hoptional⟩
  rw [hwritten, ← length_guards]
  by_cases hmoves : ∃ other segment, chain.segments[other]? = some segment ∧
      segment.optional = true ∧
      (commonPrefix chain.segments path.names < other ∨ path.names.length ≤ other)
  · obtain ⟨other, segment, hfound, hoptional, hchanged⟩ := hmoves
    have hstayed : ∀ index ∈ written.erase path.rest.length, index ∈ chain.guards ∧
        index ≤ commonPrefix chain.segments path.names ∧ index < path.names.length := by
      intro index h
      obtain ⟨hnotLast, hmem⟩ := hnodup.mem_erase_iff.mp h
      obtain ⟨hpositive, hlt, ⟨hat, hsegment, hbehind⟩ | ⟨hlast, -, -, -⟩⟩ := hcarries index hmem
      · exact ⟨mem_guards.mpr ⟨hpositive, _, hat, hsegment⟩, hbehind, hlt⟩
      · omega
    have hnew : other ∉ written.erase path.rest.length := fun h => by
      have hother := hstayed other h
      omega
    have hall : other :: written.erase path.rest.length ⊆ chain.guards := by
      refine List.cons_subset.mpr ⟨mem_guards.mpr ⟨by omega, segment, hfound, hoptional⟩, ?_⟩
      exact fun index h => (hstayed index h).1
    have hcount := ((List.nodup_cons.mpr ⟨hnew, hnodup.erase _⟩).subperm hall).length_le
    have herased := @List.le_length_erase _ _ _ path.rest.length written
    rw [List.length_cons] at hcount
    omega
  · refine (hnodup.subperm fun index h => ?_).length_le
    obtain ⟨hpositive, -, ⟨hat, hsegment, -⟩ | ⟨-, hfound, hoptional, hchanged⟩⟩ :=
      hcarries index h
    · exact mem_guards.mpr ⟨hpositive, _, hat, hsegment⟩
    · exact absurd ⟨_, _, hfound, hoptional, hchanged⟩ hmoves

end Chain

/-! ## Where the question marks are in a text -/

/-- Whether a text, or one before it when it is empty, ends in a question mark. -/
def Text.endsMarked (before : Bool) (text : Text) : Bool := text.foldl (fun _ c => c == '?') before

/-- For each dot of a text, whether a question mark stands before it, `before` telling whether one
stands before the text. -/
def Text.markedDots (before : Bool) : Text → List Bool
  | [] => []
  | c :: rest => (if c = '.' then [before] else []) ++ markedDots (c == '?') rest

/-- How many dots names have. -/
def dotCount (names : List String) : Nat := (names.map fun name => name.toList.count '.').sum

theorem dotCount_append (names others : List String) :
    dotCount (names ++ others) = dotCount names + dotCount others := by
  simp [dotCount]

theorem dotCount_eq_zero_iff {names : List String} :
    dotCount names = 0 ↔ ∀ name ∈ names, DotFree name := by
  induction names with
  | nil => simp [dotCount]
  | cons name rest ih =>
    have hcons : dotCount (name :: rest) = name.toList.count '.' + dotCount rest := rfl
    rw [hcons, Nat.add_eq_zero_iff, ih, List.count_eq_zero, List.forall_mem_cons]
    rfl

namespace Text

theorem markedDots_append (before : Bool) (text rest : Text) :
    markedDots before (text ++ rest) =
      markedDots before text ++ markedDots (endsMarked before text) rest := by
  induction text generalizing before with
  | nil => rfl
  | cons c others ih =>
    rw [List.cons_append, markedDots, markedDots, ih, List.append_assoc]
    rfl

/-- A text without question marks has plain dots. -/
theorem markedDots_of_unmarked {text : Text} (h : '?' ∉ text) :
    markedDots false text = List.replicate (text.count '.') false ∧
      endsMarked false text = false := by
  induction text with
  | nil => exact ⟨rfl, rfl⟩
  | cons c rest ih =>
    obtain ⟨hc, hrest⟩ := not_or.mp (mt List.mem_cons.mpr h)
    obtain ⟨hdots, hends⟩ := ih hrest
    have hplain : (c == '?') = false := by simpa using fun hmark => hc hmark.symm
    constructor
    · rw [markedDots, hplain, hdots, List.count_cons]
      by_cases hdot : c = '.'
      · simp [hdot, List.replicate_succ]
      · simp [hdot]
    · rw [endsMarked, List.foldl_cons, hplain]
      exact hends

end Text

namespace SpellsWith

variable {names others : List String} {hops otherHops : List Bool} {text : Text}

theorem length_names (h : SpellsWith names hops text) : names.length = hops.length + 1 := by
  induction h with
  | single => rfl
  | access _ _ ih => simp [ih]
  | optionalAccess _ _ ih => simp [ih]

theorem endsMarked_eq_false (h : SpellsWith names hops text)
    (hunmarked : ∀ name ∈ names, '?' ∉ name.toList) : text.endsMarked false = false := by
  have hdot : ∀ (before : Bool) (name : String), '?' ∉ name.toList →
      Text.endsMarked before ('.' :: name.toList) = false :=
    fun _ name hname => (Text.markedDots_of_unmarked hname).2
  cases h with
  | single name => exact (Text.markedDots_of_unmarked (hunmarked name (by simp))).2
  | access h name =>
    rw [Text.endsMarked, List.foldl_append]
    exact hdot _ name (hunmarked name (by simp))
  | optionalAccess h name =>
    rw [Text.endsMarked, List.foldl_append, List.foldl_cons]
    exact hdot _ name (hunmarked name (by simp))

/-- The dots of one more access: the one of the access, and those of its name. -/
theorem markedDots_access (h : SpellsWith names hops text)
    (hunmarked : ∀ name ∈ names, '?' ∉ name.toList) {name : String} (hname : '?' ∉ name.toList) :
    Text.markedDots false (text ++ '.' :: name.toList) = Text.markedDots false text ++
        false :: List.replicate (name.toList.count '.') false ∧
      Text.markedDots false (text ++ '?' :: '.' :: name.toList) = Text.markedDots false text ++
        true :: List.replicate (name.toList.count '.') false := by
  have hname := (Text.markedDots_of_unmarked hname).1
  constructor
  · rw [Text.markedDots_append, h.endsMarked_eq_false hunmarked, ← hname]
    rfl
  · rw [Text.markedDots_append, ← hname]
    rfl

end SpellsWith

/-- Whether so many dots, the marked ones among them, are those of names with their hops: the dot
of a hop stands behind the dots of the hops and of the names before it. -/
structure HopDots (names : List String) (hops marks : List Bool) : Prop where
  length : marks.length = hops.length + dotCount names
  marked : ∀ position, marks[position]? = some true ↔
    ∃ hop, hops[hop]? = some true ∧ position = hop + dotCount (names.take (hop + 1))

private theorem getElem?_append_plain (list : List Bool) (hop : Bool) (count position : Nat) :
    (list ++ hop :: List.replicate count false)[position]? = some true ↔
      list[position]? = some true ∨ position = list.length ∧ hop = true := by
  rcases Nat.lt_trichotomy position list.length with hlt | rfl | hgt
  · rw [List.getElem?_append_left hlt]
    simp [Nat.ne_of_lt hlt]
  · simp
  · obtain ⟨more, rfl⟩ := Nat.exists_eq_add_of_lt hgt
    rw [List.getElem?_append_right (by omega),
      show list.length + more + 1 - list.length = more + 1 by omega, List.getElem?_cons_succ,
      List.getElem?_replicate, List.getElem?_eq_none (by omega : list.length ≤ _)]
    simp
    omega

/-- One more name is behind one more hop. -/
theorem HopDots.snoc {names : List String} {hops marks : List Bool} (h : HopDots names hops marks)
    (hlength : names.length = hops.length + 1) (hop : Bool) (name : String) :
    HopDots (names ++ [name]) (hops ++ [hop])
      (marks ++ hop :: List.replicate (name.toList.count '.') false) where
  length := by
    have hname : dotCount [name] = name.toList.count '.' := Nat.add_zero _
    rw [dotCount_append, hname]
    simp only [List.length_append, List.length_cons, List.length_nil, List.length_replicate,
      h.length]
    omega
  marked position := by
    have hhops := getElem?_append_plain hops hop 0
    rw [List.replicate_zero] at hhops
    rw [getElem?_append_plain, h.marked, h.length]
    simp only [hhops]
    constructor
    · rintro (⟨earlier, hearlier, rfl⟩ | ⟨rfl, hhop⟩)
      · have hlt := (List.getElem?_eq_some_iff.mp hearlier).1
        refine ⟨earlier, Or.inl hearlier, ?_⟩
        rw [List.take_append_of_le_length (by omega)]
      · refine ⟨hops.length, Or.inr ⟨rfl, hhop⟩, ?_⟩
        rw [← hlength, List.take_left']
        rfl
    · rintro ⟨earlier, hearlier | ⟨rfl, hhop⟩, rfl⟩
      · have hlt := (List.getElem?_eq_some_iff.mp hearlier).1
        refine Or.inl ⟨earlier, hearlier, ?_⟩
        rw [List.take_append_of_le_length (by omega)]
      · refine Or.inr ⟨?_, hhop⟩
        rw [← hlength, List.take_left']
        rfl

/-- The marked dots of a text are the optional accesses of the names that it spells. -/
theorem SpellsWith.hopDots {names : List String} {hops : List Bool} {text : Text}
    (h : SpellsWith names hops text) (hunmarked : ∀ name ∈ names, '?' ∉ name.toList) :
    HopDots names hops (text.markedDots false) := by
  induction h with
  | single name =>
    rw [(Text.markedDots_of_unmarked (hunmarked name (by simp))).1]
    refine ⟨?_, fun position => ?_⟩
    · simp [dotCount]
    · simp [List.getElem?_replicate]
  | access h name ih =>
    have hbefore := fun other hother => hunmarked other (List.mem_append_left _ hother)
    rw [(h.markedDots_access hbefore (hunmarked name (by simp))).1]
    exact (ih hbefore).snoc h.length_names false name
  | optionalAccess h name ih =>
    have hbefore := fun other hother => hunmarked other (List.mem_append_left _ hother)
    rw [(h.markedDots_access hbefore (hunmarked name (by simp))).2]
    exact (ih hbefore).snoc h.length_names true name

/-- Without its question marks, a text reads as the names joined by dots. -/
theorem SpellsWith.filter_marks {names : List String} {hops : List Bool} {text : Text}
    (h : SpellsWith names hops text) :
    text.filter (· ≠ '?') = (".".intercalate names).toList.filter (· ≠ '?') := by
  have hjoined : ∀ {names : List String} (name : String), names ≠ [] →
      (".".intercalate (names ++ [name])).toList =
        (".".intercalate names).toList ++ '.' :: name.toList := by
    intro names name hnames
    rw [String.intercalate_append_of_ne_nil hnames (List.cons_ne_nil _ _)]
    simp
  induction h with
  | single name => simp
  | access h name ih =>
    rw [hjoined name (List.ne_nil_of_length_eq_add_one h.length_names), List.filter_append, ih,
      List.filter_append]
  | optionalAccess h name ih =>
    rw [hjoined name (List.ne_nil_of_length_eq_add_one h.length_names), List.filter_append, ih,
      List.filter_append]
    rfl

/-! ## Reading a rendered chain again -/

/-- Whether a chain is what a text reads as: the text spells its names with its hops, and the names
are names of a program, which have no dot and no question mark. -/
structure Chain.ReadsAs (chain : Chain) (text : Text) : Prop where
  spells : SpellsWith chain.names (chain.rest.map (·.optional)) text
  dotFree : ∀ name ∈ chain.names, DotFree name
  unmarked : ∀ name ∈ chain.names, '?' ∉ name.toList

/-- Where names joined by dots are the same, those without a dot at the start are. -/
theorem take_prefix_of_dotted {names others : List String} {count : Nat} (hothers : others ≠ [])
    (hfree : ∀ name ∈ names.take count, DotFree name) (hfreeOthers : ∀ name ∈ others, DotFree name)
    (h : ".".intercalate names = ".".intercalate others) : names.take count <+: others := by
  induction count generalizing names others with
  | zero => exact List.nil_prefix
  | succ count ih =>
    cases names with
    | nil => exact List.nil_prefix
    | cons name rest =>
      obtain ⟨other, more, rfl⟩ := List.exists_cons_of_ne_nil hothers
      obtain ⟨hname, hrest⟩ := List.forall_mem_cons.mp hfree
      obtain ⟨hother, hmore⟩ := List.forall_mem_cons.mp hfreeOthers
      have hsame := head_of_dotted hname hother h
      subst hsame
      rw [List.take_succ_cons, List.cons_prefix_cons]
      refine ⟨rfl, ?_⟩
      cases rest with
      | nil => simp
      | cons second rest =>
        cases more with
        | nil =>
          have hlength := congrArg (fun text => text.toList.length) h
          simp [String.toList_intercalate] at hlength
        | cons third more =>
          refine ih (List.cons_ne_nil _ _) hrest hmore ?_
          have hlists := congrArg String.toList h
          simpa [String.intercalate_cons_cons, ← String.toList_inj] using hlists

/-- Names without question marks have none when they are joined. -/
theorem NamePath.filter_dotted {path : NamePath} (h : ∀ name ∈ path.names, '?' ∉ name.toList) :
    path.dotted.toList.filter (· ≠ '?') = path.dotted.toList := by
  rw [List.filter_eq_self, path.toList_dotted]
  intro c hc
  rw [decide_eq_true_iff]
  rintro rfl
  rcases List.mem_append.mp hc with hfirst | hrest
  · exact h path.first List.mem_cons_self hfirst
  · obtain ⟨written, hwritten, hc⟩ := List.mem_flatten.mp hrest
    obtain ⟨name, hname, rfl⟩ := List.mem_map.mp hwritten
    rcases List.mem_cons.mp hc with hdot | hc
    · cases hdot
    · exact h name (List.mem_cons_of_mem _ hname) hc

namespace Chain

variable {chain reread : Chain} {path : NamePath} {hops : List Bool} {text : Text}

/-- The chain that is read has the names that were written, joined by dots. -/
theorem ReadsAs.dotted_eq (hreread : reread.ReadsAs text)
    (hspells : SpellsWith path.names hops text)
    (hunmarked : ∀ token ∈ path.names, '?' ∉ token.toList) :
    ".".intercalate path.names = ".".intercalate reread.names := by
  let other : NamePath := ⟨reread.head.name, reread.rest.map (·.name)⟩
  have hsame := hspells.filter_marks.symm.trans hreread.spells.filter_marks
  have hpath : path.dotted.toList.filter (· ≠ '?') = path.dotted.toList :=
    NamePath.filter_dotted hunmarked
  have hother : other.dotted.toList.filter (· ≠ '?') = other.dotted.toList :=
    NamePath.filter_dotted hreread.unmarked
  exact String.toList_inj.mp (hpath.symm.trans (hsame.trans hother))

/-- The names of a replacement that the chain that is read starts with are those before the first
with a dot. -/
theorem ReadsAs.le_commonPrefix_iff (hreread : reread.ReadsAs text)
    (hspells : SpellsWith path.names hops text)
    (hunmarked : ∀ token ∈ path.names, '?' ∉ token.toList) {count : Nat}
    (hle : count ≤ path.names.length) :
    count ≤ commonPrefix reread.segments path.names ↔ dotCount (path.names.take count) = 0 := by
  rw [SdkMigration.le_commonPrefix_iff hle, dotCount_eq_zero_iff]
  constructor
  · exact fun hbegins name hname => hreread.dotFree name (hbegins.subset hname)
  · exact fun hfree => take_prefix_of_dotted (List.cons_ne_nil _ _) hfree hreread.dotFree
      (hreread.dotted_eq hspells hunmarked)

/-- The optional accesses of the chain that is read are those that were written, counted with the
dots of the names before them. -/
theorem ReadsAs.optional_iff (hreread : reread.ReadsAs text)
    (hspells : SpellsWith path.names hops text)
    (hunmarked : ∀ token ∈ path.names, '?' ∉ token.toList) (position : Nat) :
    (∃ segment, reread.segments[position + 1]? = some segment ∧ segment.optional = true) ↔
      ∃ hop, hops[hop]? = some true ∧ position = hop + dotCount (path.names.take (hop + 1)) := by
  have hplain : ∀ count, dotCount (reread.names.take count) = 0 := fun count =>
    dotCount_eq_zero_iff.mpr fun name hname => hreread.dotFree name (List.mem_of_mem_take hname)
  have hsegment : (∃ segment, reread.segments[position + 1]? = some segment ∧
      segment.optional = true) ↔ (reread.rest.map (·.optional))[position]? = some true := by
    rw [List.getElem?_map, Option.map_eq_some_iff]
    rfl
  rw [hsegment, ← (hspells.hopDots hunmarked).marked,
    (hreread.spells.hopDots hreread.unmarked).marked]
  simp [hplain]

theorem getElem?_hops_iff {hop : Nat} : (chain.hops path)[hop]? = some true ↔
    hop + 1 < path.names.length ∧ chain.hopIsOptional path.names (hop + 1) = true := by
  have hlength : path.names.length = path.rest.length + 1 := rfl
  constructor
  · intro h
    have hbound := (List.getElem?_eq_some_iff.mp h).1
    rw [hops, List.length_map, List.length_range'] at hbound
    rw [getElem?_hops hbound] at h
    exact ⟨by omega, Option.some.inj h⟩
  · rintro ⟨hbound, h⟩
    rw [getElem?_hops (by omega), h]

/-- No question mark moves when a rendered chain is read and rendered again. -/
theorem hopIsOptional_reread
    (hkept : ∀ name ∈ path.names.take (commonPrefix chain.segments path.names), DotFree name)
    (hunmarked : ∀ token ∈ path.names, '?' ∉ token.toList)
    (hreread : reread.ReadsAs (chain.render path)) {position : Nat} (hpositive : 0 < position)
    (hlt : position < path.names.length) :
    reread.hopIsOptional path.names position = chain.hopIsOptional path.names position := by
  have hspells := spellsWith_render chain path
  have hstart : ∀ {count : Nat}, count ≤ path.names.length →
      (count ≤ commonPrefix reread.segments path.names ↔ dotCount (path.names.take count) = 0) :=
    hreread.le_commonPrefix_iff hspells hunmarked
  have hearlier : commonPrefix chain.segments path.names ≤
      commonPrefix reread.segments path.names :=
    (hstart (commonPrefix_le _ _)).mpr (dotCount_eq_zero_iff.mpr hkept)
  have hread := hreread.optional_iff hspells hunmarked
  simp only [getElem?_hops_iff, hopIsOptional_iff] at hread
  rw [Bool.eq_iff_iff, hopIsOptional_iff, hopIsOptional_iff]
  constructor
  · rintro (⟨hfound, hoptional, hbehind⟩ | @⟨other, _, hlast, hfound, hoptional, hchanged⟩)
    · obtain ⟨before, rfl⟩ := Nat.exists_eq_add_of_le' hpositive
      obtain ⟨hop, ⟨hbound, hcarries⟩, rfl⟩ := (hread before).mp ⟨_, hfound, hoptional⟩
      have hplain := (hstart (by omega : hop + 1 ≤ _)).mp (by omega)
      rwa [hplain]
    · obtain ⟨before, rfl⟩ := Nat.exists_eq_add_of_le' (by omega : 1 ≤ other)
      obtain ⟨hop, ⟨hbound, hcarries⟩, rfl⟩ := (hread before).mp ⟨_, hfound, hoptional⟩
      by_cases hsame : hop + 1 = position
      · rwa [← hsame]
      · obtain ⟨-, -, hbehind⟩ | ⟨hend, -, -, -⟩ := hcarries
        · have hplain := (hstart (by omega : hop + 1 ≤ _)).mp (by omega)
          omega
        · omega
  · intro hcarries
    obtain ⟨hop, rfl⟩ := Nat.exists_eq_add_of_le' hpositive
    obtain ⟨_, hfound, hoptional⟩ := (hread _).mpr ⟨hop, ⟨hlt, hcarries⟩, rfl⟩
    by_cases hbehind : hop + 1 ≤ commonPrefix reread.segments path.names
    · rw [(hstart (Nat.le_of_lt hlt)).mp hbehind] at hfound
      exact .stays hfound hoptional hbehind
    · obtain ⟨-, -, hkeeps⟩ | ⟨hlast, -, -, -⟩ := hcarries
      · omega
      · exact .moves hlast hfound hoptional (Or.inl (by omega))

theorem renderRest_congr {other : Chain} {tokens rest : List String} {index : Nat}
    (h : ∀ position, index ≤ position → position < index + rest.length →
      chain.hopIsOptional tokens position = other.hopIsOptional tokens position) :
    chain.renderRest tokens index rest = other.renderRest tokens index rest := by
  induction rest generalizing index with
  | nil => rfl
  | cons token rest ih =>
    have hhere := h index (Nat.le_refl index) (by simp)
    have hrest := @ih (index + 1) fun position hle hlt =>
      h position (by omega) (by rw [List.length_cons]; omega)
    rw [renderRest, renderRest, hhere, hrest]

/-- **How a chain is rendered.**  Suppose that so many names stay as the chain and the replacement
both start with.  The names are written behind the accesses that `Carries` tells to be optional
and behind dots, so without question marks the text is the names joined by dots.  There are no
more optional accesses than in the chain, and one at least if the chain has one and the replacement
an access.  If no name of the replacement has a question mark, and none of the names that stay a
dot, then rendering the chain that the text reads as gives the same text again. -/
theorem render_carries (chain : Chain) (path : NamePath) :
    ∃ hops shared, SpellsWith path.names hops (chain.render path) ∧
      LongestPrefix chain.names path.names shared ∧
      (∀ position, 0 < position → position < path.names.length →
        (hops[position - 1]? = some true ↔
          chain.Carries shared.length path.names.length position)) ∧
      (chain.render path).filter (· ≠ '?') = path.dotted.toList.filter (· ≠ '?') ∧
      hops.count true ≤ chain.rest.countP (·.optional) ∧
      (chain.IsGuarded → path.rest ≠ [] → true ∈ hops) ∧
      ((∀ token ∈ path.names, '?' ∉ token.toList) →
        (chain.render path).filter (· ≠ '?') = path.dotted.toList ∧
        ((∀ name ∈ shared, DotFree name) → ∀ reread : Chain, reread.ReadsAs (chain.render path) →
          reread.render path = chain.render path)) := by
  have hspells := spellsWith_render chain path
  refine ⟨chain.hops path, path.names.take (commonPrefix chain.segments path.names), hspells,
    longestPrefix_commonPrefix chain.segments path.names, fun position hpositive hlt => ?_,
    hspells.filter_marks, chain.count_hops_le path,
    fun hguarded hlonger => (chain.mem_hops_iff hlonger).mpr hguarded, fun hunmarked => ⟨?_, ?_⟩⟩
  · rw [List.length_take, Nat.min_eq_left (commonPrefix_le _ _), getElem?_hops_iff,
      Nat.sub_add_cancel hpositive, hopIsOptional_iff]
    exact and_iff_right hlt
  · exact hspells.filter_marks.trans (NamePath.filter_dotted hunmarked)
  · intro hkept reread hreread
    refine congrArg (path.first.toList ++ ·) (renderRest_congr fun position hpositive hlt => ?_)
    have hlength : path.names.length = path.rest.length + 1 := rfl
    exact hopIsOptional_reread hkept hunmarked hreread hpositive (by omega)

end Chain

/-- A file with a call before and after it is rewritten. -/
private def renderedFile : Text :=
  "teams.settings?.getSettings();\nteams.pages.config?.get();\n".toList

private def renderedPath : NamePath := ⟨"teams", ["pages", "config", "get"]⟩

private theorem renderedFile_facts :
    ∃ program ∈ Program.read? ⟨true, false, true⟩ renderedFile,
      ∃ chain ∈ (allCallChains program.items)[0]?, ∃ reread ∈ (allCallChains program.items)[1]?,
        chain.IsGuarded ∧ chain.render renderedPath = "teams.pages.config?.get".toList ∧
        reread.names = renderedPath.names ∧
        reread.rest.map (·.optional) = [false, false, true] := by
  decide +kernel

/-- The call that is rewritten is guarded, and it is rendered as before. -/
theorem renderedFile_carries :
    ∃ program chain reread, Program.read? ⟨true, false, true⟩ renderedFile = some program ∧
      chain ∈ allCallChains program.items ∧ reread ∈ allCallChains program.items ∧
      chain.IsGuarded ∧ (∃ hops, SpellsWith renderedPath.names hops (chain.render renderedPath) ∧
        true ∈ hops ∧ hops.count true ≤ chain.rest.countP (·.optional)) ∧
      reread.ReadsAs (chain.render renderedPath) ∧
      (chain.render renderedPath).filter (· ≠ '?') = renderedPath.dotted.toList ∧
      reread.render renderedPath = chain.render renderedPath := by
  obtain ⟨program, hread, chain, hchain, reread, hreread, hguarded, htext, hnames, hoptional⟩ :=
    renderedFile_facts
  have hplain : ∀ name ∈ renderedPath.names, DotFree name ∧ '?' ∉ name.toList := by
    unfold DotFree
    decide
  have hreads : reread.ReadsAs (chain.render renderedPath) := by
    refine ⟨?_, ?_, ?_⟩
    · rw [htext, hnames, hoptional]
      exact .optionalAccess (.access (.access (.single "teams") "pages") "config") "get"
    · exact fun name hname => (hplain name (hnames ▸ hname)).1
    · exact fun name hname => (hplain name (hnames ▸ hname)).2
  obtain ⟨hops, shared, hspells, hshared, -, -, hcount, hguards, hrendered⟩ :=
    chain.render_carries renderedPath
  obtain ⟨hfilter, hagain⟩ := hrendered fun token htoken => (hplain token htoken).2
  exact ⟨program, chain, reread, hread, List.mem_of_getElem? hchain, List.mem_of_getElem? hreread,
    hguarded, ⟨hops, hspells, hguards hguarded (by decide), hcount⟩, hreads, hfilter,
    hagain (fun name hname => (hplain name (hshared.right.subset hname)).1) reread hreads⟩

/-- A file with a call before and after it is rewritten to a target with a question mark in a
name. -/
private def markedTargetFile : Text := "teams.getContext();\nteams.a?.b();\n".toList

private def markedTarget : NamePath := ⟨"teams", ["a?", "b"]⟩

private theorem markedTargetFile_facts :
    ∃ program ∈ Program.read? ⟨true, false, true⟩ markedTargetFile,
      ∃ chain ∈ (allCallChains program.items)[0]?, ∃ reread ∈ (allCallChains program.items)[1]?,
        chain.head.optional = false ∧ chain.render markedTarget = "teams.a?.b".toList ∧
        reread.names = ["teams", "a", "b"] ∧ reread.rest.map (·.optional) = [false, true] ∧
        reread.render markedTarget = "teams.a??.b".toList := by
  decide +kernel

/-- A mapping can have a target with a question mark in a name.  The question mark is written as
if it guarded an access, the names joined by dots have one too, and the chain that is read is
rendered with one more. -/
theorem markedTargetFile_moves :
    (NamePath.ofWritten? "legacy.a?.b").map (NamePath.under "teams") = some markedTarget ∧
      ∃ program chain reread, Program.read? ⟨true, false, true⟩ markedTargetFile = some program ∧
        chain ∈ allCallChains program.items ∧ reread ∈ allCallChains program.items ∧
        chain.head.optional = false ∧
        (chain.render markedTarget).filter (· ≠ '?') ≠ markedTarget.dotted.toList ∧
        reread.ReadsAs (chain.render markedTarget) ∧
        reread.render markedTarget ≠ chain.render markedTarget := by
  obtain ⟨program, hread, chain, hchain, reread, hreread, hhead, htext, hnames, hoptional,
    hagain⟩ := markedTargetFile_facts
  refine ⟨by decide +kernel, program, chain, reread, hread, List.mem_of_getElem? hchain,
    List.mem_of_getElem? hreread, hhead, ?_, ⟨?_, ?_, ?_⟩, ?_⟩
  · rw [htext]
    decide +kernel
  · rw [htext, hnames, hoptional]
    exact .optionalAccess (.access (.single "teams") "a") "b"
  · unfold DotFree
    rw [hnames]
    decide
  · rw [hnames]
    decide
  · rw [htext, hagain]
    decide

end SdkMigration
