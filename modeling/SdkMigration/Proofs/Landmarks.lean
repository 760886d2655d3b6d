import SdkMigration.Migration.Chain
import SdkMigration.Text.Blank
import SdkMigration.Text.NameChars
import Mathlib.Data.List.Perm.Basic

/-!
# Landmarks

What a migration may touch in a text are the places of its names, the places
of its import declarations, and the points before which a comment line can
stand.  These are the landmarks of a tree.

Landmarks are placed between two positions when they lie there, no two of
their spans overlap, and no point lies inside a span.  Two groups of landmarks
that stand one behind the other are placed together, in whatever order the
tree has them.
-/

namespace SdkMigration

/-! ## Spans and points -/

/-- Whether one of two spans ends before the other one starts. -/
def Span.Apart (a b : Span) : Prop := a.stop ≤ b.start ∨ b.stop ≤ a.start

/-- Whether a position does not lie inside a span. -/
def Span.Clear (span : Span) (position : Nat) : Prop :=
  position ≤ span.start ∨ span.stop ≤ position

theorem Span.Apart.symm {a b : Span} (h : a.Apart b) : b.Apart a := Or.symm h

/-- Whether a character other than a blank stands at a position. -/
def Text.HasInk (text : Text) (position : Nat) : Prop :=
  ∃ c, text[position]? = some c ∧ isBlank c = false

/-- Whether no blank stands at a position. -/
def Text.Unblank (text : Text) (position : Nat) : Prop :=
  ∀ c, text[position]? = some c → isBlank c = false

theorem Text.HasInk.unblank {text : Text} {position : Nat} (h : text.HasInk position) :
    text.Unblank position := by
  obtain ⟨c, hc, hink⟩ := h
  intro d hd
  rw [hc] at hd
  exact Option.some.inj hd ▸ hink

theorem Text.HasInk.lt_length {text : Text} {position : Nat} (h : text.HasInk position) :
    position < text.length := by
  obtain ⟨c, hc, -⟩ := h
  exact (List.getElem?_eq_some_iff.mp hc).1

/-- Whether a span starts and ends with a character other than a blank, and no blank
stands where something comes next, which is before `hi`. -/
structure Span.Solid (text : Text) (hi : Nat) (span : Span) : Prop where
  start_lt_stop : span.start < span.stop
  ink_start : text.HasInk span.start
  ink_stop : text.HasInk (span.stop - 1)
  behind : ∃ next, span.stop ≤ next ∧ next ≤ hi ∧ text.Unblank next

theorem Span.Solid.mono {text : Text} {hi hi' : Nat} {span : Span} (h : span.Solid text hi)
    (hhi : hi ≤ hi') : span.Solid text hi' := by
  obtain ⟨next, hstop, hnext, hunblank⟩ := h.behind
  exact ⟨h.start_lt_stop, h.ink_start, h.ink_stop, next, hstop, Nat.le_trans hnext hhi, hunblank⟩

theorem Span.Solid.stop_le {text : Text} {hi : Nat} {span : Span} (h : span.Solid text hi) :
    span.stop ≤ text.length := by
  have hlt := h.ink_stop.lt_length
  omega

/-- Whether a name has no dot. -/
def DotFree (name : String) : Prop := '.' ∉ name.toList

/-! ## Names in their places -/

/-- Whether the character at a position can open a comment in the style of markup.  A name
behind such a comment counts from there. -/
def Text.OpensMarkup (text : Text) (position : Nat) : Prop :=
  text[position]? = some '<' ∨ text[position]? = some '-'

theorem Text.OpensMarkup.hasInk {text : Text} {position : Nat} (h : text.OpensMarkup position) :
    text.HasInk position :=
  h.elim (fun h => ⟨_, h, by decide⟩) fun h => ⟨_, h, by decide⟩

/-- Whether a name is spelled in its place: the text has its characters there, unless some
are escaped or the name counts from a comment, and it does not go on behind. -/
structure Identifier.Spelled (text : Text) (id : Identifier) : Prop where
  chars : ∀ c ∈ id.name.toList, NameChars.canContinue c = true ∨ c = '-'
  initial : id.name.toList.head? ≠ some '-'
  written : text.slice id.span = id.name.toList ∨ '\\' ∈ text.slice id.span ∨
    text.OpensMarkup id.span.start
  ends : ∀ c, text[id.span.stop]? = some c → NameChars.canContinue c = false

/-- Whether a name without a dot stands in its place, which starts and ends with
a character other than a blank. -/
structure Identifier.Placed (text : Text) (id : Identifier) : Prop where
  start_lt_stop : id.span.start < id.span.stop
  ink_start : text.HasInk id.span.start
  ink_stop : text.HasInk (id.span.stop - 1)
  dotFree : DotFree id.name
  spelled : id.Spelled text

/-- Whether names stand in their places one behind the other. -/
def Identifier.AllPlaced (text : Text) (lo : Nat) : List Identifier → Nat → Prop
  | [], hi => lo ≤ hi
  | id :: rest, hi =>
    lo ≤ id.span.start ∧ id.Placed text ∧ AllPlaced text id.span.stop rest hi

namespace Identifier.AllPlaced

variable {text : Text} {lo hi : Nat} {ids : List Identifier}

theorem le (h : AllPlaced text lo ids hi) : lo ≤ hi := by
  induction ids generalizing lo with
  | nil => exact h
  | cons id rest ih =>
    obtain ⟨hlo, hid, hrest⟩ := h
    have hlt := hid.start_lt_stop
    have hhi := ih hrest
    omega

theorem mono_left {lo' : Nat} (h : AllPlaced text lo ids hi) (hlo : lo' ≤ lo) :
    AllPlaced text lo' ids hi := by
  cases ids with
  | nil => exact Nat.le_trans hlo h
  | cons id rest => exact ⟨Nat.le_trans hlo h.1, h.2⟩

theorem mono_right {hi' : Nat} (h : AllPlaced text lo ids hi) (hhi : hi ≤ hi') :
    AllPlaced text lo ids hi' := by
  induction ids generalizing lo with
  | nil => exact Nat.le_trans h hhi
  | cons id rest ih => exact ⟨h.1, h.2.1, ih h.2.2⟩

/-- One more name behind the others. -/
theorem concat {middle : Nat} {id : Identifier} (h : AllPlaced text lo ids middle)
    (hmiddle : middle ≤ id.span.start) (hid : id.Placed text) :
    AllPlaced text lo (ids ++ [id]) id.span.stop := by
  induction ids generalizing lo with
  | nil => exact ⟨Nat.le_trans h hmiddle, hid, Nat.le_refl _⟩
  | cons first rest ih => exact ⟨h.1, h.2.1, ih h.2.2⟩

theorem of_prefix {more : List Identifier} (h : AllPlaced text lo (ids ++ more) hi) :
    AllPlaced text lo ids hi := by
  induction ids generalizing lo with
  | nil => exact le h
  | cons id rest ih => exact ⟨h.1, h.2.1, ih h.2.2⟩

/-- The last name bounds the others. -/
theorem to_last {id : Identifier} (h : AllPlaced text lo (ids ++ [id]) hi) :
    AllPlaced text lo (ids ++ [id]) id.span.stop := by
  induction ids generalizing lo with
  | nil => exact ⟨h.1, h.2.1, Nat.le_refl _⟩
  | cons first rest ih => exact ⟨h.1, h.2.1, ih h.2.2⟩

theorem mem {id : Identifier} (h : AllPlaced text lo ids hi) (hid : id ∈ ids) :
    id.Placed text ∧ lo ≤ id.span.start ∧ id.span.stop ≤ hi := by
  induction ids generalizing lo with
  | nil => simp at hid
  | cons first rest ih =>
    obtain ⟨hlo, hfirst, hrest⟩ := h
    rcases List.mem_cons.mp hid with rfl | hid
    · exact ⟨hfirst, hlo, le hrest⟩
    · obtain ⟨hplaced, hstart, hstop⟩ := ih hrest hid
      have hlt := hfirst.start_lt_stop
      exact ⟨hplaced, by omega, hstop⟩

end Identifier.AllPlaced

namespace Chain

/-- The names of a chain as identifiers. -/
def identifiers (chain : Chain) : List Identifier :=
  chain.segments.map fun segment => ⟨segment.name, segment.span⟩

/-- Whether the names of a chain stand in their places one behind the other. -/
def Placed (text : Text) (lo hi : Nat) (chain : Chain) : Prop :=
  Identifier.AllPlaced text lo chain.identifiers hi

theorem identifiers_extend (chain : Chain) (segment : Segment) :
    (chain.extend segment).identifiers =
      chain.identifiers ++ [⟨segment.name, segment.span⟩] := by
  simp [identifiers, segments, extend]

theorem names_eq (chain : Chain) : chain.names = chain.identifiers.map (·.name) := by
  simp [names, identifiers]

theorem last_mem (chain : Chain) : chain.last ∈ chain.segments := by
  unfold last segments
  cases hlast : chain.rest.getLast? with
  | none => exact List.mem_cons_self
  | some segment => exact List.mem_cons_of_mem _ (List.mem_of_getLast? hlast)

theorem exists_segments_eq (chain : Chain) : ∃ init, chain.segments = init ++ [chain.last] := by
  unfold last segments
  rcases List.eq_nil_or_concat chain.rest with hrest | ⟨init, segment, hrest⟩
  · exact ⟨[], by simp [hrest]⟩
  · exact ⟨chain.head :: init, by simp [hrest]⟩

namespace Placed

variable {text : Text} {lo hi : Nat} {chain : Chain}

theorem segment (h : chain.Placed text lo hi) {segment : Segment}
    (hsegment : segment ∈ chain.segments) :
    (⟨segment.name, segment.span⟩ : Identifier).Placed text ∧
      lo ≤ segment.span.start ∧ segment.span.stop ≤ hi :=
  Identifier.AllPlaced.mem h (List.mem_map_of_mem hsegment)

/-- Every name of a chain starts where the chain starts, or behind that. -/
theorem head_le (h : chain.Placed text lo hi) {segment : Segment}
    (hsegment : segment ∈ chain.segments) : chain.span.start ≤ segment.span.start := by
  obtain ⟨_, hhead, hrest⟩ := h
  rcases List.mem_cons.mp hsegment with rfl | hsegment
  · exact Nat.le_refl _
  · have hlt := hhead.start_lt_stop
    have hstart := (Identifier.AllPlaced.mem hrest (List.mem_map_of_mem hsegment)).2.1
    show chain.head.span.start ≤ segment.span.start
    simp only at hlt hstart
    omega

theorem span_stop (h : chain.Placed text lo hi) : chain.span.stop = chain.last.span.stop := by
  have hstart := h.head_le chain.last_mem
  have hlast := chain.last.span.start_le_stop
  show max chain.head.span.start chain.last.span.stop = chain.last.span.stop
  have hspan : chain.span.start = chain.head.span.start := rfl
  omega

theorem start_lt_stop (h : chain.Placed text lo hi) : chain.span.start < chain.span.stop := by
  rw [h.span_stop]
  have hstart := h.head_le chain.last_mem
  have hlast := (h.segment chain.last_mem).1.start_lt_stop
  simp only at hlast
  omega

theorem lo_le (h : chain.Placed text lo hi) : lo ≤ chain.span.start := h.1

theorem le_hi (h : chain.Placed text lo hi) : chain.span.stop ≤ hi := by
  rw [h.span_stop]
  exact (h.segment chain.last_mem).2.2

/-- A chain lies between its own ends. -/
theorem to_stop (h : chain.Placed text lo hi) : chain.Placed text lo chain.span.stop := by
  obtain ⟨init, hinit⟩ := chain.exists_segments_eq
  have hstop := h.span_stop
  unfold Placed identifiers at h ⊢
  rw [hinit, List.map_append, List.map_singleton] at h ⊢
  rw [hstop]
  exact Identifier.AllPlaced.to_last h

theorem ink_start (h : chain.Placed text lo hi) : text.HasInk chain.span.start :=
  (h.segment List.mem_cons_self).1.ink_start

theorem ink_stop (h : chain.Placed text lo hi) : text.HasInk (chain.span.stop - 1) := by
  rw [h.span_stop]
  exact (h.segment chain.last_mem).1.ink_stop

theorem dotFree (h : chain.Placed text lo hi) {name : String} (hname : name ∈ chain.names) :
    DotFree name := by
  unfold names at hname
  obtain ⟨segment, hsegment, rfl⟩ := List.mem_map.mp hname
  exact (h.segment hsegment).1.dotFree

theorem mono {lo' hi' : Nat} (h : chain.Placed text lo hi) (hlo : lo' ≤ lo) (hhi : hi ≤ hi') :
    chain.Placed text lo' hi' :=
  (Identifier.AllPlaced.mono_left h hlo).mono_right hhi

/-- A chain with one more name behind it. -/
theorem extend {segment : Segment} (h : chain.Placed text lo hi)
    (hsegment : hi ≤ segment.span.start)
    (hplaced : (⟨segment.name, segment.span⟩ : Identifier).Placed text) :
    (chain.extend segment).Placed text lo segment.span.stop := by
  unfold Placed
  rw [identifiers_extend]
  exact Identifier.AllPlaced.concat h hsegment hplaced

end Placed

/-- Whether the names of a chain are the first names of another one. -/
def Begins (short long : Chain) : Prop := short.identifiers <+: long.identifiers

theorem Begins.refl (chain : Chain) : chain.Begins chain := List.prefix_refl _

theorem Begins.trans {a b c : Chain} (hab : a.Begins b) (hbc : b.Begins c) : a.Begins c :=
  List.IsPrefix.trans hab hbc

theorem begins_extend (chain : Chain) (segment : Segment) :
    chain.Begins (chain.extend segment) := by
  unfold Begins
  rw [identifiers_extend]
  exact List.prefix_append _ _

theorem Begins.start_eq {short long : Chain} (h : short.Begins long) :
    short.span.start = long.span.start := by
  obtain ⟨more, hmore⟩ := h
  have hhead := congrArg List.head? hmore
  simp only [identifiers, segments, List.map_cons, List.cons_append, List.head?_cons,
    Option.some.injEq, Identifier.mk.injEq] at hhead
  show short.head.span.start = long.head.span.start
  rw [hhead.2]

theorem Begins.placed {short long : Chain} {text : Text} {lo hi : Nat} (h : short.Begins long)
    (hlong : long.Placed text lo hi) : short.Placed text lo hi := by
  obtain ⟨more, hmore⟩ := h
  unfold Placed at hlong ⊢
  rw [← hmore] at hlong
  exact Identifier.AllPlaced.of_prefix hlong

theorem Begins.stop_le {short long : Chain} {text : Text} {lo hi : Nat} (h : short.Begins long)
    (hlong : long.Placed text lo hi) : short.span.stop ≤ long.span.stop := by
  exact (h.placed hlong.to_stop).le_hi

theorem Begins.names_prefix {short long : Chain} (h : short.Begins long) :
    short.names <+: long.names := by
  rw [names_eq, names_eq]
  exact List.IsPrefix.map _ h

theorem Begins.root_eq {short long : Chain} (h : short.Begins long) : short.root = long.root := by
  obtain ⟨more, hmore⟩ := h.names_prefix
  exact (List.cons.inj hmore).1

end Chain

/-! ## Landmarks -/

/-- What a migration may touch: names with the accesses behind them, import
declarations, and the points before which a comment line can stand.  With them
come the names that the import declarations bind, and the chains that are called,
each with the point where its call starts. -/
structure Landmarks where
  chains : List Chain := []
  imports : List Span := []
  points : List Nat := []
  bound : List String := []
  called : List (Nat × Chain) := []

namespace Landmarks

/-- The landmarks of two parts. -/
def join (a b : Landmarks) : Landmarks where
  chains := a.chains ++ b.chains
  imports := a.imports ++ b.imports
  points := a.points ++ b.points
  bound := a.bound ++ b.bound
  called := a.called ++ b.called

/-- The landmark of a name that stands alone. -/
def name (id : Identifier) : Landmarks where
  chains := [⟨⟨id.name, id.span, false⟩, []⟩]

/-- What a call that starts at a position makes of its callee. -/
def ofCall (start : Nat) (callee : Tree) : Landmarks where
  called := (callee.chain?.map fun chain => (start, chain)).toList

/-- The spans of the names and of the import declarations. -/
def spans (marks : Landmarks) : List Span := marks.chains.map (·.span) ++ marks.imports

/-- Whether landmarks lie between two positions, no two spans overlapping and no
point lying inside a span. -/
structure Placed (text : Text) (lo hi : Nat) (marks : Landmarks) : Prop where
  le : lo ≤ hi
  chains : ∀ chain ∈ marks.chains, chain.Placed text lo hi
  imports : ∀ span ∈ marks.imports, lo ≤ span.start ∧ span.stop ≤ hi
  solid : ∀ span ∈ marks.imports, span.Solid text hi
  points : ∀ point ∈ marks.points, lo ≤ point ∧ point ≤ hi
  apart : marks.spans.Pairwise Span.Apart
  clear : ∀ point ∈ marks.points, ∀ span ∈ marks.spans, span.Clear point
  bound : ∀ name ∈ marks.bound, DotFree name
  called : ∀ call ∈ marks.called, call.1 ≤ call.2.span.start

/-- Whether no landmark of one part lies on a span of the other. -/
structure Apart (a b : Landmarks) : Prop where
  spans : ∀ s ∈ a.spans, ∀ t ∈ b.spans, s.Apart t
  clear_left : ∀ point ∈ a.points, ∀ span ∈ b.spans, span.Clear point
  clear_right : ∀ point ∈ b.points, ∀ span ∈ a.spans, span.Clear point

theorem mem_spans {marks : Landmarks} {span : Span} :
    span ∈ marks.spans ↔ (∃ chain ∈ marks.chains, chain.span = span) ∨ span ∈ marks.imports := by
  simp [spans]

theorem mem_spans_join {a b : Landmarks} {span : Span} :
    span ∈ (a.join b).spans ↔ span ∈ a.spans ∨ span ∈ b.spans := by
  simp only [spans, join, List.map_append, List.mem_append]
  tauto

theorem spans_join_perm (a b : Landmarks) : (a.join b).spans.Perm (a.spans ++ b.spans) := by
  simp only [spans, join, List.map_append, List.append_assoc]
  refine List.Perm.append_left _ ?_
  rw [← List.append_assoc, ← List.append_assoc]
  exact List.Perm.append_right _ List.perm_append_comm

theorem pairwise_spans_join {a b : Landmarks} :
    (a.join b).spans.Pairwise Span.Apart ↔
      a.spans.Pairwise Span.Apart ∧ b.spans.Pairwise Span.Apart ∧
        ∀ s ∈ a.spans, ∀ t ∈ b.spans, s.Apart t := by
  rw [List.Perm.pairwise_iff Span.Apart.symm (spans_join_perm a b), List.pairwise_append]

/-- Two parts are placed together when each of them is and they stand apart. -/
theorem placed_join {text : Text} {lo hi : Nat} {a b : Landmarks} :
    (a.join b).Placed text lo hi ↔ a.Placed text lo hi ∧ b.Placed text lo hi ∧ a.Apart b := by
  constructor
  · intro h
    obtain ⟨hapartA, hapartB, hcross⟩ := pairwise_spans_join.mp h.apart
    refine ⟨⟨h.le, ?_, ?_, ?_, ?_, hapartA, ?_, ?_, ?_⟩,
      ⟨h.le, ?_, ?_, ?_, ?_, hapartB, ?_, ?_, ?_⟩, ⟨hcross, ?_, ?_⟩⟩
    · exact fun c hc => h.chains c (List.mem_append_left _ hc)
    · exact fun s hs => h.imports s (List.mem_append_left _ hs)
    · exact fun s hs => h.solid s (List.mem_append_left _ hs)
    · exact fun p hp => h.points p (List.mem_append_left _ hp)
    · exact fun p hp s hs =>
        h.clear p (List.mem_append_left _ hp) s (mem_spans_join.mpr (Or.inl hs))
    · exact fun n hn => h.bound n (List.mem_append_left _ hn)
    · exact fun c hc => h.called c (List.mem_append_left _ hc)
    · exact fun c hc => h.chains c (List.mem_append_right _ hc)
    · exact fun s hs => h.imports s (List.mem_append_right _ hs)
    · exact fun s hs => h.solid s (List.mem_append_right _ hs)
    · exact fun p hp => h.points p (List.mem_append_right _ hp)
    · exact fun p hp s hs =>
        h.clear p (List.mem_append_right _ hp) s (mem_spans_join.mpr (Or.inr hs))
    · exact fun n hn => h.bound n (List.mem_append_right _ hn)
    · exact fun c hc => h.called c (List.mem_append_right _ hc)
    · exact fun p hp s hs =>
        h.clear p (List.mem_append_left _ hp) s (mem_spans_join.mpr (Or.inr hs))
    · exact fun p hp s hs =>
        h.clear p (List.mem_append_right _ hp) s (mem_spans_join.mpr (Or.inl hs))
  · rintro ⟨ha, hb, hab⟩
    refine ⟨ha.le, ?_, ?_, ?_, ?_, ?_, ?_, ?_, ?_⟩
    · exact fun c hc => (List.mem_append.mp hc).elim (ha.chains c) (hb.chains c)
    · exact fun s hs => (List.mem_append.mp hs).elim (ha.imports s) (hb.imports s)
    · exact fun s hs => (List.mem_append.mp hs).elim (ha.solid s) (hb.solid s)
    · exact fun p hp => (List.mem_append.mp hp).elim (ha.points p) (hb.points p)
    · exact pairwise_spans_join.mpr ⟨ha.apart, hb.apart, hab.spans⟩
    · intro p hp s hs
      rcases List.mem_append.mp hp with hp | hp <;>
        rcases mem_spans_join.mp hs with hs | hs
      · exact ha.clear p hp s hs
      · exact hab.clear_left p hp s hs
      · exact hab.clear_right p hp s hs
      · exact hb.clear p hp s hs
    · exact fun n hn => (List.mem_append.mp hn).elim (ha.bound n) (hb.bound n)
    · exact fun c hc => (List.mem_append.mp hc).elim (ha.called c) (hb.called c)

namespace Placed

variable {text : Text} {lo middle hi : Nat} {a b : Landmarks}

theorem empty (h : lo ≤ hi) : Placed text lo hi {} :=
  ⟨h, by simp, by simp, by simp, by simp, by simp [spans], by simp, by simp, by simp⟩

theorem mono {lo' hi' : Nat} (h : a.Placed text lo hi) (hlo : lo' ≤ lo) (hhi : hi ≤ hi') :
    a.Placed text lo' hi' := by
  have hle := h.le
  refine ⟨by omega, ?_, ?_, ?_, ?_, h.apart, h.clear, h.bound, h.called⟩
  · exact fun c hc => (h.chains c hc).mono hlo hhi
  · intro s hs
    have := h.imports s hs
    omega
  · exact fun s hs => (h.solid s hs).mono hhi
  · intro p hp
    have := h.points p hp
    omega

theorem span_mem (h : a.Placed text lo hi) {span : Span} (hspan : span ∈ a.spans) :
    lo ≤ span.start ∧ span.stop ≤ hi := by
  rcases mem_spans.mp hspan with ⟨chain, hchain, rfl⟩ | hspan
  · exact ⟨(h.chains chain hchain).lo_le, (h.chains chain hchain).le_hi⟩
  · exact h.imports span hspan

/-- Parts that stand one behind the other are apart. -/
theorem apart_of_le (ha : a.Placed text lo middle) {middle' : Nat}
    (hb : b.Placed text middle' hi) (h : middle ≤ middle') : a.Apart b := by
  refine ⟨?_, ?_, ?_⟩
  · intro s hs t ht
    have hstop := (ha.span_mem hs).2
    have hstart := (hb.span_mem ht).1
    exact Or.inl (by omega)
  · intro p hp s hs
    have hpoint := (ha.points p hp).2
    have hstart := (hb.span_mem hs).1
    exact Or.inl (by omega)
  · intro p hp s hs
    have hpoint := (hb.points p hp).1
    have hstop := (ha.span_mem hs).2
    exact Or.inr (by omega)

/-- Parts that stand one behind the other are placed together. -/
theorem join (ha : a.Placed text lo middle) (hb : b.Placed text middle hi) :
    (a.join b).Placed text lo hi :=
  placed_join.mpr ⟨ha.mono (Nat.le_refl _) hb.le, hb.mono ha.le (Nat.le_refl _),
    apart_of_le ha hb (Nat.le_refl _)⟩

end Placed

end Landmarks

mutual

/-- The landmarks of a tree.  Names that an access extends are one chain. -/
def Tree.landmarks : Tree → Landmarks
  | .leaf _ _ => {}
  | .text _ _ => {}
  | .identifier _ id => .name id
  | .binding id type => (Landmarks.name id).join (allLandmarks type)
  | .member _ object optional property =>
    match object.chain? with
    | some chain =>
      { object.landmarks with
        chains := [chain.extend ⟨property.name, property.span, optional⟩] }
    | none => object.landmarks
  | .call span callee arguments typeArguments =>
    Landmarks.join { points := [span.start] }
      ((Landmarks.ofCall span.start callee).join
        (callee.landmarks.join ((allLandmarks arguments).join (allLandmarks typeArguments))))
  | .qualified _ left right =>
    match left.chain? with
    | some chain =>
      { left.landmarks with chains := [chain.extend ⟨right.name, right.span, false⟩] }
    | none => left.landmarks
  | .typeReference _ name arguments => name.landmarks.join (allLandmarks arguments)
  | .heritage _ value arguments => value.landmarks.join (allLandmarks arguments)
  | .declaration _ id parts => (Landmarks.name id).join (allLandmarks parts)
  | .importDeclaration found =>
    { imports := [found.span], bound := found.specifiers.map fun s => s.localName.name }
  | .importEquals header (.text _ _) => { imports := [header.span], bound := [header.name.name] }
  | .importEquals _ module => module.landmarks
  | .anchored _ start inner => Landmarks.join { points := [start] } inner.landmarks
  | .branch _ _ children => allLandmarks children

/-- The landmarks of trees. -/
def allLandmarks : List Tree → Landmarks
  | [] => {}
  | tree :: rest => tree.landmarks.join (allLandmarks rest)

end

/-! ## Trees that are chains -/

/-- A tree that is a chain has no other landmarks than the chain and points. -/
theorem Tree.landmarks_of_chain {tree : Tree} {chain : Chain} (h : tree.chain? = some chain) :
    tree.landmarks.chains = [chain] ∧ tree.landmarks.imports = [] ∧
      tree.landmarks.bound = [] := by
  fun_induction Tree.chain? tree generalizing chain with
  | case1 role id =>
    obtain rfl := Option.some.inj h
    exact ⟨rfl, rfl, rfl⟩
  | case2 span object optional property inner hinner ih =>
    obtain rfl := Option.some.inj h
    have hobject := ih hinner
    simp only [Tree.landmarks, hinner]
    exact ⟨trivial, hobject.2.1, hobject.2.2⟩
  | case3 => cases h
  | case4 span left right inner hinner ih =>
    obtain rfl := Option.some.inj h
    have hleft := ih hinner
    simp only [Tree.landmarks, hinner]
    exact ⟨trivial, hleft.2.1, hleft.2.2⟩
  | case5 => cases h
  | case6 kind start inner ih =>
    obtain ⟨hchains, himports, hbound⟩ := ih h
    simp only [Tree.landmarks, Landmarks.join, hchains, himports, hbound]
    exact ⟨rfl, rfl, rfl⟩
  | case7 => cases h

/-! ## Programs -/

theorem mem_allLandmarks {trees : List Tree} {tree : Tree} (h : tree ∈ trees) :
    (∀ chain ∈ tree.landmarks.chains, chain ∈ (allLandmarks trees).chains) ∧
      (∀ span ∈ tree.landmarks.imports, span ∈ (allLandmarks trees).imports) ∧
      (∀ point ∈ tree.landmarks.points, point ∈ (allLandmarks trees).points) ∧
      ∀ name ∈ tree.landmarks.bound, name ∈ (allLandmarks trees).bound := by
  induction trees with
  | nil => simp at h
  | cons first rest ih =>
    rcases List.mem_cons.mp h with rfl | h
    · exact ⟨fun _ => List.mem_append_left _, fun _ => List.mem_append_left _,
        fun _ => List.mem_append_left _, fun _ => List.mem_append_left _⟩
    · obtain ⟨hchains, himports, hpoints, hbound⟩ := ih h
      exact ⟨fun c hc => List.mem_append_right _ (hchains c hc),
        fun s hs => List.mem_append_right _ (himports s hs),
        fun p hp => List.mem_append_right _ (hpoints p hp),
        fun n hn => List.mem_append_right _ (hbound n hn)⟩

/-- Whether the landmarks of items are placed one item behind the other. -/
def ItemsPlaced (text : Text) (lo : Nat) : List Tree → Nat → Prop
  | [], hi => lo ≤ hi
  | item :: rest, hi =>
    ∃ next, item.landmarks.Placed text lo next ∧ ItemsPlaced text next rest hi

namespace ItemsPlaced

variable {text : Text} {lo hi : Nat} {items : List Tree}

/-- The landmarks of items that are placed are placed together. -/
theorem landmarks (h : ItemsPlaced text lo items hi) : (allLandmarks items).Placed text lo hi := by
  induction items generalizing lo with
  | nil => exact .empty h
  | cons item rest ih =>
    obtain ⟨next, hitem, hrest⟩ := h
    exact hitem.join (ih hrest)

theorem mono {lo' hi' : Nat} (h : ItemsPlaced text lo items hi) (hlo : lo' ≤ lo) (hhi : hi ≤ hi') :
    ItemsPlaced text lo' items hi' := by
  induction items generalizing lo lo' with
  | nil => exact Nat.le_trans hlo (Nat.le_trans h hhi)
  | cons item rest ih =>
    obtain ⟨next, hitem, hrest⟩ := h
    exact ⟨next, hitem.mono hlo (Nat.le_refl _), ih hrest (Nat.le_refl _)⟩

/-- Items fall apart into those before a place and those behind it. -/
theorem split {before after : List Tree} (h : ItemsPlaced text lo (before ++ after) hi) :
    ∃ middle, ItemsPlaced text lo before middle ∧ ItemsPlaced text middle after hi := by
  induction before generalizing lo with
  | nil => exact ⟨lo, Nat.le_refl _, h⟩
  | cons item rest ih =>
    obtain ⟨next, hitem, hrest⟩ := h
    obtain ⟨middle, hbefore, hafter⟩ := ih hrest
    exact ⟨middle, ⟨next, hitem, hbefore⟩, hafter⟩

end ItemsPlaced

/-- Whether the items of a program are placed in its text and start at points. -/
structure Program.Placed (text : Text) (program : Program) : Prop where
  items : ItemsPlaced text 0 program.items text.length
  starts : ∀ item ∈ program.items, item.start ∈ item.landmarks.points

/-- The landmarks of a program lie in its text. -/
theorem Program.Placed.landmarks {text : Text} {program : Program} (h : program.Placed text) :
    (allLandmarks program.items).Placed text 0 text.length := h.items.landmarks

end SdkMigration
