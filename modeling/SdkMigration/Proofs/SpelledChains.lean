import Mathlib.Algebra.GroupWithZero.Nat
import SdkMigration.Proofs.Landmarks

/-!
# What the place of a chain tells about its names

The place of a chain may hold more than its names, blanks and comments among it,
and a name may be written with escapes.  Where the place reads as names joined
by plain accesses, nothing of this is the case.  The first name is then the one
that the text starts with, and the names behind it are no longer than the text
that is left.
-/

namespace SdkMigration

/-! ## Slices -/

namespace Text

variable {text : Text}

theorem getElem?_slice {span : Span} {index : Nat} (h : span.start + index < span.stop) :
    (text.slice span)[index]? = text[span.start + index]? := by
  unfold slice
  rw [List.getElem?_drop, List.getElem?_take_of_lt h]

theorem length_slice {span : Span} (h : span.stop ≤ text.length) :
    (text.slice span).length = span.stop - span.start := by
  unfold slice
  rw [List.length_drop, List.length_take, Nat.min_eq_left h]

/-- A span inside another one that starts where that one does holds its first
characters. -/
theorem slice_eq_take {short long : Span} (hstart : short.start = long.start)
    (hstop : short.stop ≤ long.stop) :
    text.slice short = (text.slice long).take (short.stop - short.start) := by
  simp only [slice, List.drop_take, List.take_take, ← hstart]
  rw [Nat.min_eq_left (by omega)]

end Text

/-! ## Names that are written plainly -/

namespace Identifier.Placed

variable {text : Text} {id : Identifier}

theorem stop_le (h : id.Placed text) : id.span.stop ≤ text.length := by
  have hlt := h.ink_stop.lt_length
  omega

/-- A name without escapes that no comment stands before is written as it is. -/
theorem slice_eq (h : id.Placed text) (hslash : '\\' ∉ text.slice id.span)
    (hmarkup : ¬ text.OpensMarkup id.span.start) : text.slice id.span = id.name.toList :=
  h.spelled.written.resolve_right fun hother => hother.elim hslash hmarkup

theorem length_name (h : id.Placed text) (hslash : '\\' ∉ text.slice id.span)
    (hmarkup : ¬ text.OpensMarkup id.span.start) :
    id.span.start + id.name.toList.length = id.span.stop := by
  have hle := id.span.start_le_stop
  rw [← h.slice_eq hslash hmarkup, Text.length_slice h.stop_le]
  omega

end Identifier.Placed

/-- Names in a part of a text without escapes and without what could open a comment in the
style of markup are together no longer than the part. -/
theorem Identifier.AllPlaced.sum_length_le {text : Text} {lo hi : Nat} {ids : List Identifier}
    (h : AllPlaced text lo ids hi)
    (hplain : ∀ position, lo ≤ position → position < hi →
      text[position]? ≠ some '\\' ∧ ¬ text.OpensMarkup position) :
    lo + (ids.map fun id => id.name.toList.length).sum ≤ hi := by
  induction ids generalizing lo with
  | nil => exact h
  | cons id rest ih =>
    obtain ⟨hlo, hid, hrest⟩ := h
    have hhi := hrest.le
    have hlt := hid.start_lt_stop
    have hslash : '\\' ∉ text.slice id.span := by
      intro hmem
      obtain ⟨index, hindex⟩ := List.mem_iff_getElem?.mp hmem
      have hbound := (List.getElem?_eq_some_iff.mp hindex).1
      rw [Text.length_slice hid.stop_le] at hbound
      rw [Text.getElem?_slice (by omega)] at hindex
      exact (hplain _ (by omega) (by omega)).1 hindex
    have hlength := hid.length_name hslash (hplain _ hlo (by omega)).2
    have hothers := ih hrest fun position hposition => hplain position (by omega)
    rw [List.map_cons, List.sum_cons]
    omega

/-! ## Chains whose place is known -/

namespace Chain.Placed

variable {text : Text} {lo hi : Nat} {chain : Chain} {rest : List Char}

theorem head_placed (h : chain.Placed text lo hi) :
    (⟨chain.head.name, chain.head.span⟩ : Identifier).Placed text :=
  (h.segment List.mem_cons_self).1

theorem head_stop_le (h : chain.Placed text lo hi) : chain.head.span.stop ≤ chain.span.stop :=
  (h.to_stop.segment List.mem_cons_self).2.2

theorem stop_le_length (h : chain.Placed text lo hi) : chain.span.stop ≤ text.length := by
  have hlt := h.ink_stop.lt_length
  have hspan := h.start_lt_stop
  omega

/-- The first name is written as it is when the place has no escapes and does not start as a
comment may. -/
theorem slice_head (h : chain.Placed text lo hi) (hslash : '\\' ∉ text.slice chain.span)
    (hhead : ∀ c, (text.slice chain.span).head? = some c → c ≠ '<' ∧ c ≠ '-') :
    text.slice chain.head.span = chain.head.name.toList := by
  have hspan := h.start_lt_stop
  refine h.head_placed.slice_eq (fun hmem => hslash ?_) fun hopens => ?_
  · rw [@Text.slice_eq_take text chain.head.span chain.span rfl h.head_stop_le] at hmem
    exact List.mem_of_mem_take hmem
  · have hfirst : (text.slice chain.span).head? = text[chain.span.start]? := by
      rw [List.head?_eq_getElem?, Text.getElem?_slice (by omega), Nat.add_zero]
    rcases hopens with hopens | hopens
    · exact (hhead _ (hfirst.trans hopens)).1 rfl
    · exact (hhead _ (hfirst.trans hopens)).2 rfl

/-- Where the place starts with a name and goes on with something else, the first name is that
name. -/
theorem head_name_eq (h : chain.Placed text lo hi) {name : String}
    (hslice : text.slice chain.span = name.toList ++ rest) (hname : name ≠ "")
    (hletters : ∀ c ∈ name.toList, NameChars.canContinue c = true) (hrest : rest ≠ [])
    (hnext : ∀ c, rest.head? = some c → NameChars.canContinue c = false ∧ c ≠ '-')
    (hslash : '\\' ∉ text.slice chain.span) : chain.head.name = name := by
  have hspelled := h.head_placed.spelled
  have hbegins : text.slice chain.head.span = chain.head.name.toList := by
    refine h.slice_head hslash fun c hc => ?_
    rw [hslice, List.head?_append_of_ne_nil _ (by simpa using hname)] at hc
    have hletter := hletters c (List.mem_of_head? hc)
    constructor <;> (rintro rfl; revert hletter; decide)
  have htake : chain.head.name.toList =
      (name.toList ++ rest).take (chain.head.span.stop - chain.head.span.start) := by
    rw [← hbegins, @Text.slice_eq_take text chain.head.span chain.span rfl h.head_stop_le,
      hslice]
  have hlength : (name.toList ++ rest).length = chain.span.stop - chain.span.start := by
    rw [← hslice, Text.length_slice h.stop_le_length]
  have hpositive := List.length_pos_iff.mpr hrest
  have hlt := h.head_placed.start_lt_stop
  have hstart : chain.span.start = chain.head.span.start := rfl
  rw [List.length_append] at hlength
  simp only at hlt
  generalize hcount : chain.head.span.stop - chain.head.span.start = count at htake
  rcases Nat.lt_trichotomy count name.toList.length with hshort | hsame | hlong
  · -- The text would go on with the first name behind its end.
    have hletter := hletters _ (List.getElem_mem hshort)
    have hends := hspelled.ends (name.toList[count]) (by
      have hindex := @Text.getElem?_slice text chain.span count (by omega)
      rw [hslice, List.getElem?_append_left hshort, List.getElem?_eq_getElem hshort] at hindex
      rw [hindex]
      congr 1
      simp only
      omega)
    rw [hletter] at hends
    cases hends
  · rw [hsame, List.take_left] at htake
    exact String.toList_inj.mp htake
  · -- The first name would have the character behind the given name.
    obtain ⟨next, others, rfl⟩ := List.exists_cons_of_ne_nil hrest
    obtain ⟨hstops, hhyphen⟩ := hnext next rfl
    have hmem : next ∈ chain.head.name.toList := by
      rw [htake, List.take_append, List.mem_append]
      refine Or.inr ?_
      rw [List.take_cons (by omega)]
      exact List.mem_cons_self
    rcases hspelled.chars next hmem with hletter | hletter
    · rw [hstops] at hletter
      cases hletter
    · exact absurd hletter hhyphen

/-- Where the place starts with the first name and goes on without escapes and without what
could open a comment in the style of markup, the other names fit into the rest. -/
theorem rest_length_le (h : chain.Placed text lo hi)
    (hslice : text.slice chain.span = chain.head.name.toList ++ rest)
    (hplain : ∀ c ∈ rest, c ≠ '\\' ∧ c ≠ '<' ∧ c ≠ '-') :
    (chain.rest.map fun segment => segment.name.toList.length).sum ≤ rest.length := by
  have hspelled := h.head_placed.spelled
  have hletters : ∀ c ∈ chain.head.name.toList, c ≠ '\\' ∧ c ≠ '<' := by
    intro c hc
    rcases hspelled.chars c hc with hletter | rfl
    · constructor <;> (rintro rfl; revert hletter; decide)
    · decide
  have hbegins : text.slice chain.head.span = chain.head.name.toList := by
    refine h.slice_head ?_ fun c hc => ?_
    · rw [hslice, List.mem_append]
      rintro (hmem | hmem)
      · exact (hletters _ hmem).1 rfl
      · exact (hplain _ hmem).1 rfl
    · rw [hslice, List.head?_append] at hc
      cases hfirst : chain.head.name.toList.head? with
      | none =>
        rw [hfirst, Option.none_or] at hc
        exact (hplain c (List.mem_of_head? hc)).2
      | some first =>
        rw [hfirst, Option.some_or] at hc
        obtain rfl := Option.some.inj hc
        refine ⟨(hletters _ (List.mem_of_head? hfirst)).2, ?_⟩
        rintro rfl
        exact hspelled.initial hfirst
  have hstop : (text.slice chain.head.span).length =
      chain.head.span.stop - chain.head.span.start := Text.length_slice h.head_placed.stop_le
  rw [hbegins] at hstop
  have hhead := chain.head.span.start_le_stop
  have hlength : (chain.head.name.toList ++ rest).length = chain.span.stop - chain.span.start := by
    rw [← hslice, Text.length_slice h.stop_le_length]
  have hstart : chain.span.start = chain.head.span.start := rfl
  have hspan := chain.span.start_le_stop
  rw [List.length_append] at hlength
  have hothers : Identifier.AllPlaced text chain.head.span.stop
      (chain.rest.map fun segment => ⟨segment.name, segment.span⟩) chain.span.stop :=
    h.to_stop.2.2
  have hsum := hothers.sum_length_le fun position hlo hhi => by
    have hindex := @Text.getElem?_slice text chain.span (position - chain.span.start) (by omega)
    rw [hslice, List.getElem?_append_right (by omega), Nat.add_sub_cancel' (by omega)] at hindex
    have hmem : ∀ c, text[position]? = some c → c ≠ '\\' ∧ c ≠ '<' ∧ c ≠ '-' :=
      fun c hc => hplain c (List.mem_of_getElem? (hindex.trans hc))
    refine ⟨fun hc => (hmem _ hc).1 rfl, ?_⟩
    rintro (hc | hc)
    · exact (hmem _ hc).2.1 rfl
    · exact (hmem _ hc).2.2 rfl
  rw [List.map_map] at hsum
  have hsame : (fun id : Identifier => id.name.toList.length) ∘
      (fun segment : Segment => (⟨segment.name, segment.span⟩ : Identifier)) =
      fun segment => segment.name.toList.length := rfl
  rw [hsame] at hsum
  omega

end Chain.Placed

/-! ## Rendered replacements -/

namespace Chain

variable (chain : Chain) (tokens : List String) (index : Nat) {names : List String}

/-- What is written behind the first name are the other names and the accesses to them. -/
theorem mem_renderRest {c : Char} (h : c ∈ chain.renderRest tokens index names) :
    c = '.' ∨ c = '?' ∨ ∃ name ∈ names, c ∈ name.toList := by
  induction names generalizing index with
  | nil => simp [renderRest] at h
  | cons name rest ih =>
    unfold renderRest at h
    rw [List.mem_append, List.mem_append] at h
    rcases h with (haccess | hname) | hrest
    · split at haccess <;> simp at haccess <;> tauto
    · exact Or.inr (Or.inr ⟨name, List.mem_cons_self, hname⟩)
    · rcases ih (index + 1) hrest with hdot | hmark | ⟨other, hother, hc⟩
      · exact Or.inl hdot
      · exact Or.inr (Or.inl hmark)
      · exact Or.inr (Or.inr ⟨other, List.mem_cons_of_mem _ hother, hc⟩)

theorem length_renderRest_le : (chain.renderRest tokens index names).length ≤
    (names.map fun name => name.toList.length + 2).sum := by
  induction names generalizing index with
  | nil => simp [renderRest]
  | cons name rest ih =>
    have hrest := ih (index + 1)
    unfold renderRest
    rw [List.length_append, List.length_append, List.map_cons, List.sum_cons]
    split <;> simp only [List.length_cons, List.length_nil] <;> omega

theorem renderRest_ne_nil (h : names ≠ []) : chain.renderRest tokens index names ≠ [] := by
  obtain ⟨name, rest, rfl⟩ := List.exists_cons_of_ne_nil h
  unfold renderRest
  split <;> simp

/-- Behind the first name comes an access. -/
theorem head?_renderRest {c : Char} (h : (chain.renderRest tokens index names).head? = some c) :
    c = '.' ∨ c = '?' := by
  cases names with
  | nil => simp [renderRest] at h
  | cons name rest =>
    unfold renderRest at h
    split at h
    · exact Or.inr (Option.some.inj h).symm
    · exact Or.inl (Option.some.inj h).symm

end Chain

end SdkMigration
