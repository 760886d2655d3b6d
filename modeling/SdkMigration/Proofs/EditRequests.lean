import SdkMigration.Migration.Draft
import SdkMigration.Proofs.WrittenText

/-!
# Requests for edits

A stage asks for an edit in one of four ways: it replaces or removes a span,
or it inserts before or behind what else is inserted at a position.  A draft
grants a request unless its edit clashes with one that was granted before.

A `Session` is a draft with the requests that it has granted, in the order of
the calls.  `Session.Coherent` is the invariant that a request keeps: the
edits held are those granted, and no two of them clash.  The main result,
`Session.run_carried_out`, follows from it: when all is carried out, the sweep
over the text meets no overlap, and it writes what was granted, position by
position.
-/

namespace SdkMigration

namespace Edit

/-! ## Clashes -/

/-- Whether an edit inserts strictly inside what another one replaces. -/
def InsertsInside (a b : Edit) : Prop :=
  a.span.start = a.span.stop ∧ b.span.start < a.span.start ∧ a.span.start < b.span.stop

/-- Whether two edits replace a character in common. -/
def SharesWith (a b : Edit) : Prop :=
  ∃ position, a.span.covers position = true ∧ b.span.covers position = true

/-- Whether two edits clash.  Two insertions never do, and edits that touch at
an edge do not either. -/
def Clash (a b : Edit) : Prop := a.InsertsInside b ∨ b.InsertsInside a ∨ a.SharesWith b

theorem sharesWith_iff {a b : Edit} :
    a.SharesWith b ↔ a.span.start < a.span.stop ∧ b.span.start < b.span.stop ∧
      a.span.start < b.span.stop ∧ b.span.start < a.span.stop := by
  simp only [SharesWith, Span.covers, Bool.and_eq_true, decide_eq_true_eq]
  constructor
  · rintro ⟨position, ⟨hstartA, hstopA⟩, hstartB, hstopB⟩
    omega
  · rintro ⟨hspanA, hspanB, hab, hba⟩
    exact ⟨max a.span.start b.span.start, by omega, by omega⟩

theorem overlaps_iff_clash {a b : Edit} : a.overlaps b = true ↔ a.Clash b := by
  have ha := a.span.start_le_stop
  have hb := b.span.start_le_stop
  unfold Clash InsertsInside
  rw [sharesWith_iff]
  cases hia : a.isInsertion <;> cases hib : b.isInsertion <;>
    simp only [overlaps, hia, hib, strictlyInside, Bool.and_eq_true, decide_eq_true_eq] <;>
    simp only [isInsertion, Span.isPoint, beq_iff_eq, beq_eq_false_iff_ne] at hia hib <;>
    grind

theorem overlaps_eq_false_iff {a b : Edit} : a.overlaps b = false ↔ ¬ a.Clash b := by
  rw [← overlaps_iff_clash, Bool.not_eq_true]

/-- What does not overlap a replacement of a span does not overlap one of a part of the
span. -/
theorem not_overlaps_of_inside {edit : Edit} {wide narrow : Span} {newText : Text}
    (h : edit.overlaps ⟨wide, newText⟩ = false) (hstart : wide.start ≤ narrow.start)
    (hstop : narrow.stop ≤ wide.stop) (other : Text) : edit.overlaps ⟨narrow, other⟩ = false := by
  have hspan := edit.span.start_le_stop
  have hnarrow := narrow.start_le_stop
  rw [overlaps_eq_false_iff] at h ⊢
  simp only [Clash, InsertsInside, sharesWith_iff] at h ⊢
  omega

end Edit

/-! ## Requests -/

/-- A call that asks for an edit. -/
inductive Request where
  | replace (span : Span) (newText : Text)
  | insert (position : Nat) (newText : Text)
  | prepend (position : Nat) (newText : Text)
  | remove (span : Span)

namespace Request

/-- The edit that is asked for. -/
def edit : Request → Edit
  | replace span newText => ⟨span, newText⟩
  | insert position newText => ⟨Span.point position, newText⟩
  | prepend position newText => ⟨Span.point position, newText⟩
  | remove span => ⟨span, []⟩

/-- Whether the edit is to come before all others. -/
def isPrepend : Request → Bool
  | prepend _ _ => true
  | _ => false

/-- Puts the edit that is asked for among those held. -/
def place (request : Request) : Edits → Edit → Edits :=
  if request.isPrepend then Edits.prepend else Edits.append

/-- The edits of requests in the order in which they take effect at one
position: what is prepended, the latest first, and then the others in the
order of the calls. -/
def inPrecedence (requests : List Request) : List Edit :=
  ((requests.filter isPrepend).reverse ++ requests.filter fun request => !request.isPrepend).map
    edit

theorem mem_inPrecedence {requests : List Request} {asked : Edit} :
    asked ∈ inPrecedence requests ↔ ∃ request ∈ requests, request.edit = asked := by
  simp only [inPrecedence, List.mem_map, List.mem_append, List.mem_reverse, List.mem_filter,
    Bool.not_eq_true', ← and_or_left]
  refine exists_congr fun request => and_congr_left fun _ => and_iff_left ?_
  exact (Bool.eq_false_or_eq_true _)

theorem held_place {edits : Edits} {granted : List Request}
    (h : edits.held = inPrecedence granted) (request : Request) :
    (request.place edits request.edit).held = inPrecedence (granted ++ [request]) := by
  unfold place
  cases hprepend : request.isPrepend <;>
    simp [inPrecedence, hprepend, Edits.append, Edits.prepend, h]

end Request

namespace Edits

/-! ## The sweep with its check -/

/-- Carries out edits one after the other, `rest` being the text from
`position` on, and gives up at one that starts before the end of the one
before it. -/
def sweep? (position : Nat) (rest : Text) : List Edit → Option Text
  | [] => some rest
  | edit :: others =>
    if edit.span.start < position then none
    else
      (sweep? edit.span.stop (rest.drop (edit.span.stop - position)) others).map fun tail =>
        rest.take (edit.span.start - position) ++ edit.newText ++ tail

theorem sweep?_eq_some {position : Nat} (rest : Text) {edits : List Edit}
    (hordered : Ordered edits) (hstart : ∀ edit ∈ edits, position ≤ edit.span.start) :
    sweep? position rest edits = some (splice position rest edits) := by
  induction edits generalizing position rest with
  | nil => rfl
  | cons edit others ih =>
    obtain ⟨hnext, hothers⟩ := List.pairwise_cons.mp hordered
    have hfrom := hstart edit List.mem_cons_self
    rw [sweep?, if_neg (Nat.not_lt.mpr hfrom), ih _ hothers hnext]
    rfl

end Edits

/-! ## Sessions -/

/-- A draft with the requests that it has granted, in the order of the
calls. -/
structure Session where
  draft : Draft := {}
  granted : List Request := []

namespace Session

/-- What a request is answered with. -/
def answer (session : Session) (request : Request) : Bool :=
  (session.draft.tryEdit request.edit request.place).2

/-- The session after a request. -/
def after (session : Session) (request : Request) : Session where
  draft := (session.draft.tryEdit request.edit request.place).1
  granted := if session.answer request then session.granted ++ [request] else session.granted

/-- The session after requests that are made one after the other. -/
def run (session : Session) (requests : List Request) : Session :=
  requests.foldl after session

/-- The edits held are those of the requests granted, and no two clash. -/
structure Coherent (session : Session) : Prop where
  held : session.draft.edits.held = Request.inPrecedence session.granted
  consistent : session.draft.edits.Consistent
  apart : session.granted.Pairwise fun a b => ¬ a.edit.Clash b.edit

variable {session : Session}

/-- A request is answered with yes just when no edit held clashes with its
own. -/
theorem answer_iff {request : Request} :
    session.answer request = true ↔
      ∀ held ∈ session.draft.edits.held, ¬ held.Clash request.edit := by
  simp only [← Edit.overlaps_eq_false_iff, ← Edits.conflict?_eq_none]
  unfold answer Draft.tryEdit
  cases session.draft.edits.conflict? request.edit <;> simp

theorem Coherent.answer_iff_granted (h : session.Coherent) {request : Request} :
    session.answer request = true ↔
      ∀ earlier ∈ session.granted, ¬ earlier.edit.Clash request.edit := by
  rw [answer_iff, h.held]
  simp only [Request.mem_inPrecedence, forall_exists_index, and_imp, forall_apply_eq_imp_iff₂]

/-- A request that is answered with yes holds its edit. -/
theorem edits_after_of_granted {request : Request} (h : session.answer request = true) :
    (session.after request).draft.edits = request.place session.draft.edits request.edit := by
  unfold answer at h
  unfold after Draft.tryEdit at *
  split at h
  · exact absurd h Bool.false_ne_true
  · rfl

/-- A request that is answered with no leaves the edits as they are. -/
theorem edits_after_of_refused {request : Request} (h : session.answer request = false) :
    (session.after request).draft.edits = session.draft.edits := by
  unfold answer at h
  unfold after Draft.tryEdit at *
  split at h
  · rfl
  · exact absurd h.symm Bool.false_ne_true

theorem coherent_nil : Coherent {} where
  held := rfl
  consistent := Edits.consistent_nil
  apart := List.Pairwise.nil

/-- A request keeps a session coherent. -/
theorem Coherent.after (h : session.Coherent) (request : Request) :
    (session.after request).Coherent := by
  cases hanswer : session.answer request
  case false =>
    have hgranted : (session.after request).granted = session.granted := by
      simp [Session.after, hanswer]
    have hedits := edits_after_of_refused hanswer
    exact ⟨by rw [hedits, hgranted, h.held], by rw [hedits]; exact h.consistent,
      by rw [hgranted]; exact h.apart⟩
  case true =>
    have hgranted : (session.after request).granted = session.granted ++ [request] := by
      simp [Session.after, hanswer]
    have hedits := edits_after_of_granted hanswer
    have hnone : session.draft.edits.conflict? request.edit = none := by
      rw [Edits.conflict?_eq_none]
      intro held hheld
      exact Edit.overlaps_eq_false_iff.mpr (answer_iff.mp hanswer held hheld)
    refine ⟨?_, ?_, ?_⟩
    · rw [hedits, hgranted]
      exact Request.held_place h.held request
    · rw [hedits]
      unfold Request.place
      split
      · exact h.consistent.prepend hnone
      · exact h.consistent.append hnone
    · rw [hgranted, List.pairwise_append]
      refine ⟨h.apart, List.pairwise_singleton _ _, ?_⟩
      intro earlier hearlier later hlater
      rw [List.mem_singleton.mp hlater]
      exact h.answer_iff_granted.mp hanswer earlier hearlier

/-- Requests keep a session coherent. -/
theorem Coherent.run (h : session.Coherent) (requests : List Request) :
    (session.run requests).Coherent := by
  induction requests generalizing session with
  | nil => exact h
  | cons request rest ih => exact ih (h.after request)

/-- Only what is asked for is granted. -/
theorem granted_run_subset (session : Session) (requests : List Request) :
    (session.run requests).granted ⊆ session.granted ++ requests := by
  induction requests generalizing session with
  | nil => simp [run]
  | cons request rest ih =>
    have hafter : (session.after request).granted ⊆ session.granted ++ [request] := by
      unfold after
      split
      · exact List.Subset.refl _
      · exact List.subset_append_left _ _
    intro granted hgranted
    rcases List.mem_append.mp (ih (session.after request) hgranted) with hearlier | hlater
    · rcases List.mem_append.mp (hafter hearlier) with hearlier | hnow
      · exact List.mem_append_left _ hearlier
      · exact List.mem_append_right _ (List.mem_cons.mpr (Or.inl (List.mem_singleton.mp hnow)))
    · exact List.mem_append_right _ (List.mem_cons_of_mem _ hlater)

/-- Whatever is asked for inside a text, one request after the other: a
request is granted just when its edit clashes with none granted before, and
one that is refused leaves the edits as they are.  The sweep that carries out
what was granted meets no overlap.  It writes at each position what is
prepended there, the latest first, what is inserted there in the order of the
calls, the new text of a replacement that starts there, and then the character
itself unless a replacement covers it. -/
theorem run_carried_out (text : Text) (requests : List Request)
    (hinside : ∀ request ∈ requests, request.edit.span.stop ≤ text.length) :
    let session := Session.run {} requests
    let edits := session.draft.edits
    (∀ request, session.answer request = true ↔
      ∀ earlier ∈ session.granted, ¬ earlier.edit.Clash request.edit) ∧
    (∀ request, session.answer request = false →
      (session.after request).draft.edits = edits) ∧
    (session.granted.Pairwise fun a b => ¬ a.edit.Clash b.edit) ∧
    Edits.sweep? 0 text (Edits.inOrder edits.held) = some (edits.apply text) ∧
    edits.apply text = Edits.written (Request.inPrecedence session.granted) 0 text ∧
    ∀ position, edits.covers position = true ↔
      ∃ request ∈ session.granted, request.edit.span.covers position = true := by
  intro session edits
  have hcoherent : session.Coherent := coherent_nil.run requests
  have hheldInside : ∀ edit ∈ edits.held, edit.span.stop ≤ text.length := by
    intro edit hedit
    rw [hcoherent.held, Request.mem_inPrecedence] at hedit
    obtain ⟨request, hgranted, rfl⟩ := hedit
    exact hinside request (by simpa using granted_run_subset {} requests hgranted)
  refine ⟨fun _ => hcoherent.answer_iff_granted, fun _ => edits_after_of_refused,
    hcoherent.apart, ?_, ?_, ?_⟩
  · exact Edits.sweep?_eq_some text hcoherent.consistent.ordered fun _ _ => Nat.zero_le _
  · rw [← hcoherent.held]
    exact hcoherent.consistent.apply_eq_written hheldInside
  · intro position
    rw [show edits = ⟨edits.held⟩ from rfl, Edits.covers_iff, hcoherent.held]
    simp only [Request.mem_inPrecedence, Span.covers, Bool.and_eq_true, decide_eq_true_eq]
    constructor
    · rintro ⟨_, ⟨request, hgranted, rfl⟩, hcovers⟩
      exact ⟨request, hgranted, hcovers⟩
    · rintro ⟨request, hgranted, hcovers⟩
      exact ⟨request.edit, ⟨request, hgranted, rfl⟩, hcovers⟩

/-- Two words that are replaced, one request that is refused, and three
insertions at the start. -/
private def greeting : List Request :=
  [.replace ⟨6, 11, by decide⟩ "there".toList, .insert 0 "// a\n".toList,
    .remove ⟨10, 12, by decide⟩, .insert 0 "// b\n".toList,
    .replace ⟨0, 5, by decide⟩ "Hi".toList, .prepend 0 "// first\n".toList]

theorem run_carried_out_greeting :
    (∀ request ∈ greeting, request.edit.span.stop ≤ "hello world!".toList.length) ∧
      ¬ (Session.run {} (greeting.take 2)).answer (.remove ⟨10, 12, by decide⟩) ∧
      (Session.run {} greeting).draft.edits.apply "hello world!".toList =
        "// first\n// a\n// b\nHi there!".toList := by
  have hinside : ∀ request ∈ greeting, request.edit.span.stop ≤ "hello world!".toList.length := by
    decide +kernel
  have hrun := run_carried_out "hello world!".toList greeting hinside
  refine ⟨hinside, by decide +kernel, ?_⟩
  rw [hrun.2.2.2.2.1]
  decide +kernel

end Session

end SdkMigration
