import SdkMigration.Json.Reader
import SdkMigration.Json.Writer

/-!
# Numbers that are written are numerals

A number is written as a numeral of the format: a sign, digits without a leading zero, a
point with digits, and an exponent, of which all but the digits may be missing.  Of such a
text a reader takes exactly the numeral, whatever stands behind it that cannot go on with it.
-/

namespace SdkMigration.Json

/-! ## Reading a numeral -/

/-- Whether characters do not go on with a numeral that stands before them. -/
def EndsNumeral (rest : List Char) : Prop :=
  ∀ c ∈ rest.head?, digit? c = none ∧ c ≠ '.' ∧ c ≠ 'e' ∧ c ≠ 'E'

/-- Whether characters are digits, at least one. -/
structure IsDigits (chars : List Char) : Prop where
  digits : ∀ c ∈ chars, (digit? c).isSome = true
  nonempty : chars ≠ []

theorem spanDigits_append {chars rest : List Char} (hchars : ∀ c ∈ chars, (digit? c).isSome = true)
    (hrest : ∀ c ∈ rest.head?, digit? c = none) :
    spanDigits (chars ++ rest) = (chars.filterMap digit?, rest) := by
  induction chars with
  | nil =>
    cases rest with
    | nil => rfl
    | cons c rest => simp [spanDigits, hrest c rfl]
  | cons c chars ih =>
    obtain ⟨digit, hdigit⟩ := Option.isSome_iff_exists.mp (hchars c (.head chars))
    simp [spanDigits, hdigit, ih fun other hother => hchars other (.tail c hother)]

/-- What may stand behind the digits of a numeral: a point with digits. -/
inductive IsFraction : List Char → Prop
  | none : IsFraction []
  | point {chars : List Char} (digits : IsDigits chars) : IsFraction ('.' :: chars)

/-- What may stand at the end of a numeral: an exponent. -/
inductive IsExponent : List Char → Prop
  | none : IsExponent []
  | positive {chars : List Char} (digits : IsDigits chars) : IsExponent ('e' :: chars)
  | negative {chars : List Char} (digits : IsDigits chars) : IsExponent ('e' :: '-' :: chars)

/-- Whether characters are a numeral without its sign. -/
inductive IsUnsigned : List Char → Prop
  | mk {whole fraction exponent : List Char} (digits : IsDigits whole)
      (plain : whole.head? = some '0' → whole = ['0']) (pointed : IsFraction fraction)
      (scaled : IsExponent exponent) : IsUnsigned (whole ++ (fraction ++ exponent))

/-- Whether characters are a numeral. -/
inductive IsNumeral : List Char → Prop
  | positive {chars : List Char} (unsigned : IsUnsigned chars) : IsNumeral chars
  | negative {chars : List Char} (unsigned : IsUnsigned chars) : IsNumeral ('-' :: chars)

theorem IsDigits.head {chars : List Char} (h : IsDigits chars) :
    ∃ c rest, chars = c :: rest ∧ ∃ d, digit? c = some d := by
  obtain ⟨c, rest, rfl⟩ := List.exists_cons_of_ne_nil h.nonempty
  exact ⟨c, rest, rfl, Option.isSome_iff_exists.mp (h.digits c (.head rest))⟩

/-- The digits that characters stand for are none only when there are no characters. -/
theorem IsDigits.filterMap_ne_nil {chars : List Char} (h : IsDigits chars) :
    chars.filterMap digit? ≠ [] := by
  obtain ⟨c, rest, rfl, d, hd⟩ := h.head
  simp [hd]

theorem spanExponent?_append {chars rest : List Char} (h : IsDigits chars)
    (hrest : EndsNumeral rest) :
    spanExponent? (chars ++ rest) = some ((false, chars.filterMap digit?), rest) ∧
      spanExponent? ('-' :: (chars ++ rest)) = some ((true, chars.filterMap digit?), rest) := by
  have hspan := spanDigits_append h.digits fun c hc => (hrest c hc).1
  have hdigits := h.filterMap_ne_nil
  generalize chars.filterMap digit? = found at hspan hdigits ⊢
  obtain ⟨first, others, rfl⟩ := List.exists_cons_of_ne_nil hdigits
  constructor
  · obtain ⟨c, chars, rfl, d, hd⟩ := h.head
    have hsign : c ≠ '-' ∧ c ≠ '+' := by
      constructor
      · rintro rfl
        cases hd
      · rintro rfl
        cases hd
    rw [List.cons_append] at hspan ⊢
    unfold spanExponent?
    split
    · next heq =>
      split at heq
      · next hchars => exact absurd (List.cons.inj hchars).1 hsign.1
      · next hchars => exact absurd (List.cons.inj hchars).1 hsign.2
      · cases heq
        simp only [hspan]
  · simp only [spanExponent?, hspan]

theorem digit?_eq_zero {c : Char} (h : digit? c = some 0) : c = '0' := by
  unfold digit? at h
  split at h
  · have hvalue : c.toNat = 0x30 := by
      have := Option.some.inj h
      omega
    rw [← Char.ofNat_toNat c, hvalue]
  · cases h

/-- The digits of a whole number without a leading zero: zero alone, or others. -/
theorem IsDigits.whole {chars : List Char} (h : IsDigits chars)
    (hplain : chars.head? = some '0' → chars = ['0']) :
    chars.filterMap digit? = [0] ∨ ∃ d rest, chars.filterMap digit? = (d + 1) :: rest := by
  obtain ⟨c, rest, rfl, d, hd⟩ := h.head
  cases d with
  | zero =>
    obtain rfl := digit?_eq_zero hd
    rw [hplain rfl]
    exact Or.inl rfl
  | succ d => exact Or.inr ⟨d, _, List.filterMap_cons_some hd⟩

theorem EndsNumeral.exponent {exponent rest : List Char} (h : IsExponent exponent)
    (hrest : EndsNumeral rest) : ∀ c ∈ (exponent ++ rest).head?, digit? c = none ∧ c ≠ '.' := by
  cases h with
  | none => exact fun c hc => ⟨(hrest c hc).1, (hrest c hc).2.1⟩
  | positive _ =>
    rintro c ⟨⟩
    exact ⟨rfl, by decide⟩
  | negative _ =>
    rintro c ⟨⟩
    exact ⟨rfl, by decide⟩

theorem spanFraction?_append {fraction : List Char} (h : IsFraction fraction) :
    ∃ digits, ∀ rest : List Char, (∀ c ∈ rest.head?, digit? c = none ∧ c ≠ '.') →
      spanFraction? (fraction ++ rest) = some (digits, rest) := by
  cases h with
  | none =>
    refine ⟨none, fun rest hrest => ?_⟩
    unfold spanFraction?
    split
    · next after hafter =>
      rw [List.nil_append] at hafter
      exact absurd rfl (hrest '.' (by rw [hafter]; rfl)).2
    · rfl
  | @point chars hdigits =>
    refine ⟨some (chars.filterMap digit?), fun rest hrest => ?_⟩
    have hspan := spanDigits_append hdigits.digits fun c hc => (hrest c hc).1
    have hfound := hdigits.filterMap_ne_nil
    generalize chars.filterMap digit? = found at hspan hfound ⊢
    obtain ⟨first, others, rfl⟩ := List.exists_cons_of_ne_nil hfound
    simp only [List.cons_append, spanFraction?, hspan]

theorem spanScale?_append {exponent : List Char} (h : IsExponent exponent) :
    ∃ scale, ∀ rest, EndsNumeral rest → spanScale? (exponent ++ rest) = some (scale, rest) := by
  cases h with
  | none =>
    refine ⟨none, fun rest hrest => ?_⟩
    cases rest with
    | nil => rfl
    | cons c rest =>
      obtain ⟨-, -, hsmall, hlarge⟩ := hrest c rfl
      simp [spanScale?, hsmall, hlarge]
  | @positive chars hdigits =>
    refine ⟨some (false, chars.filterMap digit?), fun rest hrest => ?_⟩
    simp [spanScale?, (spanExponent?_append hdigits hrest).1]
  | @negative chars hdigits =>
    refine ⟨some (true, chars.filterMap digit?), fun rest hrest => ?_⟩
    simp [spanScale?, (spanExponent?_append hdigits hrest).2]

/-- A numeral without its sign is read to its end, in the same way after any sign. -/
theorem spanUnsigned?_append {chars : List Char} (h : IsUnsigned chars) :
    ∃ whole fraction exponent, ∀ negative rest, EndsNumeral rest →
      spanUnsigned? negative (chars ++ rest) =
        some (⟨negative, whole, fraction, exponent⟩, rest) := by
  cases h with
  | @mk whole fraction exponent hwhole hplain hpointed hscaled =>
    obtain ⟨digits, hfraction⟩ := spanFraction?_append hpointed
    obtain ⟨scale, hscale⟩ := spanScale?_append hscaled
    refine ⟨whole.filterMap digit?, digits, scale, fun negative rest hrest => ?_⟩
    have hbehind := hfraction (exponent ++ rest) (hrest.exponent hscaled)
    have hstart : spanDigits (whole ++ (fraction ++ exponent) ++ rest) =
        (whole.filterMap digit?, fraction ++ (exponent ++ rest)) := by
      rw [List.append_assoc, List.append_assoc]
      refine spanDigits_append hwhole.digits fun c hc => ?_
      cases hpointed with
      | none => exact (hrest.exponent hscaled c hc).1
      | point _ =>
        cases hc
        rfl
    unfold spanUnsigned?
    rcases hwhole.whole hplain with hfound | ⟨d, others, hfound⟩
    · rw [hfound] at hstart ⊢
      rw [hstart]
      simp [hbehind, hscale rest hrest]
    · rw [hfound] at hstart ⊢
      rw [hstart]
      simp [hbehind, hscale rest hrest]

theorem IsUnsigned.head {chars : List Char} (h : IsUnsigned chars) :
    ∃ c rest, chars = c :: rest ∧ ∃ d, digit? c = some d := by
  cases h with
  | mk hwhole _ _ _ =>
    obtain ⟨c, rest, rfl, hc⟩ := hwhole.head
    exact ⟨c, _, rfl, hc⟩

/-- A numeral is read to its end, and what is read does not depend on what stands behind. -/
theorem IsNumeral.spanNumeral? {chars : List Char} (h : IsNumeral chars) :
    ∃ numeral, ∀ rest, EndsNumeral rest → spanNumeral? (chars ++ rest) = some (numeral, rest) := by
  cases h with
  | positive hunsigned =>
    obtain ⟨whole, fraction, exponent, hread⟩ := spanUnsigned?_append hunsigned
    obtain ⟨c, others, rfl, d, hd⟩ := hunsigned.head
    refine ⟨_, fun rest hrest => Eq.trans ?_ (hread false rest hrest)⟩
    unfold Json.spanNumeral?
    split
    · next heq =>
      obtain ⟨rfl, -⟩ := List.cons.inj heq
      cases hd
    · rfl
  | negative hunsigned =>
    obtain ⟨whole, fraction, exponent, hread⟩ := spanUnsigned?_append hunsigned
    exact ⟨_, hread true⟩

/-! ## Writing a whole number -/

theorem digit?_of_isDigit {c : Char} (h : c.isDigit = true) : (digit? c).isSome = true := by
  have hrange : 0x30 ≤ c.toNat ∧ c.toNat ≤ 0x39 := by
    simpa [Char.isDigit, UInt32.le_iff_toNat_le] using h
  unfold digit?
  rw [if_pos hrange]
  rfl

theorem isDigits_digitsOf (n : Nat) : IsDigits (digitsOf n) where
  digits c hc := digit?_of_isDigit (Nat.isDigit_of_mem_toDigits (by omega) (by omega) hc)
  nonempty := Nat.toDigits_ne_nil

theorem head?_append_of_ne_nil {chars rest : List Char} (h : chars ≠ []) :
    (chars ++ rest).head? = chars.head? := by
  obtain ⟨c, chars, rfl⟩ := List.exists_cons_of_ne_nil h
  rfl

/-- No number but zero is written with a leading zero. -/
theorem head?_digitsOf {n : Nat} (h : 0 < n) : (digitsOf n).head? ≠ some '0' := by
  induction n using Nat.strongRecOn with
  | ind n ih =>
    unfold digitsOf at ih ⊢
    by_cases hsmall : n < 10
    · rw [Nat.toDigits_of_lt_base hsmall]
      have hall : ∀ n : Fin 10, 0 < n.val → some n.val.digitChar ≠ some '0' := by decide
      exact hall ⟨n, hsmall⟩ h
    · have hlarge : 10 ≤ n := Nat.not_lt.mp hsmall
      rw [Nat.toDigits_of_base_le (by omega) hlarge, head?_append_of_ne_nil Nat.toDigits_ne_nil]
      exact ih (n / 10) (by omega) (by omega)

theorem digitsOf_plain {n : Nat} (h : (digitsOf n).head? = some '0') : digitsOf n = ['0'] := by
  rcases Nat.eq_zero_or_pos n with rfl | hpos
  · rfl
  · exact absurd h (head?_digitsOf hpos)

theorem isUnsigned_digitsOf (n : Nat) : IsUnsigned (digitsOf n) := by
  simpa using IsUnsigned.mk (isDigits_digitsOf n) digitsOf_plain .none .none

/-- A whole number is written as a numeral. -/
theorem isNumeral_integerText (value : Int) : IsNumeral (integerText value) := by
  cases value with
  | ofNat n => exact .positive (isUnsigned_digitsOf n)
  | negSucc n => exact .negative (isUnsigned_digitsOf (n + 1))

theorem isExponent_integerText (value : Int) : IsExponent ('e' :: integerText value) := by
  cases value with
  | ofNat n => exact .positive (isDigits_digitsOf n)
  | negSucc n => exact .negative (isDigits_digitsOf (n + 1))

/-! ## Writing a double -/

theorem digit?_of_mem_zeros {c : Char} {count : Nat} (h : c ∈ List.replicate count '0') :
    (digit? c).isSome = true := by
  rw [List.eq_of_mem_replicate h]
  rfl

theorem IsDigits.behindZeros {chars : List Char} (h : IsDigits chars) (count : Nat) :
    IsDigits (List.replicate count '0' ++ chars) where
  digits c hc := (List.mem_append.mp hc).elim digit?_of_mem_zeros (h.digits c)
  nonempty hnil := h.nonempty (List.append_eq_nil_iff.mp hnil).2

theorem IsDigits.beforeZeros {chars : List Char} (h : IsDigits chars) (count : Nat) :
    IsDigits (chars ++ List.replicate count '0') where
  digits c hc := (List.mem_append.mp hc).elim (h.digits c) digit?_of_mem_zeros
  nonempty hnil := h.nonempty (List.append_eq_nil_iff.mp hnil).1

theorem IsDigits.take {chars : List Char} (h : IsDigits chars) {count : Nat} (hcount : 0 < count) :
    IsDigits (chars.take count) where
  digits c hc := h.digits c (List.mem_of_mem_take hc)
  nonempty hnil := by
    rcases List.take_eq_nil_iff.mp hnil with hzero | hchars
    · omega
    · exact h.nonempty hchars

theorem IsDigits.drop {chars : List Char} (h : IsDigits chars) {count : Nat}
    (hcount : count < chars.length) : IsDigits (chars.drop count) where
  digits c hc := h.digits c (List.mem_of_mem_drop hc)
  nonempty hnil := by
    have := List.drop_eq_nil_iff.mp hnil
    omega

end SdkMigration.Json

namespace SdkMigration.Double

/-- Zero does not read back as a number that is not. -/
theorem Neighbourhood.accepts_zero {near : Neighbourhood} (h : 0 < near.low) (exponent : Int) :
    near.accepts 0 exponent = false := by
  have hlow : 0 < scaledUp 2 near.low near.exponent * scaledDown 10 exponent :=
    Nat.mul_pos (Nat.mul_pos h (Nat.pow_pos (by omega))) (Nat.pow_pos (by omega))
  have hleft : scaledUp 10 0 exponent = 0 := Nat.zero_mul _
  unfold accepts
  simp only [hleft, Nat.zero_mul]
  split
  · rw [decide_eq_false (by omega), Bool.false_and]
  · rw [decide_eq_false (by omega), Bool.false_and]

theorem Neighbourhood.onGrid?_digits {near : Neighbourhood} (h : 0 < near.low) {exponent : Int}
    {decimal : Decimal} (hfound : near.onGrid? exponent = some decimal) : 0 < decimal.digits := by
  have htaken : ∀ (digits : Nat) (otherwise : Option Decimal),
      (if near.accepts digits exponent then some ⟨digits, exponent⟩ else otherwise) =
        some decimal → 0 < decimal.digits ∨ otherwise = some decimal := by
    intro digits otherwise htaken
    by_cases haccepts : near.accepts digits exponent = true
    · rw [if_pos haccepts] at htaken
      obtain rfl := Option.some.inj htaken
      left
      rcases Nat.eq_zero_or_pos digits with rfl | hpos
      · rw [accepts_zero h] at haccepts
        cases haccepts
      · exact hpos
    · rw [if_neg haccepts] at htaken
      exact Or.inr htaken
  rcases htaken _ _ hfound with hpos | hother
  · exact hpos
  rcases htaken _ none hother with hpos | hnone
  · exact hpos
  · cases hnone

/-- Zero is found only when nothing else is, and then without an exponent. -/
theorem Neighbourhood.search_digits {near : Neighbourhood} (h : 0 < near.low) (exponent : Int)
    (fuel : Nat) : near.search exponent fuel = ⟨0, 0⟩ ∨ 0 < (near.search exponent fuel).digits := by
  induction fuel generalizing exponent with
  | zero => exact Or.inl rfl
  | succ fuel ih =>
    unfold search
    cases hfound : near.onGrid? exponent with
    | none => exact ih (exponent - 1)
    | some decimal => exact Or.inr (onGrid?_digits h hfound)

theorem shortest_digits (d : Double) : d.shortest = ⟨0, 0⟩ ∨ 0 < d.shortest.digits := by
  unfold shortest
  split
  · exact Or.inl rfl
  · next hzero =>
    have hpositive : 0 < d.significand := by
      rw [isZero, beq_iff_eq] at hzero
      omega
    refine Neighbourhood.search_digits ?_ _ _
    simp only [neighbourhood]
    split
    · omega
    · omega

end SdkMigration.Double

namespace SdkMigration.Json

/-- A double without its sign is written as a numeral. -/
theorem isUnsigned_doubleBody (d : Double) : IsUnsigned (doubleBody d) := by
  have hzero : IsDigits ['0'] := isDigits_digitsOf 0
  have hpoint : IsFraction ['.', '0'] := .point hzero
  unfold doubleBody
  split
  · exact .mk hzero (fun _ => rfl) hpoint .none
  have hdigits := isDigits_digitsOf d.shortest.digits
  have hplain := digitsOf_plain (n := d.shortest.digits)
  have hleading := head?_digitsOf (n := d.shortest.digits)
  have hshortest := d.shortest_digits
  simp only
  generalize digitsOf d.shortest.digits = digits at hdigits hplain hleading ⊢
  split
  · -- A whole number that is not zero has no leading zero, and zero gets no zeros behind it.
    have hwhole : (digits ++ List.replicate d.shortest.exponent.toNat '0').head? = some '0' →
        digits ++ List.replicate d.shortest.exponent.toNat '0' = ['0'] := by
      intro hhead
      rw [head?_append_of_ne_nil hdigits.nonempty] at hhead
      rcases hshortest with hshortest | hpositive
      · rw [hplain hhead, hshortest]
        rfl
      · exact absurd hhead (hleading hpositive)
    simpa using IsUnsigned.mk (hdigits.beforeZeros _) hwhole hpoint .none
  split
  · next hlarge hinside =>
    have hcount : 0 < (Int.ofNat digits.length + d.shortest.exponent).toNat ∧
        (Int.ofNat digits.length + d.shortest.exponent).toNat < digits.length := by
      have hlength := Int.ofNat_eq_natCast digits.length
      omega
    generalize (Int.ofNat digits.length + d.shortest.exponent).toNat = count at hcount ⊢
    have hwhole : (digits.take count).head? = some '0' → digits.take count = ['0'] := by
      intro hhead
      rw [List.head?_take, if_neg (by omega)] at hhead
      rw [hplain hhead]
      exact List.take_of_length_le hcount.1
    simpa using IsUnsigned.mk (hdigits.take hcount.1) hwhole (.point (hdigits.drop hcount.2)) .none
  split
  · simpa using IsUnsigned.mk hzero (fun _ => rfl) (.point (hdigits.behindZeros _)) .none
  · have hexponent := isExponent_integerText (Int.ofNat digits.length + d.shortest.exponent - 1)
    obtain ⟨first, rest, rfl⟩ := List.exists_cons_of_ne_nil hdigits.nonempty
    have hfirst : IsDigits ((first :: rest).take 1) := hdigits.take (by omega)
    rw [List.take_succ_cons, List.take_zero] at hfirst
    have hwhole : [first].head? = some '0' → [first] = ['0'] := by
      intro hhead
      rw [Option.some.inj hhead]
    cases rest with
    | nil => simpa using IsUnsigned.mk hfirst hwhole .none hexponent
    | cons second rest =>
      have hbehind : IsDigits ((first :: second :: rest).drop 1) := hdigits.drop (by simp)
      simpa using IsUnsigned.mk hfirst hwhole (.point hbehind) hexponent

/-- A double is written as a numeral. -/
theorem isNumeral_doubleText (d : Double) : IsNumeral (doubleText d) := by
  unfold doubleText
  split
  · exact .negative (isUnsigned_doubleBody d)
  · exact .positive (isUnsigned_doubleBody d)

end SdkMigration.Json
