import SdkMigration.Json.Reader
import SdkMigration.Json.Writer

/-!
# Strings that are written are read back

Inside quotation marks every character is written so that it is read as itself, whatever
stands behind it.
-/

namespace SdkMigration.Json

theorem hexFour?_control {n : Nat} (h : n < 0x20) :
    hexFour? '0' '0' (hexChar (n / 16)) (hexChar (n % 16)) = some n := by
  have hall : ∀ n : Fin 0x20,
      hexFour? '0' '0' (hexChar (n.val / 16)) (hexChar (n.val % 16)) = some n.val := by
    decide
  exact hall ⟨n, h⟩

theorem spanString?_simpleEscape {e c : Char} (he : e ≠ 'u') (hc : simpleEscape? e = some c)
    (quoted : Quoted) (rest : List Char) :
    spanString? quoted ('\\' :: e :: rest) = spanString? (quoted.push c) rest := by
  rw [spanString?]
  · rw [hc]
  · intro a b c d rest hu
    exact absurd hu he

theorem spanString?_control {n : Nat} (h : n < 0x20) (quoted : Quoted) (rest : List Char) :
    spanString? quoted
        (['\\', 'u', '0', '0', hexChar (n / 16), hexChar (n % 16)] ++ rest) =
      spanString? (quoted.push (Char.ofNat n)) rest := by
  have hhalves : isFirstHalf n = false ∧ isSecondHalf n = false := by
    simp only [isFirstHalf, isSecondHalf, Bool.and_eq_false_iff, decide_eq_false_iff_not]
    omega
  have hpush : quoted.pushUnit n = quoted.push (Char.ofNat n) := by
    unfold Quoted.pushUnit
    simp [hhalves]
  simp only [List.cons_append, List.nil_append]
  rw [spanString?, hexFour?_control h]
  simp only [hpush]

theorem spanString?_plain {c : Char} (hquote : c ≠ '"') (hslash : c ≠ '\\') (hc : 0x20 ≤ c.toNat)
    (quoted : Quoted) (rest : List Char) :
    spanString? quoted (c :: rest) = spanString? (quoted.push c) rest := by
  rw [spanString?]
  · rw [if_neg]
    simp only [Bool.or_eq_true, beq_iff_eq, decide_eq_true_eq]
    rintro (h | h)
    · exact hslash h
    · omega
  · exact hquote
  · intro a b c d rest h
    exact absurd h hslash
  · intro e rest h
    exact absurd h hslash

/-- A character that is written is read as itself. -/
theorem spanString?_escapedChar (quoted : Quoted) (c : Char) (rest : List Char) :
    spanString? quoted (escapedChar c ++ rest) = spanString? (quoted.push c) rest := by
  have hescape : ∀ {n : Nat} {e : Char}, c.toNat = n → e ≠ 'u' →
      simpleEscape? e = some (Char.ofNat n) →
      spanString? quoted (['\\', e] ++ rest) = spanString? (quoted.push c) rest := by
    intro n e hn he hsimple
    rw [← Char.ofNat_toNat c, hn]
    exact spanString?_simpleEscape he hsimple quoted rest
  unfold escapedChar
  split
  · next h =>
    subst h
    exact spanString?_simpleEscape (by decide) rfl quoted rest
  split
  · next h =>
    subst h
    exact spanString?_simpleEscape (by decide) rfl quoted rest
  split
  · next h => exact hescape h (by decide) rfl
  split
  · next h => exact hescape h (by decide) rfl
  split
  · next h => exact hescape h (by decide) rfl
  split
  · next h => exact hescape h (by decide) rfl
  split
  · next h => exact hescape h (by decide) rfl
  split
  · next h => rw [spanString?_control h, Char.ofNat_toNat]
  · next hquote hslash _ _ _ _ _ h =>
    exact spanString?_plain hquote hslash (Nat.not_lt.mp h) quoted rest

/-- A string that is written is read back. -/
theorem spanString?_quotedString (s : String) (rest : List Char) :
    spanString? {} (s.toList.flatMap escapedChar ++ '"' :: rest) = some (some s, rest) := by
  have hrun : ∀ known chars : List Char,
      spanString? ⟨known, none, false⟩ (chars.flatMap escapedChar ++ '"' :: rest) =
        some (some (String.ofList (known.reverse ++ chars)), rest) := by
    intro known chars
    induction chars generalizing known with
    | nil => simp [spanString?, Quoted.string?]
    | cons c chars ih =>
      rw [List.flatMap_cons, List.append_assoc, spanString?_escapedChar]
      exact (ih (c :: known)).trans (by simp)
  simpa using hrun [] s.toList

end SdkMigration.Json
