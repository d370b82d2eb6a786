import ActionTree.Json.Number
import ActionTree.Json.Token
import ActionTree.Proofs.Decimal.Numeral

/-!
# Numerals are read back from JSON

JSON can hold the well formed numerals.

* `Json.numeral?_text`, `Json.wordToken?_text` - these are read back as they were written;
* `Json.isWellFormed_toDigits`, `Json.isWellFormed_numeral` - integers and finite doubles have such
  numerals in JSON.
-/

namespace ActionTree.Json

open Numeral (IsWellFormed read?_unsignedText head?_unsignedText text_ne)

/-- A numeral is read back. -/
theorem numeral?_text {n : Numeral} (h : n.IsWellFormed) : numeral? n.text = some n := by
  have hfraction : n.fraction ≠ some [] := fun hf => (h.fraction [] hf).1 rfl
  obtain ⟨c, cs, htext, hc⟩ := head?_unsignedText h
  have hminus : c ≠ '-' := by
    rintro rfl
    cases hc
  have hread := read?_unsignedText h
  have hleading := h.leading
  have hne := h.whole.1
  obtain ⟨negative, whole, fraction, exponent⟩ := n
  cases negative with
  | true =>
    rw [Numeral.text, if_pos rfl, numeral?]
    rw [hread]
    simpa [hne, hfraction] using hleading
  | false =>
    rw [htext] at hread
    rw [Numeral.text, if_neg Bool.false_ne_true, htext, numeral?]
    · rw [hread]
      simpa [hne, hfraction] using hleading
    · rintro rest ⟨⟩
      exact hminus rfl

/-- The word of a numeral is its token. -/
theorem wordToken?_text {n : Numeral} (h : n.IsWellFormed) :
    wordToken? n.text = some (.number n) := by
  have hnull : n.text ≠ "null".toList := text_ne h (by decide) (by decide)
  have htrue : n.text ≠ "true".toList := text_ne h (by decide) (by decide)
  have hfalse : n.text ≠ "false".toList := text_ne h (by decide) (by decide)
  rw [wordToken?, if_neg hnull, if_neg htrue, if_neg hfalse, numeral?_text h]
  rfl

/-! ### The numerals of numbers -/

/-- Integers are written without point and exponent. -/
theorem isWellFormed_toDigits (negative : Bool) (n : Nat) :
    IsWellFormed ⟨negative, Nat.toDigits 10 n, none, none⟩ where
  whole := isDigits_toDigits n
  leading := by
    intro h
    by_cases hn : n = 0
    · rw [hn]
      rfl
    · exact absurd h (head?_toDigits hn)
  fraction := by
    rintro ds ⟨⟩
  exponent := by
    rintro minus ds ⟨⟩

/-- Every finite double has a numeral that JSON can hold. -/
theorem isWellFormed_numeral (negative : Bool) (r : Nat) :
    (numberStyle.numeral negative r).IsWellFormed :=
  NumberStyle.isWellFormed_numeral (by rintro _ ⟨⟩; exact isDigits_zero) negative r

end ActionTree.Json
