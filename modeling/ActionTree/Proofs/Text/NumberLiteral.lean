import ActionTree.Proofs.Decimal.ReadBack
import ActionTree.Proofs.Text.NumericString

/-!
# Number literals are read back

The literal of a number is the text of a numeral or the name of an infinity, perhaps with a minus,
and the number of such a text is the number written.

* `stringToNumber_unsigned` - a text without sign and mark is read as a whole;
* `stringToNumber_text` - the text of a numeral is read as the numeral's value;
* `stringToNumber_numberLiteral` - every number is the number of its literal.
-/

namespace ActionTree

/-! ### Texts of visible characters -/

/-- There is nothing to trim of a text without blanks. -/
theorem trim_of_isInk {cs : List Char} (h : ∀ c ∈ cs, IsInk c) : Text.trim cs = cs := by
  have hnone : ∀ c ∈ ([] : List Char), Text.isBlank c = true := fun _ hc => nomatch hc
  have hink : ∀ c ∈ cs, Text.isBlank c = false := fun c hc => not_isBlank_of_isInk c (h c hc)
  have hstrip := strip_append hnone hink hnone
  rwa [List.nil_append, List.append_nil] at hstrip

theorem Numeral.isInk_text {n : Numeral} (h : n.IsWellFormed) : ∀ c ∈ n.text, IsInk c := by
  intro c hc
  rcases mem_text h hc with hdigit | hmark
  · exact isInk_of_isDigit hdigit
  · exact isInk_of_mem (by decide) hmark

/-! ### Numerals -/

/-- A text without sign and mark is read as a whole. -/
theorem stringToNumber_unsigned {s : String} (h : IsUnsignedNumber (Text.trim s.toList)) :
    stringToNumber s = unsignedToNumber (Text.trim s.toList) := by
  rw [stringToNumber]
  split
  · rename_i hempty
    rw [hempty] at h
    exact absurd ((isNaN_unsignedToNumber []).2 h) (by decide)
  · rename_i hex hcs
    rw [hcs] at h
    exact absurd h (IsUnsignedNumber.not_mark (.inl rfl))
  · rename_i hex hcs
    rw [hcs] at h
    exact absurd h (IsUnsignedNumber.not_mark (.inr rfl))
  · rename_i rest hcs
    rw [hcs] at h
    exact absurd rfl h.ne_sign.1
  · rename_i rest hcs
    rw [hcs] at h
    exact absurd rfl h.ne_sign.2
  · rfl

/-- A numeral without its sign is a number and is read as its magnitude. -/
theorem unsignedToNumber_unsignedText {n : Numeral} (h : n.IsWellFormed) :
    IsUnsignedNumber n.unsignedText ∧
      unsignedToNumber n.unsignedText = n.toDecimal.toDouble false := by
  have hread := Numeral.read?_unsignedText h
  obtain ⟨c, cs, htext, hc⟩ := Numeral.head?_unsignedText h
  have hinfinity : n.unsignedText ≠ "Infinity".toList := by
    rw [htext]
    rintro ⟨⟩
    cases hc
  refine ⟨.decimal ((Numeral.isSome_read? _).1 (by rw [hread]; rfl)), ?_⟩
  rw [unsignedToNumber, if_neg hinfinity, hread]
  rfl

/-- The text of a numeral is read as the numeral's value. -/
theorem stringToNumber_text {n : Numeral} (h : n.IsWellFormed) :
    stringToNumber (String.ofList n.text) = n.toDouble := by
  have htrim : Text.trim (String.ofList n.text).toList = n.text := by
    rw [String.toList_ofList, trim_of_isInk (Numeral.isInk_text h)]
  obtain ⟨hnumber, hvalue⟩ := unsignedToNumber_unsignedText h
  rw [Numeral.toDouble]
  cases hsign : n.negative with
  | true =>
    have htext : n.text = '-' :: n.unsignedText := if_pos hsign
    rw [stringToNumber, htrim, htext]
    show (unsignedToNumber n.unsignedText).neg = n.toDecimal.toDouble true
    rw [hvalue, Decimal.neg_toDouble]
    rfl
  | false =>
    have htext : n.text = n.unsignedText := if_neg (by rw [hsign]; decide)
    rw [htext] at htrim
    rw [htext, stringToNumber_unsigned (by rw [htrim]; exact hnumber), htrim, hvalue]

/-! ### Literals -/

/-- **Number literals are read back.**  The number of a number's literal is this number: the same
finite double with the same sign, the same infinity, or NaN. -/
theorem stringToNumber_numberLiteral (x : Double) : stringToNumber (numberLiteral x) = x := by
  cases x with
  | nan => decide +kernel
  | infinite s => cases s <;> decide +kernel
  | finite s r =>
    have hform : (numberStyle.numeral s r).IsWellFormed :=
      NumberStyle.isWellFormed_numeral (by rintro _ ⟨⟩) s r
    have hvalue : (numberStyle.numeral s r).toDouble = .finite s r :=
      NumberStyle.toDouble_numeral rfl s r
    rw [numberLiteral, NumberStyle.write, stringToNumber_text hform, hvalue]

/-- The literals of negative zero, of the least double above zero and of the least finite one. -/
example : numberLiteral (.zero true) = "-0" ∧
    numberLiteral (.finite false ⟨1, by decide⟩) = "5e-324" ∧
      numberLiteral (.finite true ⟨2047 * 2 ^ 52 - 1, by decide⟩) = "-1.7976931348623157e+308" := by
  decide +kernel

end ActionTree
