import ActionTree.Decimal.Layout
import ActionTree.Proofs.Decimal.Shortest
import Mathlib.Data.List.Basic
import Mathlib.Tactic.SplitIfs

/-!
# Numerals are read back

A numeral is well formed when it has digits on both sides of its point and in its exponent, and no
zero before other digits.

* `IsDigits` - digits only, and at least one;
* `Numeral.digitsValue_toDigits` - the digits of a number spell it;
* `Numeral.IsWellFormed` - the well formed numerals;
* `Numeral.read?_unsignedText` - they are read back as they were written;
* `NumberStyle.isWellFormed_numeral` - finite doubles have such numerals in most styles.
-/

namespace ActionTree

/-! ### Digits -/

/-- Digits only, and at least one. -/
def IsDigits (cs : List Char) : Prop := cs ≠ [] ∧ ∀ c ∈ cs, c.isDigit = true

theorem ne_of_isDigit {c d : Char} (hc : c.isDigit = true) (hd : d.isDigit = false) : c ≠ d := by
  rintro rfl
  exact Bool.noConfusion (hd.symm.trans hc)

theorem isDigits_toDigits (n : Nat) : IsDigits (Nat.toDigits 10 n) :=
  ⟨Nat.toDigits_ne_nil, fun _ hc => Nat.isDigit_of_mem_toDigits (by decide) (by decide) hc⟩

theorem isDigits_zero : IsDigits ['0'] := ⟨List.cons_ne_nil _ _, List.forall_mem_singleton.2 rfl⟩

theorem IsDigits.append_left {cs ds : List Char} (h : IsDigits ds)
    (hcs : ∀ c ∈ cs, c.isDigit = true) : IsDigits (cs ++ ds) := by
  refine ⟨by simp [h.1], fun c hc => ?_⟩
  rcases List.mem_append.1 hc with hc | hc
  · exact hcs c hc
  · exact h.2 c hc

theorem IsDigits.append_right {cs ds : List Char} (h : IsDigits cs)
    (hds : ∀ c ∈ ds, c.isDigit = true) : IsDigits (cs ++ ds) := by
  refine ⟨by simp [h.1], fun c hc => ?_⟩
  rcases List.mem_append.1 hc with hc | hc
  · exact h.2 c hc
  · exact hds c hc

theorem IsDigits.take {cs : List Char} (h : IsDigits cs) {n : Nat} (hn : 0 < n) :
    IsDigits (cs.take n) := by
  refine ⟨?_, fun c hc => h.2 c (List.mem_of_mem_take hc)⟩
  rw [ne_eq, List.take_eq_nil_iff]
  rintro (h0 | hnil)
  · omega
  · exact h.1 hnil

theorem IsDigits.drop {cs : List Char} (h : IsDigits cs) {n : Nat} (hn : n < cs.length) :
    IsDigits (cs.drop n) := by
  refine ⟨?_, fun c hc => h.2 c (List.mem_of_mem_drop hc)⟩
  rw [ne_eq, List.drop_eq_nil_iff]
  omega

theorem isDigit_of_mem_replicate {n : Nat} {c : Char} (h : c ∈ List.replicate n '0') :
    c.isDigit = true := by
  rw [List.eq_of_mem_replicate h]
  rfl

/-- The digits of a number begin with zero only for zero. -/
theorem head?_toDigits {n : Nat} (hn : n ≠ 0) : (Nat.toDigits 10 n).head? ≠ some '0' := by
  induction n using Nat.strongRecOn with
  | _ n ih =>
    by_cases hlt : n < 10
    · rw [Nat.toDigits_of_lt_base hlt]
      have hall : ∀ d : Fin 10, d.1 ≠ 0 → [Nat.digitChar d.1].head? ≠ some '0' := by decide
      exact hall ⟨n, hlt⟩ hn
    · rw [Nat.toDigits_of_base_le (by decide) (by omega), List.head?_append_of_ne_nil _
        Nat.toDigits_ne_nil]
      exact ih (n / 10) (by omega) (by omega)

/-- Digits are taken up to the first other character. -/
theorem takeWhile_isDigit {ds rest : List Char} (hds : ∀ c ∈ ds, c.isDigit = true)
    (hrest : ∀ c, rest.head? = some c → c.isDigit = false) :
    (ds ++ rest).takeWhile Char.isDigit = ds ∧ (ds ++ rest).dropWhile Char.isDigit = rest := by
  rw [List.takeWhile_append_of_pos hds, List.dropWhile_append_of_pos hds]
  cases rest with
  | nil => simp
  | cons c rest =>
    have hc : c.isDigit = false := hrest c rfl
    rw [List.takeWhile_cons_of_neg (by simp [hc]), List.dropWhile_cons_of_neg (by simp [hc]),
      List.append_nil]
    exact ⟨rfl, rfl⟩

namespace Numeral

/-! ### Values of digits -/

theorem digitsValue_eq_ofDigitChars (start : Nat) (cs : List Char) :
    digitsValue start cs = Nat.ofDigitChars 10 cs start := by
  induction cs generalizing start with
  | nil => rfl
  | cons c cs ih =>
    rw [Nat.ofDigitChars_cons, Nat.mul_comm, ← ih]
    rfl

/-- The digits of a number spell it. -/
theorem digitsValue_toDigits (n : Nat) : digitsValue 0 (Nat.toDigits 10 n) = n := by
  rw [digitsValue_eq_ofDigitChars, Nat.ofDigitChars_toDigits (by decide) (by decide)]

theorem le_digitsValue (start : Nat) (cs : List Char) : start ≤ digitsValue start cs := by
  induction cs generalizing start with
  | nil => exact Nat.le_refl start
  | cons c cs ih =>
    have hle : start * 10 + digitValue c ≤ digitsValue start (c :: cs) := ih _
    omega

/-! ### Written and read -/

/-- Digits on both sides of a point and in an exponent, and no zero before other digits. -/
structure IsWellFormed (n : Numeral) : Prop where
  whole : IsDigits n.whole
  leading : n.whole.head? = some '0' → n.whole.length = 1
  fraction : ∀ ds, n.fraction = some ds → IsDigits ds
  exponent : ∀ minus ds, n.exponent = some (minus, ds) → IsDigits ds

theorem IsWellFormed.withSign {n : Numeral} (h : n.IsWellFormed) (negative : Bool) :
    IsWellFormed { n with negative } :=
  ⟨h.whole, h.leading, h.fraction, h.exponent⟩

/-- The point, the exponent and the end of a numeral are no digits. -/
theorem head?_exponentText {e : Option (Bool × List Char)} {c : Char}
    (h : (exponentText e).head? = some c) : c = 'e' := by
  cases e with
  | none => cases h
  | some e =>
    cases h
    rfl

theorem head?_fractionText {f : Option (List Char)} {e : Option (Bool × List Char)} {c : Char}
    (h : (fractionText f ++ exponentText e).head? = some c) : c = '.' ∨ c = 'e' := by
  cases f with
  | none => exact .inr (head?_exponentText h)
  | some ds =>
    cases h
    exact .inl rfl

theorem readExponent?_exponentText {e : Option (Bool × List Char)}
    (h : ∀ minus ds, e = some (minus, ds) → IsDigits ds) :
    readExponent? (exponentText e) = some e := by
  cases e with
  | none => rfl
  | some e =>
    obtain ⟨minus, ds⟩ := e
    obtain ⟨hne, hds⟩ := h minus ds rfl
    cases minus <;> simpa [exponentText, readExponent?, hne] using hds

theorem readFraction_fractionText {f : Option (List Char)} (e : Option (Bool × List Char))
    (h : ∀ ds, f = some ds → IsDigits ds) :
    readFraction (fractionText f ++ exponentText e) = (f, exponentText e) := by
  cases f with
  | none =>
    cases e with
    | none => rfl
    | some e => rfl
  | some ds =>
    have hrest : ∀ c, (exponentText e).head? = some c → c.isDigit = false := by
      intro c hc
      rw [head?_exponentText hc]
      rfl
    obtain ⟨htake, hdrop⟩ := takeWhile_isDigit (h ds rfl).2 hrest
    show (some ((ds ++ exponentText e).takeWhile Char.isDigit),
      (ds ++ exponentText e).dropWhile Char.isDigit) = _
    rw [htake, hdrop]

/-- A numeral without its sign is read back. -/
theorem read?_unsignedText {n : Numeral} (h : n.IsWellFormed) :
    read? n.unsignedText = some { n with negative := false } := by
  have hrest : ∀ c, (fractionText n.fraction ++ exponentText n.exponent).head? = some c →
      c.isDigit = false := by
    intro c hc
    rcases head?_fractionText hc with rfl | rfl <;> rfl
  obtain ⟨htake, hdrop⟩ := takeWhile_isDigit h.whole.2 hrest
  rw [read?, unsignedText, List.append_assoc, htake, hdrop, readFraction_fractionText _ h.fraction]
  simp [h.whole.1, readExponent?_exponentText h.exponent]

/-- A numeral without its sign begins with a digit. -/
theorem head?_unsignedText {n : Numeral} (h : n.IsWellFormed) :
    ∃ c cs, n.unsignedText = c :: cs ∧ c.isDigit = true := by
  obtain ⟨hne, hdigits⟩ := h.whole
  cases hwhole : n.whole with
  | nil => exact absurd hwhole hne
  | cons c cs =>
    refine ⟨c, cs ++ fractionText n.fraction ++ exponentText n.exponent, ?_, ?_⟩
    · rw [unsignedText, hwhole]
      rfl
    · exact hdigits c (by rw [hwhole]; exact List.mem_cons_self)

/-- A numeral is written with digits and a few other characters. -/
theorem mem_text {n : Numeral} (h : n.IsWellFormed) {c : Char} (hc : c ∈ n.text) :
    c.isDigit = true ∨ c ∈ ['-', '+', '.', 'e'] := by
  have hfraction : c ∈ fractionText n.fraction → c.isDigit = true ∨ c ∈ ['-', '+', '.', 'e'] := by
    cases hf : n.fraction with
    | none => rintro ⟨⟩
    | some ds =>
      intro hc
      rcases List.mem_cons.1 hc with rfl | hc
      · exact .inr (by decide)
      · exact .inl ((h.fraction ds hf).2 c hc)
  have hexponent : c ∈ exponentText n.exponent → c.isDigit = true ∨ c ∈ ['-', '+', '.', 'e'] := by
    cases he : n.exponent with
    | none => rintro ⟨⟩
    | some e =>
      obtain ⟨minus, ds⟩ := e
      intro hc
      rcases List.mem_cons.1 hc with rfl | hc
      · exact .inr (by decide)
      · rcases List.mem_cons.1 hc with rfl | hc
        · cases minus <;> exact .inr (by decide)
        · exact .inl ((h.exponent minus ds he).2 c hc)
  have hunsigned : c ∈ n.unsignedText → c.isDigit = true ∨ c ∈ ['-', '+', '.', 'e'] := by
    rw [unsignedText, List.mem_append, List.mem_append]
    rintro ((hc | hc) | hc)
    · exact .inl (h.whole.2 c hc)
    · exact hfraction hc
    · exact hexponent hc
  rw [text] at hc
  split at hc
  · rcases List.mem_cons.1 hc with rfl | hc
    · exact .inr (by decide)
    · exact hunsigned hc
  · exact hunsigned hc

/-- No numeral is a word of letters. -/
theorem text_ne {n : Numeral} (h : n.IsWellFormed) {c : Char} {cs : List Char}
    (hdigit : c.isDigit = false) (hminus : c ≠ '-') : n.text ≠ c :: cs := by
  obtain ⟨d, ds, htext, hd⟩ := head?_unsignedText h
  rw [text, htext]
  split
  · rintro ⟨⟩
    exact hminus rfl
  · rintro ⟨⟩
    rw [hdigit] at hd
    cases hd

/-! ### The numerals of doubles -/

theorem isWellFormed_positional {integral : Option (List Char)}
    (hintegral : ∀ fs, integral = some fs → IsDigits fs) {ds : List Char} (hds : IsDigits ds)
    (hhead : ds.head? ≠ some '0') (n : Int) : IsWellFormed (.positional integral ds n) := by
  rw [Numeral.positional]
  split_ifs with hpoint hlength
  · -- the point stands before the digits
    refine ⟨isDigits_zero, fun _ => rfl, ?_, ?_⟩
    · rintro _ ⟨⟩
      exact hds.append_left fun c => isDigit_of_mem_replicate
    · rintro _ _ ⟨⟩
  · -- the point stands behind them
    refine ⟨hds.append_right fun c => isDigit_of_mem_replicate, ?_, hintegral, ?_⟩
    · intro h
      rw [List.head?_append_of_ne_nil _ hds.1] at h
      exact absurd h hhead
    · rintro _ _ ⟨⟩
  · -- the point stands between them
    have hpos : 0 < n.toNat := by omega
    refine ⟨hds.take hpos, ?_, ?_, ?_⟩
    · intro h
      rw [List.head?_take, if_neg (by omega)] at h
      exact absurd h hhead
    · rintro _ ⟨⟩
      exact hds.drop (by omega)
    · rintro _ _ ⟨⟩

theorem isWellFormed_scientific {ds : List Char} (hds : IsDigits ds) (n : Int) :
    IsWellFormed (.scientific ds n) := by
  rw [Numeral.scientific]
  have hlength : 0 < ds.length := List.length_pos_iff.2 hds.1
  refine ⟨hds.take (by decide), ?_, ?_, ?_⟩
  · intro _
    rw [List.length_take]
    omega
  · intro fraction h
    dsimp only at h
    split_ifs at h with hone
    cases h
    exact hds.drop (by omega)
  · rintro _ _ ⟨⟩
    exact isDigits_toDigits _

end Numeral

namespace NumberStyle

/-- The numeral of a finite double, in a style where integers get a fraction of digits or none. -/
theorem isWellFormed_numeral {style : NumberStyle}
    (hintegral : ∀ fs, style.integral = some fs → IsDigits fs) (negative : Bool) (r : Nat) :
    (style.numeral negative r).IsWellFormed := by
  rw [numeral]
  refine Numeral.IsWellFormed.withSign ?_ negative
  by_cases hr : r = 0
  · rw [digits, if_pos hr, place]
    split_ifs
    · exact ⟨isDigits_zero, fun _ => rfl, hintegral, fun _ _ h => nomatch h⟩
    · exact Numeral.isWellFormed_scientific isDigits_zero _
  · rw [digits, if_neg hr, place]
    have hds := isDigits_toDigits (Decimal.shortest style.tie r).coefficient
    have hhead := head?_toDigits (Decimal.coefficient_shortest style.tie hr)
    split_ifs
    · exact Numeral.isWellFormed_positional hintegral hds hhead _
    · exact Numeral.isWellFormed_scientific hds _

end NumberStyle

end ActionTree
