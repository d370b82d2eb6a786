import ActionTree.Text.Quoted
import Mathlib.Tactic.SplitIfs

/-!
# String literals read back

* `Text.unescape_flatMap_escape` - the inside of a literal denotes the text that was escaped;
* `Text.splitAtQuote` - the inside of a literal and what comes after its closing quote;
* `Text.splitAtQuote_flatMap_escape` - an escaped text has no closing quote of its own.
-/

namespace ActionTree.Text

/-- A control character is escaped by two digits, which spell its code. -/
theorem hexValue?_hexDigit {n : Nat} (h : n < 16) : hexValue? (hexDigit n) = some n := by
  have hall : ∀ n : Fin 16, hexValue? (hexDigit n.1) = some n.1 := by decide
  exact hall ⟨n, h⟩

/-- Digits are neither quotes nor backslashes. -/
theorem hexDigit_ne {n : Nat} (h : n < 16) : hexDigit n ≠ '"' ∧ hexDigit n ≠ '\\' := by
  have hall : ∀ n : Fin 16, hexDigit n.1 ≠ '"' ∧ hexDigit n.1 ≠ '\\' := by decide
  exact hall ⟨n, h⟩

/-- The three forms that a character has inside a literal. -/
theorem escape_cases (c : Char) :
    (∃ d, escape c = ['\\', d] ∧
        ∀ rest, unescape ('\\' :: d :: rest) = (unescape rest).map (c :: ·)) ∨
      (c.toNat < 0x20 ∧
        escape c = ['\\', 'x', hexDigit (c.toNat / 16), hexDigit (c.toNat % 16)]) ∨
      (escape c = [c] ∧ c ≠ '"' ∧ c ≠ '\\') := by
  unfold escape
  split_ifs with hquote hbackslash hnewline hreturn htab hback hfeed hcontrol
  · exact .inl ⟨_, rfl, fun rest => by rw [hquote, unescape]⟩
  · exact .inl ⟨_, rfl, fun rest => by rw [hbackslash, unescape]⟩
  · exact .inl ⟨_, rfl, fun rest => by rw [hnewline, unescape]⟩
  · exact .inl ⟨_, rfl, fun rest => by rw [hreturn, unescape]⟩
  · exact .inl ⟨_, rfl, fun rest => by rw [htab, unescape]⟩
  · exact .inl ⟨_, rfl, fun rest => by rw [hback, unescape]⟩
  · exact .inl ⟨_, rfl, fun rest => by rw [hfeed, unescape]⟩
  · exact .inr (.inl ⟨hcontrol, rfl⟩)
  · exact .inr (.inr ⟨rfl, hquote, hbackslash⟩)

/-! ### Reading escapes -/

/-- Escaped characters are read one after another. -/
theorem unescape_escape_append (c : Char) (rest : List Char) :
    unescape (escape c ++ rest) = (unescape rest).map (c :: ·) := by
  rcases escape_cases c with ⟨d, hform, hread⟩ | ⟨hcontrol, hform⟩ | ⟨hform, hquote, hbackslash⟩
  · rw [hform]
    exact hread rest
  · have hcode : 16 * (c.toNat / 16) + c.toNat % 16 = c.toNat := by omega
    rw [hform]
    simp only [List.cons_append, List.nil_append, unescape,
      hexValue?_hexDigit (show c.toNat / 16 < 16 by omega),
      hexValue?_hexDigit (show c.toNat % 16 < 16 by omega), hcode, Char.ofNat_toNat]
  · rw [hform, List.singleton_append, unescape] <;> simp_all

/-- The inside of a literal denotes the text that was escaped. -/
theorem unescape_flatMap_escape (cs : List Char) : unescape (cs.flatMap escape) = some cs := by
  induction cs with
  | nil => rfl
  | cons c cs ih => rw [List.flatMap_cons, unescape_escape_append, ih, Option.map_some]

/-! ### The end of a literal -/

/-- The text up to the first quote that is not escaped, and the text after that quote. -/
def splitAtQuote : List Char → Option (List Char × List Char)
  | [] => none
  | '"' :: rest => some ([], rest)
  | '\\' :: c :: rest => (splitAtQuote rest).map fun (inside, rest) => ('\\' :: c :: inside, rest)
  | c :: rest => (splitAtQuote rest).map fun (inside, rest) => (c :: inside, rest)

theorem splitAtQuote_cons {c : Char} (hquote : c ≠ '"') (hbackslash : c ≠ '\\')
    (rest : List Char) :
    splitAtQuote (c :: rest) =
      (splitAtQuote rest).map fun (inside, rest) => (c :: inside, rest) := by
  rw [splitAtQuote] <;> simp_all

/-- An escaped character does not end a literal. -/
theorem splitAtQuote_escape_append (c : Char) (rest : List Char) :
    splitAtQuote (escape c ++ rest) =
      (splitAtQuote rest).map fun (inside, rest) => (escape c ++ inside, rest) := by
  rcases escape_cases c with ⟨d, hform, -⟩ | ⟨hcontrol, hform⟩ | ⟨hform, hquote, hbackslash⟩
  · rw [hform]
    rfl
  · obtain ⟨hhigh, hhigh'⟩ := hexDigit_ne (show c.toNat / 16 < 16 by omega)
    obtain ⟨hlow, hlow'⟩ := hexDigit_ne (show c.toNat % 16 < 16 by omega)
    rw [hform]
    simp only [List.cons_append, List.nil_append, splitAtQuote, splitAtQuote_cons hhigh hhigh',
      splitAtQuote_cons hlow hlow', Option.map_map]
    rfl
  · rw [hform, List.singleton_append, splitAtQuote_cons hquote hbackslash]
    rfl

/-- The first quote after an escaped text is the one that closes the literal. -/
theorem splitAtQuote_flatMap_escape (cs rest : List Char) :
    splitAtQuote (cs.flatMap escape ++ '"' :: rest) = some (cs.flatMap escape, rest) := by
  induction cs with
  | nil => rfl
  | cons c cs ih =>
    rw [List.flatMap_cons, List.append_assoc, splitAtQuote_escape_append, ih, Option.map_some]

end ActionTree.Text
