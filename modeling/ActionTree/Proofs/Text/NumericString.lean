import ActionTree.Proofs.Decimal.Grammar
import ActionTree.Proofs.Decimal.Rounding
import ActionTree.Proofs.Text.Blank
import ActionTree.Value.Coercion

/-!
# Strings that spell numbers

The number of a string is not NaN when the string spells a number: between blanks it is empty, a
numeral or `Infinity` with an optional sign, or digits to the base 16 after `0x`.

* `SpellsNumber` - the grammar between the blanks;
* `isNaN_stringToNumber_trim` - the number of a string is not NaN just for the grammar;
* `spellsNumber_strip_iff` - the blanks around a number;
* `isNaN_stringToNumber` - what this says in terms of the blanks of ECMAScript.
-/

namespace ActionTree

/-! ### The grammar -/

/-- A numeral or an infinity without a sign. -/
inductive IsUnsignedNumber : List Char → Prop
  | infinity : IsUnsignedNumber "Infinity".toList
  | decimal {cs : List Char} (hcs : IsDecimal cs) : IsUnsignedNumber cs

/-- A digit to the base 16. -/
def IsHexDigit (c : Char) : Prop :=
  ('0' ≤ c ∧ c ≤ '9') ∨ ('a' ≤ c ∧ c ≤ 'f') ∨ ('A' ≤ c ∧ c ≤ 'F')

/-- A text without blanks around it that spells a number. -/
inductive SpellsNumber : List Char → Prop
  | empty : SpellsNumber []
  | signed {sign cs : List Char} (hsign : IsSign sign) (hcs : IsUnsignedNumber cs) :
      SpellsNumber (sign ++ cs)
  | hexadecimal {mark : Char} {ds : List Char} (hmark : mark = 'x' ∨ mark = 'X') (hne : ds ≠ [])
      (hds : ∀ c ∈ ds, IsHexDigit c) : SpellsNumber ('0' :: mark :: ds)

/-! ### Arithmetic without NaN -/

namespace Double

theorem isNaN_round (s : Bool) (num den : Nat) : (round s num den).isNaN = false := by
  unfold round
  split_ifs <;> rfl

theorem isNaN_neg (x : Double) : x.neg.isNaN = x.isNaN := by
  cases x <;> rfl

theorem exists_ofNat {n : Nat} (h : n < 2 ^ 53) :
    ∃ r : Fin rankLimit, ofNat n = .finite false r ∧ rankUnits r = n * one := by
  obtain ⟨r, hr⟩ := exists_rank h
  exact ⟨r, by rw [ofNat, ← hr, round_rankUnits], hr⟩

/-- A sum is NaN only for a NaN or for two infinities. -/
theorem isNaN_add_finite {x : Double} (hx : x.isNaN = false) (s : Bool) (r : Fin rankLimit) :
    (x.add (.finite s r)).isNaN = false := by
  cases x with
  | nan => cases hx
  | infinite s' => rfl
  | finite s' r' =>
    rw [add]
    split_ifs
    · rfl
    · exact isNaN_round ..

/-- A product is NaN only for a NaN or for zero times infinity. -/
theorem isNaN_mul_finite {x : Double} (hx : x.isNaN = false) (s : Bool) {r : Fin rankLimit}
    (hr : r.val ≠ 0) : (x.mul (.finite s r)).isNaN = false := by
  cases x with
  | nan => cases hx
  | infinite s' =>
    rw [mul, if_neg hr]
    rfl
  | finite s' r' => exact isNaN_round ..

end Double

/-! ### Digits to the base 16 -/

theorem isSome_hexValue? (c : Char) : (Text.hexValue? c).isSome = true ↔ IsHexDigit c := by
  unfold Text.hexValue? IsHexDigit
  split_ifs <;> simp_all

theorem hexValue?_lt {c : Char} {d : Nat} (h : Text.hexValue? c = some d) : d < 2 ^ 53 := by
  have hc : c.toNat < 2 ^ 32 := c.val.toNat_lt
  unfold Text.hexValue? at h
  split_ifs at h <;> · cases h; omega

/-- One more digit leaves no NaN. -/
theorem isNaN_hexStep {x : Double} (hx : x.isNaN = false) {d : Nat} (hd : d < 2 ^ 53) :
    (hexStep x d).isNaN = false := by
  obtain ⟨sixteen, hsixteen, hunits⟩ := Double.exists_ofNat (show 16 < 2 ^ 53 by decide)
  obtain ⟨r, hr, -⟩ := Double.exists_ofNat hd
  have hne : sixteen.val ≠ 0 := by
    intro hzero
    rw [hzero] at hunits
    have hpos := Double.one_pos
    have hnone : Double.rankUnits 0 = 0 := rfl
    omega
  rw [hexStep, hsixteen, hr]
  exact Double.isNaN_add_finite (Double.isNaN_mul_finite hx false hne) false r

/-- Digits have values, and accumulating these leaves no NaN. -/
theorem mapM_hexValue? {cs : List Char} (h : ∀ c ∈ cs, IsHexDigit c) {x : Double}
    (hx : x.isNaN = false) :
    ∃ ds, cs.mapM Text.hexValue? = some ds ∧ (ds.foldl hexStep x).isNaN = false := by
  induction cs generalizing x with
  | nil => exact ⟨[], rfl, hx⟩
  | cons c cs ih =>
    obtain ⟨hc, hcs⟩ := List.forall_mem_cons.1 h
    obtain ⟨d, hd⟩ := Option.isSome_iff_exists.1 ((isSome_hexValue? c).2 hc)
    obtain ⟨ds, hds, hnumber⟩ := ih hcs (isNaN_hexStep hx (hexValue?_lt hd))
    exact ⟨d :: ds, by rw [List.mapM_cons, hd, hds]; rfl, hnumber⟩

theorem isHexDigit_of_mapM {cs : List Char} {ds : List Nat}
    (h : cs.mapM Text.hexValue? = some ds) : ∀ c ∈ cs, IsHexDigit c := by
  induction cs generalizing ds with
  | nil => exact fun c hc => (nomatch hc)
  | cons c cs ih =>
    rw [List.mapM_cons] at h
    obtain ⟨d, hd, h⟩ := Option.bind_eq_some_iff.1 h
    obtain ⟨rest, hrest, -⟩ := Option.bind_eq_some_iff.1 h
    exact List.forall_mem_cons.2 ⟨(isSome_hexValue? c).1 (by rw [hd]; rfl), ih hrest⟩

theorem isNaN_hexToNumber (cs : List Char) :
    (hexToNumber cs).isNaN = false ↔ cs ≠ [] ∧ ∀ c ∈ cs, IsHexDigit c := by
  rw [hexToNumber]
  constructor
  · intro h
    split at h
    · cases h
    · rename_i hne
      split at h
      · rename_i ds hds
        exact ⟨fun hnil => hne (by rw [hnil]; rfl), isHexDigit_of_mapM hds⟩
      · cases h
  · rintro ⟨hne, hcs⟩
    obtain ⟨ds, hds, hnumber⟩ := mapM_hexValue? hcs (x := .zero false) rfl
    rw [if_neg (by simpa using hne), hds]
    exact hnumber

/-! ### Signed numbers -/

theorem isNaN_toDouble (n : Numeral) : n.toDouble.isNaN = false := by
  rw [Numeral.toDouble, Decimal.toDouble_eq_round]
  exact Double.isNaN_round ..

theorem isNaN_unsignedToNumber (cs : List Char) :
    (unsignedToNumber cs).isNaN = false ↔ IsUnsignedNumber cs := by
  rw [unsignedToNumber]
  split_ifs with hinfinity
  · rw [hinfinity]
    exact ⟨fun _ => .infinity, fun _ => rfl⟩
  · have hdecimal : IsUnsignedNumber cs ↔ IsDecimal cs := by
      refine ⟨fun h => ?_, .decimal⟩
      cases h with
      | infinity => exact absurd rfl hinfinity
      | decimal hcs => exact hcs
    rw [hdecimal, ← Numeral.isSome_read?]
    cases Numeral.read? cs with
    | none => exact ⟨fun h => (nomatch h), fun h => (nomatch h)⟩
    | some n => exact ⟨fun _ => rfl, fun _ => isNaN_toDouble n⟩

/-! ### Reading a text without blanks -/

theorem IsUnsignedNumber.ne_sign {c : Char} {cs : List Char} (h : IsUnsignedNumber (c :: cs)) :
    c ≠ '-' ∧ c ≠ '+' := by
  generalize htext : c :: cs = text at h
  cases h with
  | infinity =>
    cases htext
    decide
  | decimal hcs =>
    obtain ⟨d, rest, rfl, hd⟩ := hcs.head
    cases htext
    rcases hd with hd | rfl
    · exact ⟨ne_of_isDigit hd rfl, ne_of_isDigit hd rfl⟩
    · decide

theorem IsUnsignedNumber.not_mark {mark : Char} (hmark : mark = 'x' ∨ mark = 'X')
    {cs : List Char} : ¬IsUnsignedNumber ('0' :: mark :: cs) := by
  intro h
  generalize htext : '0' :: mark :: cs = text at h
  cases h with
  | infinity => cases htext
  | decimal hcs =>
    have hchar := hcs.isNumeralChar mark (by rw [← htext]; simp)
    rcases hmark with rfl | rfl <;> rcases hchar with h | h <;> revert h <;> decide

/-- Behind a sign there is an unsigned number. -/
theorem spellsNumber_sign {c : Char} (hc : c = '-' ∨ c = '+') (cs : List Char) :
    SpellsNumber (c :: cs) ↔ IsUnsignedNumber cs := by
  constructor
  · intro h
    generalize htext : c :: cs = text at h
    cases h with
    | empty => cases htext
    | signed hsign hcs =>
      rcases hsign with rfl | rfl | rfl
      · rw [List.nil_append] at htext
        rw [← htext] at hcs
        rcases hc with hc | hc
        · exact absurd hc hcs.ne_sign.1
        · exact absurd hc hcs.ne_sign.2
      all_goals
        cases htext
        exact hcs
    | hexadecimal hmark hne hds =>
      cases htext
      rcases hc with hc | hc <;> cases hc
  · intro h
    rcases hc with rfl | rfl
    · exact .signed (.inr (.inr rfl)) h
    · exact .signed (.inr (.inl rfl)) h

/-- Behind the mark there are digits to the base 16. -/
theorem spellsNumber_mark {mark : Char} (hmark : mark = 'x' ∨ mark = 'X') (ds : List Char) :
    SpellsNumber ('0' :: mark :: ds) ↔ ds ≠ [] ∧ ∀ c ∈ ds, IsHexDigit c := by
  constructor
  · intro h
    generalize htext : '0' :: mark :: ds = text at h
    cases h with
    | empty => cases htext
    | signed hsign hcs =>
      rcases hsign with rfl | rfl | rfl
      · rw [List.nil_append] at htext
        rw [← htext] at hcs
        exact absurd hcs (IsUnsignedNumber.not_mark hmark)
      all_goals cases htext
    | hexadecimal hmark' hne hds =>
      cases htext
      exact ⟨hne, hds⟩
  · rintro ⟨hne, hds⟩
    exact .hexadecimal hmark hne hds

/-- Without a sign and a mark a text spells an unsigned number. -/
theorem spellsNumber_unsigned {cs : List Char} (hne : cs ≠ [])
    (hsign : ∀ rest, cs ≠ '-' :: rest ∧ cs ≠ '+' :: rest)
    (hmark : ∀ rest, cs ≠ '0' :: 'x' :: rest ∧ cs ≠ '0' :: 'X' :: rest) :
    SpellsNumber cs ↔ IsUnsignedNumber cs := by
  refine ⟨fun h => ?_, fun h => .signed (.inl rfl) h⟩
  cases h with
  | empty => exact absurd rfl hne
  | signed hs hcs =>
    rcases hs with rfl | rfl | rfl
    · exact hcs
    · exact absurd rfl (hsign _).2
    · exact absurd rfl (hsign _).1
  | hexadecimal hm hds =>
    rcases hm with rfl | rfl
    · exact absurd rfl (hmark _).1
    · exact absurd rfl (hmark _).2

/-- The number of a string is not NaN when the text between the blanks spells a number. -/
theorem isNaN_stringToNumber_trim (s : String) :
    (stringToNumber s).isNaN = false ↔ SpellsNumber (Text.trim s.toList) := by
  rw [stringToNumber]
  split
  · rename_i hempty
    rw [hempty]
    exact ⟨fun _ => .empty, fun _ => rfl⟩
  · rename_i hex hcs
    rw [hcs, isNaN_hexToNumber, spellsNumber_mark (.inl rfl)]
  · rename_i hex hcs
    rw [hcs, isNaN_hexToNumber, spellsNumber_mark (.inr rfl)]
  · rename_i rest hcs
    rw [hcs, Double.isNaN_neg, isNaN_unsignedToNumber, spellsNumber_sign (.inl rfl)]
  · rename_i rest hcs
    rw [hcs, isNaN_unsignedToNumber, spellsNumber_sign (.inr rfl)]
  · rename_i hempty hx hX hminus hplus
    rw [isNaN_unsignedToNumber]
    exact (spellsNumber_unsigned hempty (fun rest => ⟨hminus rest, hplus rest⟩)
      fun rest => ⟨hx rest, hX rest⟩).symm

/-! ### Blanks -/

/-- The visible characters of ASCII, which all characters of numbers are. -/
def IsInk (c : Char) : Prop := 0x20 < c.toNat ∧ c.toNat < 0x7f

instance (c : Char) : Decidable (IsInk c) := inferInstanceAs (Decidable (_ ∧ _))

theorem isInk_of_mem {cs : List Char} (h : cs.all (IsInk ·) = true) {c : Char} (hc : c ∈ cs) :
    IsInk c := of_decide_eq_true (List.all_eq_true.1 h c hc)

theorem isInk_of_isDigit {c : Char} (h : c.isDigit = true) : IsInk c := by
  simp only [Char.isDigit, Bool.and_eq_true, decide_eq_true_eq, ge_iff_le,
    UInt32.le_iff_toNat_le] at h
  have hlow : 48 ≤ c.toNat := h.1
  have hhigh : c.toNat ≤ 57 := h.2
  exact ⟨by omega, by omega⟩

theorem isInk_of_isNumeralChar {c : Char} (h : IsNumeralChar c) : IsInk c :=
  h.elim isInk_of_isDigit (isInk_of_mem (by decide))

theorem isInk_of_isHexDigit {c : Char} (h : IsHexDigit c) : IsInk c := by
  have hrange {lo hi : Char} (hlo : 0x20 < lo.toNat) (hhi : hi.toNat < 0x7f)
      (hc : lo ≤ c ∧ c ≤ hi) : IsInk c := by
    have hlow : lo.toNat ≤ c.toNat := hc.1
    have hhigh : c.toNat ≤ hi.toNat := hc.2
    exact ⟨by omega, by omega⟩
  rcases h with h | h | h <;> exact hrange (by decide) (by decide) h

theorem SpellsNumber.isInk {cs : List Char} (h : SpellsNumber cs) : ∀ c ∈ cs, IsInk c := by
  intro c hc
  cases h with
  | empty => cases hc
  | signed hsign hcs =>
    rcases List.mem_append.1 hc with hc | hc
    · exact isInk_of_isNumeralChar (hsign.isNumeralChar c hc)
    · cases hcs with
      | infinity => exact isInk_of_mem (by decide) hc
      | decimal hcs => exact isInk_of_isNumeralChar (hcs.isNumeralChar c hc)
  | hexadecimal hmark hne hds =>
    rcases List.mem_cons.1 hc with rfl | hc
    · decide
    · rcases List.mem_cons.1 hc with rfl | hc
      · rcases hmark with rfl | rfl <;> decide
      · exact isInk_of_isHexDigit (hds c hc)

section Strip

variable {isBlank : Char → Bool}

/-- A number between blanks, where no blank is a visible character of ASCII. -/
theorem spellsNumber_strip_iff (hink : ∀ c, IsInk c → isBlank c = false) (cs : List Char) :
    SpellsNumber (strip isBlank cs) ↔ ∃ before core after, cs = before ++ core ++ after ∧
      (∀ c ∈ before, isBlank c = true) ∧ (∀ c ∈ after, isBlank c = true) ∧
        SpellsNumber core := by
  constructor
  · intro h
    obtain ⟨before, after, hsplit, hbefore, hafter⟩ := exists_strip isBlank cs
    exact ⟨before, _, after, hsplit, hbefore, hafter, h⟩
  · rintro ⟨before, core, after, rfl, hbefore, hafter, hcore⟩
    rw [strip_append hbefore (fun c hc => hink c (hcore.isInk c hc)) hafter]
    exact hcore

/-- A text that spells a number has no characters but blanks and visible ones of ASCII. -/
theorem not_mem_of_spellsNumber_strip {cs : List Char} (h : SpellsNumber (strip isBlank cs))
    {c : Char} (hblank : isBlank c = false) (hink : ¬IsInk c) : c ∉ cs := by
  obtain ⟨before, after, hsplit, hbefore, hafter⟩ := exists_strip isBlank cs
  intro hc
  rw [hsplit] at hc
  rcases List.mem_append.1 hc with hc | hc
  · rcases List.mem_append.1 hc with hc | hc
    · exact Bool.noConfusion (hblank.symm.trans (hbefore c hc))
    · exact hink (h.isInk c hc)
  · exact Bool.noConfusion (hblank.symm.trans (hafter c hc))

end Strip

theorem not_isBlank_of_isInk (c : Char) (h : IsInk c) : Text.isBlank c = false := by
  obtain ⟨hlow, hhigh⟩ := h
  rw [Bool.eq_false_iff]
  simp only [Text.isBlank, ne_eq, Bool.or_eq_true, Bool.and_eq_true, decide_eq_true_eq, beq_iff_eq]
  omega

theorem not_isStrWhiteSpace_of_isInk (c : Char) (h : IsInk c) : isStrWhiteSpace c = false := by
  obtain ⟨hlow, hhigh⟩ := h
  rw [Bool.eq_false_iff]
  simp only [isStrWhiteSpace, isWhiteSpace, isLineTerminator, isSpaceSeparator, ne_eq,
    Bool.or_eq_true, Bool.and_eq_true, decide_eq_true_eq, beq_iff_eq]
  omega

/-- Where neither of the two occurs, it does not matter which blanks are stripped. -/
theorem spellsNumber_strip_congr (cs : List Char) (hnext : '\u0085' ∉ cs)
    (hmark : '\ufeff' ∉ cs) :
    SpellsNumber (strip Text.isBlank cs) ↔ SpellsNumber (strip isStrWhiteSpace cs) := by
  have hsame (c : Char) (hc : c ∈ cs) : Text.isBlank c = isStrWhiteSpace c :=
    isBlank_eq_isStrWhiteSpace (fun h => hnext (h ▸ hc)) fun h => hmark (h ▸ hc)
  rw [spellsNumber_strip_iff not_isBlank_of_isInk,
    spellsNumber_strip_iff not_isStrWhiteSpace_of_isInk]
  constructor
  · rintro ⟨before, core, after, rfl, hbefore, hafter, hcore⟩
    exact ⟨before, core, after, rfl, fun c hc => (hsame c (by simp [hc])) ▸ hbefore c hc,
      fun c hc => (hsame c (by simp [hc])) ▸ hafter c hc, hcore⟩
  · rintro ⟨before, core, after, rfl, hbefore, hafter, hcore⟩
    exact ⟨before, core, after, rfl, fun c hc => (hsame c (by simp [hc])) ▸ hbefore c hc,
      fun c hc => (hsame c (by simp [hc])) ▸ hafter c hc, hcore⟩

/-- **The strings that spell numbers.**  The number of a string is not NaN just when the string,
without the blanks at its ends, is empty, an unsigned number behind an optional sign, or digits to
the base 16 behind their mark.  The same with the blanks of ECMAScript is right for a string unless
it spells a number between blanks with a next line character among them, or between blanks of
ECMAScript with a byte order mark among them. -/
theorem isNaN_stringToNumber (s : String) :
    ((stringToNumber s).isNaN = false ↔ SpellsNumber (strip Text.isBlank s.toList)) ∧
    (((stringToNumber s).isNaN = false ↔ SpellsNumber (strip isStrWhiteSpace s.toList)) ↔
      ('\u0085' ∈ s.toList → ¬SpellsNumber (strip Text.isBlank s.toList)) ∧
      ('\ufeff' ∈ s.toList → ¬SpellsNumber (strip isStrWhiteSpace s.toList))) := by
  have hread : (stringToNumber s).isNaN = false ↔
      SpellsNumber (strip Text.isBlank s.toList) := by
    rw [← trim_eq_strip]
    exact isNaN_stringToNumber_trim s
  refine ⟨hread, ?_⟩
  rw [hread]
  have hsame := spellsNumber_strip_congr s.toList
  have hmark (h : SpellsNumber (strip Text.isBlank s.toList)) : '\ufeff' ∉ s.toList :=
    not_mem_of_spellsNumber_strip h (by decide) (by decide)
  have hnext (h : SpellsNumber (strip isStrWhiteSpace s.toList)) : '\u0085' ∉ s.toList :=
    not_mem_of_spellsNumber_strip h (by decide) (by decide)
  constructor
  · intro h
    exact ⟨fun hmem hp => hnext (h.1 hp) hmem, fun hmem hq => hmark (h.2 hq) hmem⟩
  · rintro ⟨hwithout, hwithout'⟩
    constructor
    · intro hp
      exact (hsame (fun hmem => hwithout hmem hp) (hmark hp)).1 hp
    · intro hq
      exact (hsame (hnext hq) fun hmem => hwithout' hmem hq).2 hq

/-- A next line character in front of a digit is taken for a blank. -/
theorem exists_not_spellsNumber :
    ¬∀ s : String, (stringToNumber s).isNaN = false ↔
      SpellsNumber (strip isStrWhiteSpace s.toList) := by
  intro h
  have hspells := (h "\u00857").1 (by decide +kernel)
  have hmem := not_mem_of_spellsNumber_strip hspells (c := '\u0085') (by decide) (by decide)
  exact hmem (by decide)

end ActionTree
