import ActionTree.Proofs.Double.Exact
import ActionTree.Proofs.Double.Rounding
import ActionTree.Proofs.Text.NumericString
import ActionTree.Proofs.Text.Utf8

/-!
# Numbers by tests and a wider reader

The number of a string can be had from a reader that takes more than numerals.  Tests of the first
character and of all bytes stand in front of it, and the sign is put on by a product.

* `Double.word?`, `Double.read?` - the reader: numerals and three words, with a sign;
* `beginsNumber`, `isNumberByte` - the tests;
* `numberByTests` - the tests and the reader;
* `Double.one_mul`, `Double.neg_one_mul` - a product puts on the sign;
* `read?_of_beginsNumber` - behind the first test the reader takes numerals only;
* `numberByTests_eq` - the number is the same.
-/

namespace ActionTree

/-! ### The reader -/

namespace Double

/-- The words that the reader takes, in any case. -/
def word? (cs : List Char) : Option Double :=
  let word := cs.map Char.toLower
  if word = "inf".toList ∨ word = "infinity".toList then some (.infinite false)
  else if word = "nan".toList then some .nan
  else none

/-- The double that a whole text without a sign spells. -/
def readUnsigned? (cs : List Char) : Option Double :=
  ((Numeral.read? cs).map Numeral.toDouble).or (word? cs)

/-- The double that a whole text spells. -/
def read? : List Char → Option Double
  | '-' :: cs => (readUnsigned? cs).map neg
  | '+' :: cs => readUnsigned? cs
  | cs => readUnsigned? cs

end Double

/-! ### The tests -/

/-- Whether a text begins with a digit or a point. -/
def beginsNumber (cs : List Char) : Bool := cs.head?.any fun c => c.isDigit || c == '.'

/-- Tells the bytes of digits, points, exponent marks and signs. -/
def isNumberByte (b : UInt8) : Bool :=
  Utf8.within 0x30 0x39 b || [0x2e, 0x65, 0x45, 0x2b, 0x2d].contains b

/-- The number of a text whose sign was taken off. -/
def unsignedByTests (sign : Double) (cs : List Char) : Double :=
  if cs = "Infinity".toList then sign.mul (.infinite false)
  else if !beginsNumber cs || !(cs.flatMap String.utf8EncodeChar).all isNumberByte then .nan
  else match Double.read? cs with
    | some x => sign.mul x
    | none => .nan

/-- The number of a text that has no mark of the base 16 in front. -/
def signedByTests : List Char → Double
  | '-' :: cs => unsignedByTests (Double.ofNat 1).neg cs
  | '+' :: cs => unsignedByTests (Double.ofNat 1) cs
  | cs => unsignedByTests (Double.ofNat 1) cs

/-- The number of a string, with the tests in front of the reader. -/
def numberByTests (s : String) : Double :=
  let cs := Text.trim s.toList
  if cs.isEmpty then .zero false
  else match (cs.dropPrefix? "0x".toList).or (cs.dropPrefix? "0X".toList) with
    | some hex => hexToNumber hex
    | none => signedByTests cs

/-! ### Signs -/

namespace Double

/-- One and its opposite put their sign on a number. -/
theorem mul_one_finite {one' : Fin rankLimit} (h : rankUnits one' = one) (s : Bool) (x : Double) :
    (finite s one').mul x = if s then x.neg else x := by
  cases x with
  | nan => cases s <;> rfl
  | infinite t =>
    have hne : one'.val ≠ 0 := by
      intro hzero
      rw [hzero] at h
      exact one_pos.ne h
    rw [mul, if_neg hne]
    cases s <;> cases t <;> rfl
  | finite t r =>
    have hrank : nearestRank (one * rankUnits r) one = r := by
      have hscale := nearestRank_scale one_pos (rankUnits r) 1
      rw [Nat.one_mul] at hscale
      rw [Nat.mul_comm, hscale, nearestRank_rankUnits]
    rw [mul, h, round_eq_finite _ hrank]
    cases s <;> cases t <;> rfl

theorem exists_one : ∃ r : Fin rankLimit, ofNat 1 = .finite false r ∧ rankUnits r = one := by
  obtain ⟨r, hr, hunits⟩ := exists_ofNat (show 1 < 2 ^ 53 by decide)
  exact ⟨r, hr, by rw [hunits, Nat.one_mul]⟩

theorem one_mul (x : Double) : (ofNat 1).mul x = x := by
  obtain ⟨r, hr, hunits⟩ := exists_one
  rw [hr, mul_one_finite hunits, if_neg Bool.false_ne_true]

theorem neg_one_mul (x : Double) : (ofNat 1).neg.mul x = x.neg := by
  obtain ⟨r, hr, hunits⟩ := exists_one
  rw [hr]
  exact mul_one_finite hunits true x

end Double

/-! ### What the tests let through -/

/-- No word begins with a digit or a point. -/
theorem word?_eq_none {c : Char} (hc : c.isDigit = true ∨ c = '.') (cs : List Char) :
    Double.word? (c :: cs) = none := by
  have hlower : c.toLower = c := by
    have hhigh : c.toNat < 'A'.toNat := by
      rcases hc with hc | rfl
      · exact (Char.isDigit_iff_toNat.1 hc).2.trans_lt (by decide)
      · decide
    exact dif_neg fun hupper => absurd (show 'A'.toNat ≤ c.toNat from hupper.1) hhigh.not_ge
  have hne {d : Char} (word : List Char) (hd : d.isDigit = false ∧ d ≠ '.') :
      (c :: cs).map Char.toLower ≠ d :: word := by
    rw [List.map_cons, hlower]
    intro h
    obtain rfl := (List.cons.inj h).1
    exact hc.elim (fun hc => ne_of_isDigit hc hd.1 rfl) hd.2
  have hinf : ¬((c :: cs).map Char.toLower = "inf".toList ∨
      (c :: cs).map Char.toLower = "infinity".toList) :=
    not_or.2 ⟨hne "nf".toList (by decide), hne "nfinity".toList (by decide)⟩
  have hnan : (c :: cs).map Char.toLower ≠ "nan".toList := hne "an".toList (by decide)
  rw [Double.word?, if_neg hinf, if_neg hnan]

theorem beginsNumber_iff {cs : List Char} : beginsNumber cs = true ↔
    ∃ c rest, cs = c :: rest ∧ (c.isDigit = true ∨ c = '.') := by
  cases cs with
  | nil => simp [beginsNumber]
  | cons c rest => simp [beginsNumber]

/-- Behind the first test the reader takes numerals only. -/
theorem read?_of_beginsNumber {cs : List Char} (h : beginsNumber cs = true) :
    Double.read? cs = (Numeral.read? cs).map Numeral.toDouble := by
  obtain ⟨c, rest, rfl, hc⟩ := beginsNumber_iff.1 h
  have hsign : c ≠ '-' ∧ c ≠ '+' := by
    rcases hc with hc | rfl
    · exact ⟨ne_of_isDigit hc rfl, ne_of_isDigit hc rfl⟩
    · decide
  have hread : Double.read? (c :: rest) = Double.readUnsigned? (c :: rest) := by
    rw [Double.read?]
    · exact fun cs h => hsign.1 (List.cons.inj h).1
    · exact fun cs h => hsign.2 (List.cons.inj h).1
  rw [hread, Double.readUnsigned?, word?_eq_none hc, Option.or_none]

theorem isNumberByte_of_isNumeralChar {c : Char} (h : IsNumeralChar c) :
    ∀ b ∈ String.utf8EncodeChar c, isNumberByte b = true := by
  rcases h with hdigit | hmark
  · obtain ⟨hlow, hhigh⟩ : 0x30 ≤ c.toNat ∧ c.toNat ≤ 0x39 := Char.isDigit_iff_toNat.1 hdigit
    have hbyte : String.utf8EncodeChar c = [.ofNat c.toNat] :=
      if_pos (show c.toNat ≤ 127 by omega)
    have hb : (UInt8.ofNat c.toNat).toNat = c.toNat := Utf8.toNat_ofNat_of_lt (by omega)
    rw [hbyte, List.forall_mem_singleton, isNumberByte, Bool.or_eq_true, Utf8.within_iff, hb]
    exact .inl ⟨hlow, hhigh⟩
  · have hmarks : (['.', 'e', 'E', '+', '-'].all fun c =>
        (String.utf8EncodeChar c).all isNumberByte) = true := rfl
    exact List.all_eq_true.1 (List.all_eq_true.1 hmarks c hmark)

/-- Numerals pass both tests. -/
theorem IsDecimal.passes {cs : List Char} (h : IsDecimal cs) : beginsNumber cs = true ∧
    (cs.flatMap String.utf8EncodeChar).all isNumberByte = true := by
  refine ⟨beginsNumber_iff.2 h.head, List.all_eq_true.2 fun b hb => ?_⟩
  obtain ⟨c, hc, hb⟩ := List.mem_flatMap.1 hb
  exact isNumberByte_of_isNumeralChar (h.isNumeralChar c hc) b hb

/-! ### The same number -/

theorem unsignedByTests_eq {sign : Double} {put : Double → Double}
    (hsign : ∀ x, sign.mul x = put x) (hnan : put .nan = .nan) (cs : List Char) :
    unsignedByTests sign cs = put (unsignedToNumber cs) := by
  rw [unsignedByTests, unsignedToNumber]
  split_ifs with hinfinity htests
  · exact hsign _
  · have hnone : Numeral.read? cs = none := by
      rw [← Option.not_isSome_iff_eq_none, Numeral.isSome_read?]
      intro hdecimal
      obtain ⟨hbegins, hbytes⟩ := hdecimal.passes
      rw [hbegins, hbytes] at htests
      cases htests
    rw [hnone]
    exact hnan.symm
  · have hbegins : beginsNumber cs = true := by
      cases h : beginsNumber cs with
      | false => exact absurd (by rw [h]; rfl) htests
      | true => rfl
    rw [read?_of_beginsNumber hbegins]
    cases Numeral.read? cs with
    | none => exact hnan.symm
    | some n => exact hsign _

theorem signedByTests_of_ne {cs : List Char} (hminus : ∀ rest, cs ≠ '-' :: rest)
    (hplus : ∀ rest, cs ≠ '+' :: rest) : signedByTests cs = unsignedToNumber cs := by
  rw [signedByTests]
  · exact unsignedByTests_eq Double.one_mul rfl cs
  · exact hminus
  · exact hplus

theorem dropPrefix?_eq_none {mark cs : List Char} (h : ∀ rest, cs ≠ mark ++ rest) :
    cs.dropPrefix? mark = none := by
  cases hdrop : cs.dropPrefix? mark with
  | none => rfl
  | some rest =>
    obtain ⟨front, hsplit, hfront⟩ := List.dropPrefix?_eq_some_iff.1 hdrop
    rw [beq_iff_eq.1 hfront] at hsplit
    exact absurd hsplit (h rest)

/-- **The tests and the reader give the number of a string.** -/
theorem numberByTests_eq (s : String) : numberByTests s = stringToNumber s := by
  rw [numberByTests, stringToNumber]
  generalize Text.trim s.toList = cs
  have hmark {mark : Char} (h : mark = 'x' ∨ mark = 'X') (hex : List Char) :
      (('0' :: mark :: hex).dropPrefix? "0x".toList).or
        (('0' :: mark :: hex).dropPrefix? "0X".toList) = some hex := by
    rcases h with rfl | rfl <;> simp [List.dropPrefix?]
  have hnone (hlower : ∀ hex, cs ≠ '0' :: 'x' :: hex) (hupper : ∀ hex, cs ≠ '0' :: 'X' :: hex) :
      (cs.dropPrefix? "0x".toList).or (cs.dropPrefix? "0X".toList) = none := by
    rw [dropPrefix?_eq_none hlower, dropPrefix?_eq_none hupper]
    rfl
  symm
  split
  · rfl
  · rename_i hex
    rw [hmark (.inl rfl)]
    rfl
  · rename_i hex
    rw [hmark (.inr rfl)]
    rfl
  · rename_i rest
    exact (unsignedByTests_eq Double.neg_one_mul rfl rest).symm
  · rename_i rest
    exact (unsignedByTests_eq Double.one_mul rfl rest).symm
  · rename_i hempty hlower hupper hminus hplus
    rw [if_neg (by simpa using hempty), hnone hlower hupper]
    exact (signedByTests_of_ne hminus hplus).symm

end ActionTree
