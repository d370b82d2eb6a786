import ActionTree.Proofs.Decimal.Numeral
import Mathlib.Data.List.TakeWhile

/-!
# The grammar of decimal numerals

An unsigned numeral has digits, perhaps a point among them or at either end, and perhaps an
exponent.

* `IsSign`, `IsExponent`, `IsDecimal` - the grammar;
* `IsDecimal.isNumeralChar`, `IsDecimal.head` - what stands in a numeral and in front;
* `Numeral.isSome_readExponent?`, `Numeral.isSome_read?` - reading accepts just this.
-/

namespace ActionTree

/-- A sign, or nothing. -/
def IsSign (cs : List Char) : Prop := cs = [] ∨ cs = ['+'] ∨ cs = ['-']

/-- An exponent, or nothing. -/
inductive IsExponent : List Char → Prop
  | absent : IsExponent []
  | present {mark : Char} {sign ds : List Char} (hmark : mark = 'e' ∨ mark = 'E')
      (hsign : IsSign sign) (hds : IsDigits ds) : IsExponent (mark :: (sign ++ ds))

/-- An unsigned numeral. -/
inductive IsDecimal : List Char → Prop
  | whole {ds e : List Char} (hds : IsDigits ds) (he : IsExponent e) : IsDecimal (ds ++ e)
  | point {ds fs e : List Char} (hds : IsDigits ds) (hfs : ∀ c ∈ fs, c.isDigit = true)
      (he : IsExponent e) : IsDecimal (ds ++ '.' :: (fs ++ e))
  | fraction {fs e : List Char} (hfs : IsDigits fs) (he : IsExponent e) :
      IsDecimal ('.' :: (fs ++ e))

theorem IsExponent.head?_eq {e : List Char} (h : IsExponent e) {c : Char}
    (hc : e.head? = some c) : c = 'e' ∨ c = 'E' := by
  cases h with
  | absent => cases hc
  | present hmark hsign hds =>
    obtain rfl := Option.some.inj hc
    exact hmark

/-- An exponent does not go on with the digits in front of it. -/
theorem IsExponent.head?_not_isDigit {e : List Char} (h : IsExponent e) :
    ∀ c, e.head? = some c → c.isDigit = false := by
  intro c hc
  rcases h.head?_eq hc with rfl | rfl <;> rfl

/-! ### Characters -/

/-- The characters of numerals. -/
def IsNumeralChar (c : Char) : Prop := c.isDigit = true ∨ c ∈ ['.', 'e', 'E', '+', '-']

theorem isNumeralChar_of_digits {ds : List Char} (h : ∀ c ∈ ds, c.isDigit = true) :
    ∀ c ∈ ds, IsNumeralChar c := fun c hc => .inl (h c hc)

theorem IsSign.isNumeralChar {sign : List Char} (h : IsSign sign) :
    ∀ c ∈ sign, IsNumeralChar c := by
  intro c hc
  rcases h with rfl | rfl | rfl
  · cases hc
  all_goals
    obtain rfl := List.mem_singleton.1 hc
    exact .inr (by decide)

theorem IsExponent.isNumeralChar {e : List Char} (h : IsExponent e) :
    ∀ c ∈ e, IsNumeralChar c := by
  cases h with
  | absent => exact fun c hc => nomatch hc
  | present hmark hsign hds =>
    refine List.forall_mem_cons.2 ⟨?_, List.forall_mem_append.2
      ⟨hsign.isNumeralChar, isNumeralChar_of_digits hds.2⟩⟩
    rcases hmark with rfl | rfl <;> exact .inr (by decide)

theorem IsDecimal.isNumeralChar {cs : List Char} (h : IsDecimal cs) :
    ∀ c ∈ cs, IsNumeralChar c := by
  have hpoint {fs e : List Char} (hfs : ∀ c ∈ fs, c.isDigit = true) (he : IsExponent e) :
      ∀ c ∈ '.' :: (fs ++ e), IsNumeralChar c :=
    List.forall_mem_cons.2 ⟨.inr (by decide), List.forall_mem_append.2
      ⟨isNumeralChar_of_digits hfs, he.isNumeralChar⟩⟩
  cases h with
  | whole hds he =>
    exact List.forall_mem_append.2 ⟨isNumeralChar_of_digits hds.2, he.isNumeralChar⟩
  | point hds hfs he =>
    exact List.forall_mem_append.2 ⟨isNumeralChar_of_digits hds.2, hpoint hfs he⟩
  | fraction hfs he => exact hpoint hfs.2 he

/-- An unsigned numeral begins with a digit or a point. -/
theorem IsDecimal.head {cs : List Char} (h : IsDecimal cs) :
    ∃ c rest, cs = c :: rest ∧ (c.isDigit = true ∨ c = '.') := by
  have hdigits {ds rest : List Char} (hds : IsDigits ds) :
      ∃ c rest', ds ++ rest = c :: rest' ∧ (c.isDigit = true ∨ c = '.') := by
    cases ds with
    | nil => exact absurd rfl hds.1
    | cons c ds => exact ⟨c, ds ++ rest, rfl, .inl (hds.2 c List.mem_cons_self)⟩
  cases h with
  | whole hds he => exact hdigits hds
  | point hds hfs he => exact hdigits hds
  | fraction hfs he => exact ⟨'.', _, rfl, .inr rfl⟩

namespace Numeral

/-! ### Exponents -/

/-- The digits behind the mark and the sign decide; without a sign they begin with none. -/
theorem isSome_readExponent?_mark {mark : Char} {sign ds : List Char} (hsign : IsSign sign)
    (hds : sign = [] → ∀ d, ds.head? = some d → d ≠ '-' ∧ d ≠ '+') :
    (readExponent? (mark :: (sign ++ ds))).isSome = true ↔
      (mark = 'e' ∨ mark = 'E') ∧ IsDigits ds := by
  have hread : ∃ minus, readExponent? (mark :: (sign ++ ds)) =
      if (mark = 'e' ∨ mark = 'E') ∧ ds ≠ [] ∧ ds.all Char.isDigit = true
        then some (some (minus, ds)) else none := by
    rcases hsign with rfl | rfl | rfl
    · refine ⟨false, ?_⟩
      rw [List.nil_append, readExponent?]
      · rintro rest rfl
        exact (hds rfl _ rfl).1 rfl
      · rintro rest rfl
        exact (hds rfl _ rfl).2 rfl
    · exact ⟨false, rfl⟩
    · exact ⟨true, rfl⟩
  obtain ⟨minus, hread⟩ := hread
  rw [hread, IsDigits, ← List.all_eq_true]
  split_ifs with h
  · exact ⟨fun _ => h, fun _ => rfl⟩
  · exact ⟨fun hnone => Bool.noConfusion hnone, fun h' => absurd h' h⟩

/-- Every text has a sign to take off, if only the empty one. -/
theorem exists_sign (cs : List Char) : ∃ sign ds, IsSign sign ∧ cs = sign ++ ds ∧
    (sign = [] → ∀ d, ds.head? = some d → d ≠ '-' ∧ d ≠ '+') := by
  cases cs with
  | nil => exact ⟨[], [], .inl rfl, rfl, fun _ _ h => nomatch h⟩
  | cons c ds =>
    by_cases hminus : c = '-'
    · exact ⟨['-'], ds, .inr (.inr rfl), by rw [hminus]; rfl, fun h => nomatch h⟩
    · by_cases hplus : c = '+'
      · exact ⟨['+'], ds, .inr (.inl rfl), by rw [hplus]; rfl, fun h => nomatch h⟩
      · refine ⟨[], c :: ds, .inl rfl, rfl, fun _ d hd => ?_⟩
        obtain rfl := Option.some.inj hd
        exact ⟨hminus, hplus⟩

theorem isSome_readExponent? (cs : List Char) :
    (readExponent? cs).isSome = true ↔ IsExponent cs := by
  constructor
  · intro h
    cases cs with
    | nil => exact .absent
    | cons mark rest =>
      obtain ⟨sign, ds, hsign, rfl, hds⟩ := exists_sign rest
      obtain ⟨hmark, hdigits⟩ := (isSome_readExponent?_mark hsign hds).1 h
      exact .present hmark hsign hdigits
  · intro h
    cases h with
    | absent => rfl
    | present hmark hsign hds =>
      refine (isSome_readExponent?_mark hsign fun _ d hd => ?_).2 ⟨hmark, hds⟩
      have hd : d.isDigit = true := hds.2 d (List.mem_of_mem_head? hd)
      exact ⟨ne_of_isDigit hd rfl, ne_of_isDigit hd rfl⟩

/-! ### Numerals -/

/-- What stands behind some digits does not begin with one. -/
theorem head?_dropWhile_isDigit (cs : List Char) :
    ∀ c, (cs.dropWhile Char.isDigit).head? = some c → c.isDigit = false := by
  intro c hc
  have h := List.head?_dropWhile_not Char.isDigit cs
  rw [hc] at h
  exact h

/-- The fraction and the exponent behind the digits decide. -/
theorem isSome_read?_append {ds rest : List Char} (hds : ∀ c ∈ ds, c.isDigit = true)
    (hrest : ∀ c, rest.head? = some c → c.isDigit = false) :
    (read? (ds ++ rest)).isSome = true ↔
      ¬(ds = [] ∧ (readFraction rest).1.getD [] = []) ∧ IsExponent (readFraction rest).2 := by
  obtain ⟨htake, hdrop⟩ := takeWhile_isDigit hds hrest
  rw [read?, htake, hdrop, ← isSome_readExponent?]
  dsimp only
  split_ifs with h
  · exact ⟨fun hnone => Bool.noConfusion hnone, fun h' => absurd h h'.1⟩
  · rw [Option.isSome_map]
    exact ⟨fun hsome => ⟨h, hsome⟩, fun h' => h'.2⟩

theorem readFraction_point {fs e : List Char} (hfs : ∀ c ∈ fs, c.isDigit = true)
    (he : ∀ c, e.head? = some c → c.isDigit = false) :
    readFraction ('.' :: (fs ++ e)) = (some fs, e) := by
  obtain ⟨htake, hdrop⟩ := takeWhile_isDigit hfs he
  rw [readFraction, htake, hdrop]

theorem readFraction_of_ne {cs : List Char} (h : cs.head? ≠ some '.') :
    readFraction cs = (none, cs) := by
  rw [readFraction]
  rintro rest rfl
  exact h rfl

/-- Reading accepts the numerals of the grammar. -/
theorem isSome_read? (cs : List Char) : (read? cs).isSome = true ↔ IsDecimal cs := by
  constructor
  · intro h
    have hds : ∀ c ∈ cs.takeWhile Char.isDigit, c.isDigit = true :=
      fun c hc => List.mem_takeWhile_imp hc
    have hrest := head?_dropWhile_isDigit cs
    rw [← List.takeWhile_append_dropWhile (p := Char.isDigit) (l := cs)] at h ⊢
    obtain ⟨hdigit, hexponent⟩ := (isSome_read?_append hds hrest).1 h
    by_cases hpoint : (cs.dropWhile Char.isDigit).head? = some '.'
    · obtain ⟨rest, hsplit⟩ := List.head?_eq_some_iff.1 hpoint
      have hfs : ∀ c ∈ rest.takeWhile Char.isDigit, c.isDigit = true :=
        fun c hc => List.mem_takeWhile_imp hc
      have he := head?_dropWhile_isDigit rest
      rw [hsplit, ← List.takeWhile_append_dropWhile (p := Char.isDigit) (l := rest)]
        at hdigit hexponent ⊢
      rw [readFraction_point hfs he] at hdigit hexponent
      by_cases hempty : cs.takeWhile Char.isDigit = []
      · rw [hempty, List.nil_append]
        exact .fraction ⟨fun hnil => hdigit ⟨hempty, hnil⟩, hfs⟩ hexponent
      · exact .point ⟨hempty, hds⟩ hfs hexponent
    · rw [readFraction_of_ne hpoint] at hdigit hexponent
      exact .whole ⟨fun hnil => hdigit ⟨hnil, rfl⟩, hds⟩ hexponent
  · intro h
    cases h with
    | whole hds he =>
      refine (isSome_read?_append hds.2 he.head?_not_isDigit).2 ?_
      rw [readFraction_of_ne fun hpoint => by rcases he.head?_eq hpoint with h | h <;> cases h]
      exact ⟨fun hnil => hds.1 hnil.1, he⟩
    | point hds hfs he =>
      refine (isSome_read?_append hds.2 fun c hc => ?_).2 ?_
      · obtain rfl := Option.some.inj hc
        rfl
      · rw [readFraction_point hfs he.head?_not_isDigit]
        exact ⟨fun hnil => hds.1 hnil.1, he⟩
    | fraction hfs he =>
      have hnone : ∀ c ∈ ([] : List Char), c.isDigit = true := fun _ h => nomatch h
      refine (isSome_read?_append hnone fun c hc => ?_).2 ?_
      · obtain rfl := Option.some.inj hc
        rfl
      · rw [readFraction_point hfs.2 he.head?_not_isDigit]
        exact ⟨fun hnil => hfs.1 hnil.2, he⟩

end Numeral

end ActionTree
